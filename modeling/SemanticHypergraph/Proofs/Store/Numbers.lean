import SemanticHypergraph.Proofs.Snapshot.Encoding
import SemanticHypergraph.Proofs.Store.Run
import SemanticHypergraph.Proofs.Store.Totality

/-!
# Numbers through a run

The numbered store gives the numbers 0, 1, 2, … to entities as they are first inserted, so a number
is the place of its entity in the log of first insertions, and a scan is that log without what is
not stored. A number once given stays until the store is destroyed.
-/
namespace SemanticHypergraph

open SemanticHypergraph.Hypergraph LawfulHypergraph

section Log

variable {σ : Type} [Hypergraph σ]

/-- The log after a change: an entity is added when it is inserted for the first time, and
destruction begins a new log. -/
def Change.log (s : σ) (log : List Entity) : Change → List Entity
  | insert e isPrimary =>
    match (Hypergraph.insert e isPrimary s).1 with
    | .ok () => if e ∈ log then log else log ++ [e]
    | .error _ => log
  | destroy => []
  | _ => log

/-- The log after a run of changes that begins with some log. -/
def logFrom (s : σ) (log : List Entity) : List Change → List Entity
  | [] => log
  | c :: cs => logFrom (c.perform s).2 (c.log s log) cs

/-- The entities inserted since the store was new or last destroyed, in the order in which they were
first inserted. -/
def firstInserted (cs : List Change) (s : σ) : List Entity := logFrom s [] cs

end Log

namespace NumberedStore

variable {s : NumberedStore} {log : List Entity} {e f : Entity} {n : Nat}

/-- The changes that neither insert nor destroy leave all numbers alone. -/
theorem numbers_perform (c : Change) (hi : ∀ e isPrimary, c ≠ .insert e isPrimary)
    (hd : c ≠ .destroy) (s : NumberedStore) :
    (c.perform s).2.numbers = s.numbers ∧ (c.perform s).2.next = s.next := by
  cases c with
  | insert e isPrimary => exact absurd rfl (hi e isPrimary)
  | destroy => exact absurd rfl hd
  | close => exact ⟨rfl, rfl⟩
  | delete e =>
    rw [Change.state_delete]
    simp only [Hypergraph.delete, NumberedStore.delete]
    cases s.liveNumber? e with
    | none => exact ⟨rfl, rfl⟩
    | some n =>
      simp only
      rw [unlink_eq]
      exact ⟨rfl, rfl⟩
  | setPrimary e isPrimary =>
    rw [Change.state_setPrimary]
    simp only [Hypergraph.setPrimary, NumberedStore.setPrimary]
    cases s.record? e <;> exact ⟨rfl, rfl⟩
  | setAttribute e name value =>
    rw [Change.state_setAttribute]
    simp only [Hypergraph.setAttribute, NumberedStore.setAttribute]
    cases s.liveNumber? e <;> exact ⟨rfl, rfl⟩
  | stepAttribute e name step =>
    rw [Change.state_stepAttribute]
    simp only [Hypergraph.stepAttribute, NumberedStore.stepAttribute]
    cases s.liveNumber? e with
    | none => exact ⟨rfl, rfl⟩
    | some n =>
      simp only
      cases Value.stepped (s.attributesAt n)[name]? name step <;> exact ⟨rfl, rfl⟩

/-- An insertion that succeeds numbers its entity; one that fails numbers nothing. -/
theorem numbers_insert (s : NumberedStore) (e : Entity) (isPrimary : Bool) :
    ((Hypergraph.insert e isPrimary s).1 = .ok () ∧
      (Hypergraph.insert e isPrimary s).2.numbers = (s.assign e).2.numbers ∧
      (Hypergraph.insert e isPrimary s).2.next = (s.assign e).2.next) ∨
    ∃ error, (Hypergraph.insert e isPrimary s).1 = .error error ∧
      (Hypergraph.insert e isPrimary s).2 = s := by
  simp only [Hypergraph.insert, NumberedStore.insert]
  cases h : s.record? e with
  | some r =>
    have hn : s.numbers[e]? = some r.1 := (record?_eq_some.1 h).1
    rw [assign_of_some hn]
    exact .inl ⟨rfl, rfl, rfl⟩
  | none =>
    cases s.missingChild? e with
    | some child => exact .inr ⟨_, rfl, rfl⟩
    | none =>
      refine .inl ⟨rfl, ?_, ?_⟩ <;> simp only <;> rw [link_eq] <;> rfl

/-- No change but destruction takes a number back. -/
theorem number_perform {c : Change} (hd : c ≠ .destroy) (h : s.numbers[e]? = some n) :
    (c.perform s).2.numbers[e]? = some n := by
  by_cases hi : ∃ f isPrimary, c = .insert f isPrimary
  · obtain ⟨f, isPrimary, rfl⟩ := hi
    rw [Change.state_insert]
    rcases numbers_insert s f isPrimary with ⟨_, hnumbers, _⟩ | ⟨_, _, hsame⟩
    · rw [hnumbers]
      exact numbers_assign_of_some h
    · rw [hsame]
      exact h
  · rw [(numbers_perform c (fun f p heq => hi ⟨f, p, heq⟩) hd s).1]
    exact h

theorem number_run {cs : List Change} (hd : .destroy ∉ cs) (h : s.numbers[e]? = some n) :
    (Change.run cs s).numbers[e]? = some n := by
  induction cs generalizing s with
  | nil => exact h
  | cons c cs ih =>
    rw [List.mem_cons, not_or] at hd
    exact ih hd.2 (number_perform (Ne.symm hd.1) h)

/-- The numbers are the places in the log. -/
structure NumbersLog (s : NumberedStore) (log : List Entity) : Prop where
  next : s.next = log.length
  number (e : Entity) (n : Nat) : s.numbers[e]? = some n ↔ log[n]? = some e

theorem numbersLog_empty (name : String) (policy : PrimaryPolicy) :
    NumbersLog (empty name policy) [] where
  next := rfl
  number := by simp [empty]

theorem NumbersLog.mem_iff (h : NumbersLog s log) : e ∈ log ↔ ∃ n, s.numbers[e]? = some n := by
  rw [List.mem_iff_getElem?]
  exact exists_congr fun n => (h.number e n).symm

theorem getElem?_concat {es : List Entity} : (es ++ [e])[n]? = some f ↔
    es[n]? = some f ∨ (n = es.length ∧ f = e) := by
  rcases Nat.lt_trichotomy n es.length with hlt | rfl | hgt
  · rw [List.getElem?_append_left hlt]
    refine ⟨.inl, fun h => h.resolve_right fun heq => ?_⟩
    omega
  · simp [eq_comm]
  · rw [List.getElem?_eq_none (by simp; omega), List.getElem?_eq_none (by omega)]
    simp
    omega

/-- A number for an entity is a place for it in the log. -/
theorem NumbersLog.assign (h : NumbersLog s log) (e : Entity) :
    NumbersLog (s.assign e).2 (if e ∈ log then log else log ++ [e]) := by
  cases he : s.numbers[e]? with
  | some n =>
    rw [assign_of_some he, if_pos (h.mem_iff.2 ⟨n, he⟩)]
    exact h
  | none =>
    have hnot : e ∉ log := by
      intro hmem
      obtain ⟨n, hn⟩ := h.mem_iff.1 hmem
      rw [he] at hn
      cases hn
    rw [assign_of_none he, if_neg hnot]
    refine ⟨by simp [h.next], fun f n => ?_⟩
    simp only [Std.ExtTreeMap.getElem?_insert, Std.compare_eq_iff_eq]
    rw [getElem?_concat, ← h.number]
    by_cases hf : e = f
    · subst hf
      simp [he, h.next, eq_comm]
    · simp [hf, Ne.symm hf]

/-- The step: the log of first insertions goes with the numbers. -/
theorem NumbersLog.perform (h : NumbersLog s log) (c : Change) :
    NumbersLog (c.perform s).2 (c.log s log) := by
  by_cases hi : ∃ e isPrimary, c = .insert e isPrimary
  · obtain ⟨e, isPrimary, rfl⟩ := hi
    rw [Change.state_insert, Change.log]
    rcases numbers_insert s e isPrimary with ⟨hok, hnumbers, hnext⟩ | ⟨error, herror, hsame⟩
    · have hassign := h.assign e
      rw [hok]
      exact ⟨hnext.trans hassign.next, fun f n => by rw [hnumbers]; exact hassign.number f n⟩
    · rw [herror, hsame]
      exact h
  · by_cases hd : c = .destroy
    · subst hd
      rw [Change.state_destroy]
      exact numbersLog_empty s.name s.policy
    · have hlog : c.log s log = log := by
        cases c with
        | insert e isPrimary => exact absurd ⟨e, isPrimary, rfl⟩ hi
        | destroy => exact absurd rfl hd
        | _ => rfl
      obtain ⟨hnumbers, hnext⟩ := numbers_perform c (fun e p heq => hi ⟨e, p, heq⟩) hd s
      rw [hlog]
      exact ⟨hnext.trans h.next, fun f n => by rw [hnumbers]; exact h.number f n⟩

/-- The run, by induction on the changes. -/
theorem NumbersLog.run (h : NumbersLog s log) (cs : List Change) :
    NumbersLog (Change.run cs s) (logFrom s log cs) := by
  induction cs generalizing s log with
  | nil => exact h
  | cons c cs ih => exact ih (h.perform c)

/-! ## The order of scans -/

/-- The first entity has the smaller number. -/
def Earlier (s : NumberedStore) (e f : Entity) : Prop :=
  ∃ m n, s.numbers[e]? = some m ∧ s.numbers[f]? = some n ∧ m < n

theorem not_earlier_both (h : s.Earlier e f) : ¬ s.Earlier f e := by
  obtain ⟨m, n, hm, hn, hlt⟩ := h
  rintro ⟨n', m', hn', hm', hlt'⟩
  rw [hm] at hm'
  rw [hn] at hn'
  cases hm'
  cases hn'
  omega

theorem earlier_entities (hs : s.Consistent) : s.entities.Pairwise s.Earlier := by
  rw [entities_eq_map, List.pairwise_map]
  refine (List.pairwise_map.1 (ascending_rowsWhere s _)).imp_of_mem ?_
  intro r u hr hu hlt
  exact ⟨r.1, u.1, hs.record_number (isRow_of_mem r hr), hs.record_number (isRow_of_mem u hu),
    Nat.compare_eq_lt.1 hlt⟩

theorem NumbersLog.earlier (h : NumbersLog s log) : log.Pairwise s.Earlier := by
  rw [List.pairwise_iff_getElem]
  intro i j hi hj hlt
  exact ⟨i, j, (h.number _ _).2 (List.getElem?_eq_getElem hi),
    (h.number _ _).2 (List.getElem?_eq_getElem hj), hlt⟩

theorem NumbersLog.nodup (h : NumbersLog s log) : log.Nodup := by
  refine h.earlier.imp ?_
  rintro e f hef rfl
  exact not_earlier_both hef hef

/-- A scan is the log without what is not stored. -/
theorem NumbersLog.entities_eq (h : NumbersLog s log) (hs : s.Consistent) :
    s.entities = log.filter s.content.isStored := by
  have hmem : ∀ e, e ∈ s.entities ↔ e ∈ log.filter s.content.isStored := by
    intro e
    rw [mem_entities hs, List.mem_filter]
    refine ⟨fun hstored => ⟨h.mem_iff.2 (number_of_isStored hstored), hstored⟩, And.right⟩
  -- both lists are in the order of the numbers, so the same members make them equal
  have hperm : s.entities.Perm (log.filter s.content.isStored) :=
    (List.perm_ext_iff_of_nodup (nodup_entities hs) (h.nodup.filter _)).2 hmem
  refine hperm.eq_of_pairwise ?_ (earlier_entities hs) (h.earlier.filter _)
  intro e f _ _ hef hfe
  exact absurd hfe (not_earlier_both hef)

/-- After any run of changes of a new store its tables are as they should be, also if entities are
kept under their encodings; numbers stay as long as the store is not destroyed, no query meets a row
without a record, and what is listed comes in the order of first insertion. Operations built on the
contract go no further than such runs. -/
theorem tables_after_run (name : String) (policy : PrimaryPolicy) (cs : List Change) :
    let s := Change.run cs (empty name policy)
    let log := firstInserted cs (empty name policy)
    s.Consistent ∧ Function.Injective Entity.encode ∧
      (∀ (e : Entity) (n : Nat) (more : List Change), s.numbers[e]? = some n → .destroy ∉ more →
        (Change.run more s).numbers[e]? = some n) ∧
      (∀ (q : Query) (n : Nat), q.answer s ≠
        .error (.io ("entity index references missing record " ++ toString n))) ∧
      entities s = log.filter s.content.isStored ∧
      (∀ e, star s e none =
        .ok (log.filter fun p => s.content.isStored p && decide (e ∈ p.children))) ∧
      (∀ template, search s template =
        .ok (log.filter fun p => s.content.isStored p && template.isCandidate p)) ∧
      ∀ ops : List Operation, ∃ more : List Change, Operation.run ops s = Change.run more s := by
  intro s log
  have hempty : SemanticHypergraph.Consistent (empty name policy) := consistent_empty name policy
  have hs : s.Consistent := Change.consistent_run cs hempty
  have hlog : NumbersLog s log := (numbersLog_empty name policy).run cs
  have horder := hlog.entities_eq hs
  refine ⟨hs, Entity.unambiguous_encode.injective, fun e n more hn hd => number_run hd hn,
    fun q n hq => ?_, horder, fun e => ?_, fun template => ?_,
    fun ops => Operation.run_eq_run ops s⟩
  · have hconsistent : SemanticHypergraph.Consistent s := hs
    obtain ⟨reason, position, heq⟩ := Query.answer_error hconsistent hq
    cases heq
  · rw [star_none hs, horder, List.filter_filter]
    simp only [Bool.and_comm]
  · rw [search_eq_filter hs, horder, List.filter_filter]
    simp only [Bool.and_comm]

end NumberedStore

end SemanticHypergraph
