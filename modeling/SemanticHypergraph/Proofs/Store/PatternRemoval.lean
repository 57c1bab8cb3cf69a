import SemanticHypergraph.Proofs.Store.Adding
import SemanticHypergraph.Proofs.Store.Matching
import SemanticHypergraph.Proofs.Store.Removal

/-!
# Removal by pattern

What a pattern finds is collected before the first deletion. To see that nothing else is deleted,
and nothing twice, the deletions are noted in a store that is disturbed at the first of them: an
entity is added in between, and may bring back what has just gone or put in what the pattern would
find.
-/
namespace SemanticHypergraph

open SemanticHypergraph.Hypergraph LawfulHypergraph

variable {σ τ α : Type}

/-- A store whose deletions are noted. The first one adds the entity that is left pending, before it
answers. -/
structure Disturbed (σ : Type) where
  inner : σ
  pending : Option Entity
  /-- The entities of all deletions, in order. -/
  deleted : List Entity

namespace Disturbed

/-- Carries out an update of the inner store. -/
def lift (u : Update σ α) : Update (Disturbed σ) α := fun d =>
  ((u d.inner).1, { d with inner := (u d.inner).2 })

def note (e : Entity) : Update (Disturbed σ) Unit := fun d =>
  (.ok (), { d with deleted := d.deleted ++ [e] })

variable [Hypergraph σ]

def addPending : Update (Disturbed σ) Unit := fun d =>
  match d.pending with
  | none => (.ok (), d)
  | some q => (do let _ ← lift (Hypergraph.add q)) { d with pending := none }

instance : Hypergraph (Disturbed σ) where
  name d := name d.inner
  contains d e := contains d.inner e
  insert e isPrimary := lift (insert e isPrimary)
  delete e := do
    note e
    let found ← lift (delete e)
    addPending
    return found
  isPrimary d e := isPrimary d.inner e
  setPrimary e isPrimary := lift (setPrimary e isPrimary)
  entities d := entities d.inner
  attributeOf d e name := attributeOf d.inner e name
  setAttribute e name value := lift (setAttribute e name value)
  stepAttribute e name step := lift (stepAttribute e name step)
  degree d e := degree d.inner e
  star d e limit := star d.inner e limit
  counts d := counts d.inner
  destroy := lift destroy
  search d template := search d.inner template
  attributes d := attributes d.inner

theorem matchPattern_eq (d : Disturbed σ) (p : Pattern) :
    matchPattern d p = matchPattern d.inner p := by
  cases p <;> rfl

omit [Hypergraph σ] in
theorem lift_of_ok {u : Update σ α} {s t : σ} {a : α} (h : u s = (.ok a, t))
    (pending : Option Entity) (log : List Entity) :
    lift u ⟨s, pending, log⟩ = (.ok a, ⟨t, pending, log⟩) := by
  simp [lift, h]

theorem addPending_of_ok {s t : σ} {q : Entity} (h : add q s = (.ok q, t)) (log : List Entity) :
    addPending (⟨s, some q, log⟩ : Disturbed σ) = (.ok (), ⟨t, none, log⟩) := by
  change (lift (add q) >>= fun _ => pure ()) (⟨s, none, log⟩ : Disturbed σ) = _
  rw [Update.bind_apply, lift_of_ok h]
  rfl

/-- A deletion is noted and carried out, and then what is pending is added. -/
theorem delete_eq {s t : σ} {e : Entity} {found : Bool} (h : delete e s = (.ok found, t))
    (pending : Option Entity) (log : List Entity) :
    delete e (⟨s, pending, log⟩ : Disturbed σ) =
      (do addPending; return found : Update (Disturbed σ) Bool) ⟨t, pending, log ++ [e]⟩ := by
  change (lift (delete e) >>= fun found => addPending >>= fun _ => pure found)
    (⟨s, pending, log ++ [e]⟩ : Disturbed σ) = _
  rw [Update.bind_apply, lift_of_ok h]

variable [LawfulHypergraph σ] {s : σ}

/-- The loop when nothing is pending any more. -/
theorem removeAll_none (hs : Consistent s) {es : List Entity} (hnodup : es.Nodup)
    (hstored : ∀ e ∈ es, (content s).isStored e) (removed : Nat) (log : List Entity) : ∃ t,
    removeAll removed es s = (.ok (removed + es.length), t) ∧
    removeAll removed es (⟨s, none, log⟩ : Disturbed σ) =
      (.ok (removed + es.length), ⟨t, none, log ++ es⟩) ∧
    Consistent t ∧ content t = (content s).dropAll es := by
  induction es generalizing s removed log with
  | nil =>
    refine ⟨s, rfl, ?_, hs, (content s).dropAll_nil.symm⟩
    rw [List.append_nil]
    rfl
  | cons e es ih =>
    obtain ⟨hnot, hnodup⟩ := List.nodup_cons.1 hnodup
    obtain ⟨he, hrest⟩ := List.forall_mem_cons.1 hstored
    obtain ⟨t, hdelete, ht, -, -, hcontent⟩ := (delete_realizes e).yields hs rfl
    rw [he] at hdelete
    have hleft : ∀ x ∈ es, (content t).isStored x := by
      intro x hx
      rw [hcontent, Content.isStored_drop]
      exact ⟨fun heq => hnot (heq ▸ hx), hrest x hx⟩
    obtain ⟨u, hbare, hloop, hu, hdropped⟩ := ih ht hnodup hleft (removed + 1) (log ++ [e])
    have hnoted : delete e (⟨s, none, log⟩ : Disturbed σ) = (.ok true, ⟨t, none, log ++ [e]⟩) :=
      delete_eq hdelete none log
    have hlength : removed + (e :: es).length = removed + 1 + es.length := by
      rw [List.length_cons, Nat.add_right_comm, Nat.add_assoc]
    refine ⟨u, ?_, ?_, hu, by rw [hdropped, hcontent, Content.dropAll_drop]⟩
    · rw [removeAll, remove_eq_delete, Update.bind_apply, hdelete, hlength]
      exact hbare
    · rw [removeAll, remove_eq_delete, Update.bind_apply, hnoted, hlength]
      rw [List.append_assoc] at hloop
      exact hloop

/-- The whole loop: after the first deletion the entity is added, and then the rest goes. -/
theorem removeAll_some (hs : Consistent s) {q m : Entity} {rest : List Entity}
    (hq : q.isPattern = false) (hnodup : (m :: rest).Nodup)
    (hstored : ∀ e ∈ m :: rest, (content s).isStored e) : ∃ before after t,
    delete m s = (.ok true, before) ∧ add q before = (.ok q, after) ∧
    removeAll 0 (m :: rest) (⟨s, some q, []⟩ : Disturbed σ) =
      (.ok (m :: rest).length, ⟨t, none, m :: rest⟩) ∧
    Consistent before ∧ content before = (content s).drop m ∧ Consistent after ∧
    content after = (content before).added (StoreView.policy s) true q ∧ Consistent t ∧
    content t = (content after).dropAll rest := by
  obtain ⟨hnot, hnodup⟩ := List.nodup_cons.1 hnodup
  obtain ⟨hm, hrest⟩ := List.forall_mem_cons.1 hstored
  obtain ⟨before, hdelete, hbefore, -, hpolicy, hdropped⟩ := (delete_realizes m).yields hs rfl
  rw [hm] at hdelete
  obtain ⟨after, hadd, hafter, -, -, hadded⟩ := yields_addWith hbefore hq true
  have hleft : ∀ x ∈ rest, (content after).isStored x := by
    intro x hx
    rw [hadded, Content.isStored_added, hdropped, Content.isStored_drop]
    exact .inr (.inl ⟨fun heq => hnot (heq ▸ hx), hrest x hx⟩)
  obtain ⟨t, -, hloop, ht, hcontent⟩ := removeAll_none hafter hnodup hleft 1 [m]
  refine ⟨before, after, t, hdelete, hadd, ?_, hbefore, hdropped, hafter, hpolicy ▸ hadded, ht,
    hcontent⟩
  have hnoted : delete m (⟨s, some q, []⟩ : Disturbed σ) = (.ok true, ⟨after, none, [m]⟩) := by
    rw [delete_eq hdelete, Update.bind_apply, addPending_of_ok hadd]
    rfl
  have hlength : (m :: rest).length = 1 + rest.length := Nat.add_comm _ _
  rw [removeAll, remove_eq_delete, Update.bind_apply, hnoted, hlength]
  exact hloop

end Disturbed

/-! ## What is found is removed -/

section Found

variable [Hypergraph σ] {s : σ} {p : Pattern}

theorem removeMatching_of_ok {found : Selection} (h : matchPattern s p = .ok found) :
    removeMatching p s = removeAll 0 found.toList s := by
  rw [removeMatching, Update.bind_apply, Update.ask, h]

/-- Before anything is found nothing is removed. -/
theorem removeMatching_of_error {e : Error} (h : matchPattern s p = .error e) :
    removeMatching p s = (.error e, s) := by
  rw [removeMatching, Update.bind_apply, Update.ask, h]

end Found

/-- The two states of a store give the same answers on the entity. -/
structure SameAt [Hypergraph σ] (s t : σ) (e : Entity) : Prop where
  contains : contains s e = contains t e
  isPrimary : isPrimary s e = isPrimary t e
  attributeOf : ∀ key, attributeOf s e key = attributeOf t e key

section SameAt

variable [Hypergraph σ] {s t u : σ} {e : Entity}

theorem SameAt.trans (h : SameAt s t e) (h' : SameAt t u e) : SameAt s u e :=
  ⟨h.contains.trans h'.contains, h.isPrimary.trans h'.isPrimary,
    fun key => (h.attributeOf key).trans (h'.attributeOf key)⟩

variable [LawfulHypergraph σ]

theorem SameAt.of_content (hs : Consistent s) (ht : Consistent t)
    (h : content s e = content t e) : SameAt s t e where
  contains := by rw [contains_eq hs, contains_eq ht, Content.isStored, Content.isStored, h]
  isPrimary := by rw [isPrimary_eq hs, isPrimary_eq ht, Content.isPrimary, Content.isPrimary, h]
  attributeOf key := by
    rw [attributeOf_eq hs, attributeOf_eq ht, Content.attributesOf, Content.attributesOf, h]

/-- An addition touches its entity and what it puts in, and nothing else. -/
theorem SameAt.of_added {q : Entity} {policy : PrimaryPolicy} {isPrimary : Bool}
    (hs : Consistent s) (ht : Consistent t)
    (hcontent : content t = (content s).added policy isPrimary q) (hne : e ≠ q)
    (hsame : Hypergraph.contains s e = Hypergraph.contains t e) : SameAt s t e := by
  refine .of_content hs ht ?_
  have hfill : content t e = (content s).fill q.children e := by
    rw [hcontent, Content.added, Content.put_of_ne hne]
  rw [hfill, Content.fill_of_not_lacks]
  intro hlacks
  have hnew : (content t).isStored e := by
    rw [hcontent, Content.isStored_added]
    exact .inr (.inr hlacks)
  rw [contains_eq hs, contains_eq ht, hnew] at hsame
  exact Content.not_isStored_of_eq_none hlacks.eq_none (Except.ok.inj hsame)

end SameAt

section Lawful

variable [Hypergraph σ] [LawfulHypergraph σ] {s : σ} {p : Pattern}

/-- What is found is stored, each once. -/
theorem found_eq_ok (hs : Consistent s) (p : Pattern) : ∃ found, matchPattern s p = .ok found ∧
    found.toList.Nodup ∧ (∀ e ∈ found.toList, (content s).isStored e) ∧
    ∀ e, e ∈ found.toList ↔ (content s).isStored e ∧ p.finds e := by
  obtain ⟨found, hfound, hlist⟩ := matchPattern_eq_filter hs p
  have hmem : ∀ e, e ∈ found.toList ↔ (content s).isStored e ∧ p.finds e := by
    intro e
    rw [hlist, List.mem_filter, mem_order hs]
  refine ⟨found, hfound, ?_, fun e he => ((hmem e).1 he).1, hmem⟩
  rw [hlist]
  exact (nodup_order hs).filter _

/-- When what is found has gone, nothing is found. -/
theorem removeMatching_again {t : σ} {found : Selection} (ht : Consistent t)
    (hfound : ∀ e, e ∈ found.toList ↔ (content s).isStored e ∧ p.finds e)
    (hcontent : content t = (content s).dropAll found.toList) :
    removeMatching p t = (.ok 0, t) := by
  obtain ⟨left, hleft, -, -, hmem⟩ := found_eq_ok ht p
  have hempty : left.toList = [] := by
    rw [List.eq_nil_iff_forall_not_mem]
    intro e he
    obtain ⟨hstored, hfinds⟩ := (hmem e).1 he
    rw [hcontent, Content.isStored, Content.dropAll] at hstored
    split at hstored
    · cases hstored
    · next hnot => exact hnot ((hfound e).2 ⟨hstored, hfinds⟩)
  rw [removeMatching_of_ok hleft, hempty]
  rfl

/-- Removal that is disturbed by an addition, seen from the outside. -/
theorem removeMatching_disturbed (hs : Consistent s) {found : Selection}
    (hfound : matchPattern s p = .ok found) (hnodup : found.toList.Nodup)
    (hstored : ∀ e ∈ found.toList, (content s).isStored e) {q : Entity}
    (hq : q.isPattern = false) : ∃ d,
    removeMatching p (⟨s, some q, []⟩ : Disturbed σ) = (.ok found.toList.length, d) ∧
    d.deleted = found.toList ∧ (found.toList = [] → d.inner = s) ∧
    ∀ m rest, found.toList = m :: rest → ∃ before after,
      delete m s = (.ok true, before) ∧ add q before = (.ok q, after) ∧
      (∀ e, contains before e = .ok false → contains after e = .ok true →
        contains d.inner e = .ok true) ∧
      (∀ e ∉ found.toList, SameAt before after e → SameAt s d.inner e) ∧
      ∀ e, e ≠ q → contains before e = contains after e → SameAt before after e := by
  rw [removeMatching_of_ok ((Disturbed.matchPattern_eq _ p).trans hfound)]
  cases hlist : found.toList with
  | nil => exact ⟨⟨s, some q, []⟩, rfl, rfl, fun _ => rfl, nofun⟩
  | cons m rest =>
    rw [hlist] at hnodup hstored
    obtain ⟨before, after, t, hdelete, hadd, hloop, hbefore, hdropped, hafter, hadded, ht,
      hcontent⟩ := Disturbed.removeAll_some hs hq hnodup hstored
    refine ⟨⟨t, none, m :: rest⟩, hloop, rfl, nofun, fun m' rest' heq => ?_⟩
    cases heq
    refine ⟨before, after, hdelete, hadd, fun e habsent hnew => ?_, fun e he hsame => ?_,
      fun e => .of_added hbefore hafter hadded⟩
    · -- The rest was there before the addition, so what was absent is not part of it.
      rw [contains_eq hbefore] at habsent
      rw [contains_eq_true_iff hafter] at hnew
      have hnot : e ∉ rest := by
        intro hmem
        have hleft : (content before).isStored e := by
          rw [hdropped, Content.isStored_drop]
          exact ⟨fun heq => (List.nodup_cons.1 hnodup).1 (heq ▸ hmem),
            hstored e (List.mem_cons_of_mem m hmem)⟩
        rw [Except.ok.inj habsent] at hleft
        cases hleft
      rw [contains_eq_true_iff ht, hcontent, Content.isStored, Content.dropAll, if_neg hnot]
      exact hnew
    · obtain ⟨hne, hnot⟩ := not_or.1 (mt List.mem_cons.2 he)
      have hstart : SameAt s before e :=
        .of_content hs hbefore (by rw [hdropped, Content.drop_of_ne hne])
      have hend : SameAt after t e :=
        .of_content hafter ht (by rw [hcontent, Content.dropAll, if_neg hnot])
      exact hstart.trans (hsame.trans hend)

end Lawful

/-- Removal by pattern deletes what the pattern finds at the start, each once and nothing else, and
answers how much that is. What an entity without tokens puts in when it is added during the first
deletion stays, also where it had been found and deleted before, and all that was not found is left
as it was but for what that addition touches. Undisturbed, removal leaves the store without what was
found, and there is nothing left to find. Where nothing can be found nothing is deleted. -/
theorem Store.Reachable.removeMatching_snapshot {s : Store} (hs : s.Reachable) (p : Pattern)
    {q : Entity} (hq : q.isPattern = false) :
    (∃ found, matchPattern s p = .ok found ∧ found.toList.Nodup ∧
      (∃ d, removeMatching p (⟨s, some q, []⟩ : Disturbed Store) =
          (.ok found.toList.length, d) ∧
        d.deleted = found.toList ∧
        (found.toList = [] → d.inner = s) ∧
        ∀ m rest, found.toList = m :: rest → ∃ before after,
          delete m s = (.ok true, before) ∧ add q before = (.ok q, after) ∧
          (∀ e, contains before e = .ok false → contains after e = .ok true →
            contains d.inner e = .ok true) ∧
          (∀ e ∉ found.toList, SameAt before after e → SameAt s d.inner e) ∧
          ∀ e, e ≠ q → contains before e = contains after e → SameAt before after e) ∧
      ∃ t, removeMatching p s = (.ok found.toList.length, t) ∧
        removeMatching p (⟨s, none, []⟩ : Disturbed Store) =
          (.ok found.toList.length, ⟨t, none, found.toList⟩) ∧
        (∀ e ∈ found.toList, contains t e = .ok false) ∧
        (∀ e ∉ found.toList, SameAt s t e) ∧
        removeMatching p t = (.ok 0, t)) ∧
    ∀ {τ : Type} [Hypergraph τ] (u : τ) (e : Error), matchPattern u p = .error e →
      removeMatching p u = (.error e, u) := by
  have hs := hs.consistent
  obtain ⟨found, hfound, hnodup, hstored, hmem⟩ := found_eq_ok hs p
  refine ⟨⟨found, hfound, hnodup, ?_, ?_⟩, fun u e => removeMatching_of_error⟩
  · exact removeMatching_disturbed hs hfound hnodup hstored hq
  · obtain ⟨t, hbare, hloop, ht, hcontent⟩ := Disturbed.removeAll_none hs hnodup hstored 0 []
    rw [Nat.zero_add] at hbare hloop
    refine ⟨t, ?_, ?_, fun e he => ?_, fun e he => ?_, removeMatching_again ht hmem hcontent⟩
    · rw [removeMatching_of_ok hfound, hbare]
    · rw [removeMatching_of_ok ((Disturbed.matchPattern_eq _ p).trans hfound), hloop,
        List.nil_append]
    · rw [contains_eq ht, hcontent, Content.isStored, Content.dropAll, if_pos he]
      rfl
    · refine .of_content hs ht ?_
      rw [hcontent, Content.dropAll, if_neg he]

/-- The addition brings back the edge that has just been deleted. -/
theorem removeMatching_snapshot_readded :
    let a : Entity := .edge [.atom { root := "is" }, .atom { root := "a" }]
    let b : Entity := .edge [.atom { root := "is" }, .atom { root := "b" }]
    let s := Operation.run [.add a, .add b] (Store.empty .file "test" .preserve)
    let q : Entity := .edge [.atom { root := "so" }, a]
    ∃ d, removeMatching .anyEdge (⟨s, some q, []⟩ : Disturbed Store) = (.ok 2, d) ∧
      d.deleted = [a, b] ∧ contains d.inner a = .ok true := by
  intro a b s q
  have hs : s.Reachable := (Store.Reachable.empty .file "test" .preserve).run _
  have hq : q.isPattern = false := by decide
  obtain ⟨⟨found, hfound, -, ⟨d, hremove, hdeleted, -, hcons⟩, -⟩, -⟩ :=
    hs.removeMatching_snapshot .anyEdge hq
  have hlist : found.toList = [a, b] := by
    have hmatch : (matchPattern s .anyEdge).map Selection.toList = .ok [a, b] := by
      decide +kernel
    rw [hfound] at hmatch
    exact Except.ok.inj hmatch
  obtain ⟨before, after, hdelete, hadd, hnew, -, -⟩ := hcons a [b] hlist
  have hbefore : before = (delete a s).2 := by rw [hdelete]
  have hafter : after = (add q (delete a s).2).2 := by rw [← hbefore, hadd]
  have habsent : contains before a = .ok false := by
    rw [hbefore]
    decide +kernel
  have hback : contains after a = .ok true := by
    rw [hafter]
    decide +kernel
  rw [hlist] at hremove hdeleted
  exact ⟨d, hremove, hdeleted, hnew a habsent hback⟩

end SemanticHypergraph
