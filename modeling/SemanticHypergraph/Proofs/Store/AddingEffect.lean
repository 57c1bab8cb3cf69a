import SemanticHypergraph.Proofs.Store.Adding
import SemanticHypergraph.Proofs.Store.AddingOrder

/-!
# The whole effect of adding

An addition leaves what was stored, the entity and what was lacking below it. Besides the new marks
only that of the entity itself may change, so nothing that is stored is promoted or demoted by an
edge that is added around it. Once an entity is there with everything it lacked, adding it again
finds nothing to put in and a mark that is settled, and leaves the store as it is.
-/
namespace SemanticHypergraph

open SemanticHypergraph.Hypergraph LawfulHypergraph

theorem PrimaryPolicy.resolve_self (policy : PrimaryPolicy) (mark : Bool) :
    policy.resolve mark mark = mark := by
  cases policy
  · exact Bool.or_self mark
  · rfl

theorem PrimaryPolicy.resolve_resolve (policy : PrimaryPolicy) (old mark : Bool) :
    policy.resolve (policy.resolve old mark) mark = policy.resolve old mark := by
  cases policy
  · exact (Bool.or_assoc old mark mark).trans (congrArg (old || ·) (Bool.or_self mark))
  · rfl

/-- Writing what a table says already changes nothing. -/
theorem insert_of_getElem?_eq_some {κ ν : Type} [Ord κ] [Std.TransOrd κ] [Std.LawfulEqOrd κ]
    {t : Std.ExtTreeMap κ ν} {k : κ} {v : ν} (h : t[k]? = some v) : t.insert k v = t := by
  refine Std.ExtTreeMap.ext_getElem? fun {l} => ?_
  rw [Std.ExtTreeMap.getElem?_insert]
  split
  · next heq => rw [← Std.LawfulEqCmp.eq_of_compare heq, h]
  · rfl

namespace Content

variable {c : Content} {e x : Entity}

theorem isPrimary_of_lacks (h : c.Lacks e.children x) (policy : PrimaryPolicy) (mark : Bool) :
    (c.added policy mark e).isPrimary x = false := by
  have hne : x ≠ e := by
    rintro rfl
    exact not_lacks_self h
  rw [isPrimary_added_of_ne hne, Content.isPrimary, h.eq_none]
  rfl

theorem isPrimary_added_self (policy : PrimaryPolicy) (mark : Bool) :
    (c.added policy mark e).isPrimary e =
      if c.isStored e then policy.resolve (c.isPrimary e) mark else mark := by
  rw [Content.isPrimary, added, put_self, addedRecord]
  cases he : c e <;> simp [isStored, Content.isPrimary, he]

/-- The mark of an entity that was added would be resolved to itself. -/
theorem isPrimary_added_settled (policy : PrimaryPolicy) (mark : Bool) :
    policy.resolve ((c.added policy mark e).isPrimary e) mark =
      (c.added policy mark e).isPrimary e := by
  rw [isPrimary_added_self]
  split
  · exact policy.resolve_resolve _ mark
  · exact policy.resolve_self mark

theorem isStored_added_of_mem (hx : x ∈ e.children) (policy : PrimaryPolicy) (mark : Bool) :
    (c.added policy mark e).isStored x := by
  rw [added, isStored_put_iff]
  exact .inr (isStored_fill_of_mem hx)

end Content

/-! ## Where there is nothing to add -/

/-- A stored entity whose mark is settled is not changed by inserting it. -/
theorem OrderedStore.insert_settled {s : OrderedStore} {e : Entity} {mark : Bool}
    (h : s.content.isStored e) (hmark : s.policy.resolve (s.content.isPrimary e) mark =
      s.content.isPrimary e) : s.insert e mark = .ok s := by
  obtain ⟨r, hr⟩ := Option.isSome_iff_exists.1 h
  have hrecord : s.records[e]? = some r := hr
  have hsame : s.policy.resolve r.isPrimary mark = r.isPrimary := by
    simpa [Content.isPrimary, hr] using hmark
  rw [insert, hrecord]
  simp only [hsame, setRecord, insert_of_getElem?_eq_some hrecord]

theorem NumberedStore.insert_settled {s : NumberedStore} (hs : s.Consistent) {e : Entity}
    {mark : Bool} (h : s.content.isStored e)
    (hmark : s.policy.resolve (s.content.isPrimary e) mark = s.content.isPrimary e) :
    s.insert e mark = .ok s := by
  cases hrecord : s.record? e with
  | none => exact absurd h (Content.not_isStored_of_eq_none (content_eq_none hrecord))
  | some r =>
    obtain ⟨n, old⟩ := r
    have hrow : s.records[n]? = some (e, old) := (record_eq_iff hs).1 hrecord
    have hsame : s.policy.resolve old mark = old := by
      simpa [Content.isPrimary, content_of_record hrecord] using hmark
    rw [insert, hrecord]
    simp only [hsame, setRecord, insert_of_getElem?_eq_some hrow]

theorem Store.insert_settled {s : Store} (hs : Consistent s) {e : Entity} {mark : Bool}
    (h : (content s).isStored e)
    (hmark : s.policy.resolve ((content s).isPrimary e) mark = (content s).isPrimary e) :
    insert e mark s = (.ok (), s) := by
  cases s with
  | ordered s =>
    have hinsert := OrderedStore.insert_settled h hmark
    change (let (result, t) := insert e mark s; (result, ordered t)) = _
    simp only [Hypergraph.insert, hinsert]
  | numbered s =>
    have hinsert := NumberedStore.insert_settled hs h hmark
    change (let (result, t) := insert e mark s; (result, numbered t)) = _
    simp only [Hypergraph.insert, hinsert]

theorem addMissingAll_of_stored {σ : Type} [Hypergraph σ] {s : σ} {es : List Entity}
    (h : ∀ x ∈ es, contains s x = .ok true) : addMissingAll es s = (.ok (), s) := by
  induction es with
  | nil => rfl
  | cons x es ih =>
    obtain ⟨hx, hes⟩ := List.forall_mem_cons.1 h
    have hask : (Update.ask (contains · x) : Update σ Bool) s = (.ok true, s) :=
      Prod.ext hx rfl
    rw [addMissingAll, Update.bind_apply, hask]
    exact ih hes

theorem Store.addWith_settled {s : Store} (hs : Consistent s) {e : Entity}
    (he : e.isPattern = false) {mark : Bool} (h : (content s).isStored e)
    (hchildren : ∀ x ∈ e.children, (content s).isStored x)
    (hmark : s.policy.resolve ((content s).isPrimary e) mark = (content s).isPrimary e) :
    addWith e mark s = (.ok e, s) := by
  have hinsert := insert_settled hs h hmark
  have hmissing : addMissing mark e s = (.ok (), s) := by
    cases e with
    | atom a => rw [addMissing, hinsert]
    | edge cs =>
      have hall : addMissingAll cs s = (.ok (), s) :=
        addMissingAll_of_stored fun x hx => (contains_eq_true_iff hs).2 (hchildren x hx)
      rw [addMissing, Update.bind_apply, hall]
      exact hinsert
  unfold addWith
  rw [he]
  change (addMissing mark e >>= fun _ => (pure e : Update Store Entity)) s = (.ok e, s)
  rw [Update.bind_apply, hmissing]
  rfl

/-! ## The effect -/

/-- An entity without pattern tokens can be added to every reachable store. Then just that is stored
which was stored before, the entity, and the least set that contains what is absent of its children
and of the children of its own members. The entity has the mark asked for if it was absent, else the
mark to which the policy resolves; the rest of what is new is non-primary, every other mark and all
attributes are as they were. The same call once more changes nothing at all. -/
theorem Store.Reachable.addWith_effect {s : Store} (hs : s.Reachable) {e : Entity}
    (he : e.isPattern = false) (mark : Bool) :
    ∃ t, addWith e mark s = (.ok e, t) ∧
      (∀ x, contains t x = .ok true ↔
        contains s x = .ok true ∨ x = e ∨ (content s).Lacks e.children x) ∧
      (contains s e = .ok false → isPrimary t e = .ok mark) ∧
      (∀ old, contains s e = .ok true → isPrimary s e = .ok old →
        isPrimary t e = .ok (s.policy.resolve old mark)) ∧
      (∀ x, (content s).Lacks e.children x → isPrimary t x = .ok false) ∧
      (∀ x, x ≠ e → isPrimary t x = isPrimary s x) ∧
      (∀ x key, attributeOf t x key = attributeOf s x key) ∧
      addWith e mark t = (.ok e, t) := by
  have hconsistent := hs.consistent
  obtain ⟨t, hadd, ht, -, hpolicy, hcontent⟩ := yields_addWith hconsistent he mark
  have hself : isPrimary t e =
      .ok (if (content s).isStored e then s.policy.resolve ((content s).isPrimary e) mark
        else mark) := by
    rw [isPrimary_eq ht, hcontent, Content.isPrimary_added_self]
    rfl
  refine ⟨t, hadd, fun x => ?_, fun habsent => ?_, fun old hold hflag => ?_, fun x hx => ?_,
    fun x hx => ?_, fun x key => ?_, ?_⟩
  · rw [contains_eq_true_iff ht, contains_eq_true_iff hconsistent, hcontent, or_left_comm]
    exact Content.isStored_added _ mark
  · rw [contains_eq hconsistent] at habsent
    rw [hself, Except.ok.inj habsent]
    rfl
  · rw [contains_eq hconsistent] at hold
    rw [isPrimary_eq hconsistent] at hflag
    rw [hself, Except.ok.inj hold, Except.ok.inj hflag]
    rfl
  · rw [isPrimary_eq ht, hcontent, Content.isPrimary_of_lacks hx]
  · rw [isPrimary_eq ht, isPrimary_eq hconsistent, hcontent, Content.isPrimary_added_of_ne hx]
  · rw [attributeOf_eq ht, attributeOf_eq hconsistent, hcontent, Content.attributesOf_added]
  · -- Now every child is stored and the mark is settled, so there is nothing to add.
    have hkept : t.policy = s.policy := hpolicy
    apply addWith_settled ht he
    · rw [hcontent]
      exact (Content.isStored_added _ mark).2 (.inl rfl)
    · intro x hx
      rw [hcontent]
      exact Content.isStored_added_of_mem hx _ mark
    · rw [hkept, hcontent]
      exact Content.isPrimary_added_settled _ mark

/-- A stored edge that lacks a child keeps its mark and its gap when another edge is added around it;
what the new edge lacks itself goes in without a mark. -/
theorem addWith_effect_gap :
    let p : Entity := .atom { root := "p" }
    let a : Entity := .atom { root := "a" }
    let b : Entity := .atom { root := "b" }
    let known : Entity := .edge [p, a]
    let s := Operation.run [.add known, .remove a] (Store.empty .file "test" .overwrite)
    let e : Entity := .edge [p, known, .edge [p, b], .edge [p, b]]
    s.Reachable ∧ e.isPattern = false ∧ ∃ t, addWith e false s = (.ok e, t) ∧
      isPrimary t e = .ok false ∧ isPrimary t known = .ok true ∧ contains t a = .ok false ∧
      contains t b = .ok true ∧ isPrimary t b = .ok false ∧ addWith e false t = (.ok e, t) := by
  intro p a b known s e
  have hs : s.Reachable := (Store.Reachable.empty .file "test" .overwrite).run _
  have he : e.isPattern = false := by decide
  obtain ⟨t, hadd, hstored, hnew, -, hlacking, hkept, -, htwice⟩ := hs.addWith_effect he false
  have hedge : (content s).Lacks e.children (.edge [p, b]) :=
    .given (by decide) (by decide +kernel)
  have hb : (content s).Lacks e.children b := hedge.child (by decide) (by decide +kernel)
  refine ⟨hs, he, t, hadd, hnew (by decide +kernel), ?_, ?_, (hstored b).2 (.inr (.inr hb)),
    hlacking b hb, htwice⟩
  · rw [hkept known (by decide)]
    decide +kernel
  · have ht : t = (addWith e false s).2 := by rw [hadd]
    rw [ht]
    decide +kernel

end SemanticHypergraph
