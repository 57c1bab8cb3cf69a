import SemanticHypergraph.Proofs.Entity.Containment
import SemanticHypergraph.Proofs.Store.Content

/-!
# Filling in what is absent

To put an edge in, its absent children have to be put in before it, and theirs before them. What that
adds to a content is the least set that contains what is absent of the given entities and the absent
children of its members; a gap below an entity that is stored is left as it is.
-/
namespace SemanticHypergraph.Content

/-- The least set of absent entities that contains those among `es` and the absent children of its
members. -/
inductive Lacks (c : Content) (es : List Entity) : Entity → Prop
  | given {x : Entity} (hx : x ∈ es) (hnone : c x = none) : Lacks c es x
  | child {e x : Entity} (he : Lacks c es e) (hx : x ∈ e.children) (hnone : c x = none) :
      Lacks c es x

open Classical in
/-- The content with what it lacks put in, non-primary and without attributes. -/
noncomputable def fill (c : Content) (es : List Entity) : Content :=
  fun x => if c.Lacks es x then some ⟨false, ∅⟩ else c x

/-- Every child of a stored edge is stored. -/
def IsClosed (c : Content) : Prop := ∀ e, c.isStored e → ∀ x ∈ e.children, c.isStored x

variable {c : Content} {es xs ys : List Entity} {e x : Entity} {r : Record}

theorem isStored_eq_false : c.isStored x = false ↔ c x = none := by
  simp [isStored]

theorem Lacks.eq_none (h : c.Lacks es x) : c x = none := by
  cases h <;> assumption

theorem Lacks.mono (hsub : xs ⊆ ys) (h : c.Lacks xs x) : c.Lacks ys x := by
  induction h with
  | given hx hnone => exact .given (hsub hx) hnone
  | child _ hx hnone ih => exact .child ih hx hnone

theorem Lacks.exists_mem (h : c.Lacks es x) : ∃ e ∈ es, x = e ∨ x.Inside e := by
  induction h with
  | @given x hx hnone => exact ⟨x, hx, .inl rfl⟩
  | @child d x _ hx _ ih =>
    obtain ⟨e, he, heq | hin⟩ := ih
    · exact ⟨e, he, .inr (.single (heq ▸ hx))⟩
    · exact ⟨e, he, .inr (.head hx hin)⟩

theorem Lacks.inside (h : c.Lacks e.children x) : x.Inside e := by
  obtain ⟨d, hd, hx⟩ := h.exists_mem
  exact Entity.inside_iff.2 ⟨d, hd, hx⟩

theorem not_lacks_self : ¬ c.Lacks e.children e := fun h => Entity.not_inside_self e h.inside

theorem fill_of_lacks (h : c.Lacks es x) : c.fill es x = some ⟨false, ∅⟩ := if_pos h

theorem fill_of_not_lacks (h : ¬ c.Lacks es x) : c.fill es x = c x := if_neg h

theorem fill_eq_fill {d : Content} (hlacks : c.Lacks xs x ↔ d.Lacks ys x) (hx : c x = d x) :
    c.fill xs x = d.fill ys x := by
  by_cases h : d.Lacks ys x
  · rw [fill_of_lacks h, fill_of_lacks (hlacks.2 h)]
  · rw [fill_of_not_lacks h, fill_of_not_lacks (mt hlacks.1 h), hx]

theorem fill_of_some (h : c x = some r) : c.fill es x = some r := by
  have hnot : ¬ c.Lacks es x := by
    intro hlacks
    rw [hlacks.eq_none] at h
    cases h
  rw [fill_of_not_lacks hnot, h]

theorem fill_eq_none : c.fill es x = none ↔ c x = none ∧ ¬ c.Lacks es x := by
  by_cases h : c.Lacks es x
  · simp [fill_of_lacks h, h]
  · simp [fill_of_not_lacks h, h]

theorem isStored_fill (h : c.isStored x) : (c.fill es).isStored x := by
  obtain ⟨r, hr⟩ := Option.isSome_iff_exists.1 h
  exact isStored_of_eq_some (fill_of_some hr)

theorem isStored_fill_of_mem (h : x ∈ es) : (c.fill es).isStored x := by
  cases hx : c x with
  | some r => exact isStored_of_eq_some (fill_of_some hx)
  | none => exact isStored_of_eq_some (fill_of_lacks (.given h hx))

theorem isStored_fill_iff_lacks : (c.fill es).isStored x ↔ c.isStored x ∨ c.Lacks es x := by
  by_cases h : c.Lacks es x
  · simp [isStored, fill_of_lacks h, h]
  · simp [isStored, fill_of_not_lacks h, h]

/-- What is new is non-primary and without attributes. -/
theorem fill_of_new (h : (c.fill es).isStored x) (hnot : ¬ c.isStored x) :
    c.fill es x = some ⟨false, ∅⟩ := by
  by_cases hlacks : c.Lacks es x
  · exact fill_of_lacks hlacks
  · rw [isStored, fill_of_not_lacks hlacks] at h
    exact absurd h hnot

theorem fill_self : c.fill e.children e = c e := fill_of_not_lacks not_lacks_self

theorem attributesOf_fill : (c.fill es).attributesOf x = c.attributesOf x := by
  by_cases h : c.Lacks es x
  · simp [attributesOf, fill_of_lacks h, h.eq_none]
  · simp [attributesOf, fill_of_not_lacks h]

theorem fill_nil (c : Content) : c.fill [] = c := by
  funext x
  apply fill_of_not_lacks
  intro h
  obtain ⟨e, he, _⟩ := h.exists_mem
  cases he

theorem fill_congr (h : ∀ x, x ∈ xs ↔ x ∈ ys) : c.fill xs = c.fill ys := by
  funext x
  exact fill_eq_fill ⟨.mono fun y => (h y).1, .mono fun y => (h y).2⟩ rfl

/-- What is lacking of two lists is lacking of the first or still lacking of the second. -/
theorem lacks_append : c.Lacks (xs ++ ys) x ↔ c.Lacks xs x ∨ (c.fill xs).Lacks ys x := by
  constructor
  · intro h
    induction h with
    | @given x hx hnone =>
      by_cases hlacks : c.Lacks xs x
      · exact .inl hlacks
      · rcases List.mem_append.1 hx with hx | hx
        · exact .inl (.given hx hnone)
        · exact .inr (.given hx (fill_eq_none.2 ⟨hnone, hlacks⟩))
    | @child e x _ hx hnone ih =>
      by_cases hlacks : c.Lacks xs x
      · exact .inl hlacks
      · rcases ih with he | he
        · exact .inl (.child he hx hnone)
        · exact .inr (.child he hx (fill_eq_none.2 ⟨hnone, hlacks⟩))
  · rintro (h | h)
    · exact h.mono (List.subset_append_left xs ys)
    · induction h with
      | given hx hnone => exact .given (List.mem_append_right xs hx) (fill_eq_none.1 hnone).1
      | child _ hx hnone ih => exact .child ih hx (fill_eq_none.1 hnone).1

theorem fill_fill (c : Content) (xs ys : List Entity) :
    (c.fill xs).fill ys = c.fill (xs ++ ys) := by
  funext x
  by_cases hx : c.Lacks xs x
  · rw [fill_of_some (fill_of_lacks hx), fill_of_lacks (lacks_append.2 (.inl hx))]
  · by_cases hy : (c.fill xs).Lacks ys x
    · rw [fill_of_lacks hy, fill_of_lacks (lacks_append.2 (.inr hy))]
    · have hnot : ¬ c.Lacks (xs ++ ys) x := by
        rw [lacks_append]
        exact not_or_intro hx hy
      rw [fill_of_not_lacks hy, fill_of_not_lacks hx, fill_of_not_lacks hnot]

theorem fill_singleton_of_some (h : c x = some r) : c.fill [x] = c := by
  funext y
  apply fill_of_not_lacks
  intro hlacks
  induction hlacks with
  | given hy hnone =>
    rw [List.mem_singleton.1 hy, h] at hnone
    cases hnone
  | child _ _ _ ih => exact ih

/-- An absent entity goes in after what it lacks itself. -/
theorem fill_singleton_of_none (h : c e = none) :
    c.fill [e] = (c.fill e.children).put e ⟨false, ∅⟩ := by
  have hlacks : ∀ x, c.Lacks [e] x ↔ x = e ∨ c.Lacks e.children x := by
    intro x
    constructor
    · intro hx
      induction hx with
      | given hx _ => exact .inl (List.mem_singleton.1 hx)
      | child _ hx hnone ih =>
        rcases ih with rfl | hd
        · exact .inr (.given hx hnone)
        · exact .inr (.child hd hx hnone)
    · have hself : c.Lacks [e] e := .given (List.mem_singleton_self e) h
      rintro (rfl | hx)
      · exact hself
      · induction hx with
        | given hx hnone => exact hself.child hx hnone
        | child _ hx hnone ih => exact ih.child hx hnone
  funext x
  by_cases hx : x = e
  · rw [hx, put_self, fill_of_lacks ((hlacks e).2 (.inl rfl))]
  · rw [put_of_ne hx]
    exact fill_eq_fill ((hlacks x).trans (or_iff_right hx)) rfl

/-- A record for an entity whose children are stored closes no gap but that of the entity. -/
theorem fill_put (hchildren : ∀ x ∈ e.children, c.isStored x) (hx : x ≠ e) :
    (c.put e r).fill es x = c.fill es x := by
  refine fill_eq_fill ⟨fun h => ?_, fun h => ?_⟩ (put_of_ne hx)
  · clear hx
    have hnone : ∀ y, c.put e r y = none → c y = none := by
      intro y hy
      rwa [put_of_ne] at hy
      rintro rfl
      rw [put_self] at hy
      cases hy
    induction h with
    | given hy h => exact .given hy (hnone _ h)
    | child _ hy h ih => exact .child ih hy (hnone _ h)
  · induction h with
    | given hy h => exact .given hy (by rwa [put_of_ne hx])
    | @child d y _ hy h ih =>
      -- What is lacking below `e` would be one of its children.
      have hd : d ≠ e := by
        rintro rfl
        exact not_isStored_of_eq_none h (hchildren y hy)
      exact .child (ih hd) hy (by rwa [put_of_ne hx])

/-! ## All gaps below what is stored -/

/-- What is lacking below the stored entities is all that is inside one of them and not stored. -/
theorem lacks_children_iff (hes : ∀ e, c.isStored e → e ∈ es) :
    c.Lacks (es.flatMap Entity.children) x ↔ c x = none ∧ ∃ e ∈ es, x.Inside e := by
  constructor
  · intro h
    obtain ⟨d, hd, hx⟩ := h.exists_mem
    obtain ⟨e, he, hde⟩ := List.mem_flatMap.1 hd
    exact ⟨h.eq_none, e, he, Entity.inside_iff.2 ⟨d, hde, hx⟩⟩
  · rintro ⟨hnone, e, he, hin⟩
    induction hin using Relation.TransGen.head_induction_on with
    | single hx => exact .given (List.mem_flatMap.2 ⟨e, he, hx⟩) hnone
    | @head x d hx _ ih =>
      -- The edge above is stored, or lacking itself.
      cases hd : c d with
      | none => exact .child (ih hd) hx hnone
      | some r =>
        have hmem := hes d (isStored_of_eq_some hd)
        exact .given (List.mem_flatMap.2 ⟨d, hmem, hx⟩) hnone

theorem isStored_fill_iff (hes : ∀ e, e ∈ es ↔ c.isStored e) :
    (c.fill (es.flatMap Entity.children)).isStored x ↔
      c.isStored x ∨ ∃ e, c.isStored e ∧ x.Inside e := by
  have hlacks := lacks_children_iff (x := x) fun e he => (hes e).2 he
  simp only [hes] at hlacks
  rw [isStored_fill_iff_lacks, hlacks, ← isStored_eq_false]
  by_cases hx : c.isStored x
  · simp [hx]
  · simp [Bool.eq_false_iff.2 hx]

/-- The content `d` is `c` with all that is inside its entities; what is new is non-primary and without
attributes. -/
structure Completes (d c : Content) : Prop where
  stored_iff : ∀ x, d.isStored x ↔ c.isStored x ∨ ∃ e, c.isStored e ∧ x.Inside e
  kept : ∀ x, c.isStored x → d x = c x
  new : ∀ x, d.isStored x → ¬ c.isStored x → d x = some ⟨false, ∅⟩

theorem completes_fill (hes : ∀ e, e ∈ es ↔ c.isStored e) :
    (c.fill (es.flatMap Entity.children)).Completes c where
  stored_iff x := isStored_fill_iff hes
  kept x hx := by
    obtain ⟨r, hr⟩ := Option.isSome_iff_exists.1 hx
    rw [hr]
    exact fill_of_some hr
  new x := fill_of_new

theorem IsClosed.stored_of_inside (h : c.IsClosed) (he : c.isStored e) (hx : x.Inside e) :
    c.isStored x := by
  induction hx using Relation.TransGen.head_induction_on with
  | single hx => exact h e he _ hx
  | head hx _ ih => exact h _ ih _ hx

theorem IsClosed.not_lacks (h : c.IsClosed) (hes : ∀ e ∈ es, c.isStored e) :
    ¬ c.Lacks (es.flatMap Entity.children) x := by
  intro hlacks
  obtain ⟨d, hd, hx⟩ := hlacks.exists_mem
  obtain ⟨e, he, hde⟩ := List.mem_flatMap.1 hd
  have hin : x.Inside e := Entity.inside_iff.2 ⟨d, hde, hx⟩
  exact not_isStored_of_eq_none hlacks.eq_none (h.stored_of_inside (hes e he) hin)

theorem isClosed_fill (hes : ∀ e, c.isStored e → e ∈ es) :
    (c.fill (es.flatMap Entity.children)).IsClosed := by
  intro e he x hx
  cases hnone : c x with
  | some r => exact isStored_of_eq_some (fill_of_some hnone)
  | none =>
    apply isStored_of_eq_some (fill_of_lacks _)
    cases hc : c e with
    | some r =>
      exact .given (List.mem_flatMap.2 ⟨e, hes e (isStored_of_eq_some hc), hx⟩) hnone
    | none =>
      by_contra hnot
      have hlacks : ¬ c.Lacks (es.flatMap Entity.children) e := fun h => hnot (h.child hx hnone)
      exact not_isStored_of_eq_none (fill_eq_none.2 ⟨hc, hlacks⟩) he

/-- Nothing is filled in if and only if there is no gap. -/
theorem fill_eq_self_iff (hes : ∀ e, e ∈ es ↔ c.isStored e) :
    c.fill (es.flatMap Entity.children) = c ↔ c.IsClosed := by
  constructor
  · intro h
    rw [← h]
    exact isClosed_fill fun e he => (hes e).2 he
  · intro h
    funext x
    exact fill_of_not_lacks (h.not_lacks fun e he => (hes e).1 he)

end SemanticHypergraph.Content
