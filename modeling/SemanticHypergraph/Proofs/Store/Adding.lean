import SemanticHypergraph.Proofs.Store.Reachable
import SemanticHypergraph.Proofs.Store.Restoring

/-!
# What is inside an entity after it was added

Adding goes down from an entity through what is absent and turns back at every child that is stored.
So it closes just those gaps to which a way leads down through gaps alone. A gap below a child that
was stored stays open, unless another way leads to it.
-/
namespace SemanticHypergraph

open SemanticHypergraph.Hypergraph LawfulHypergraph

namespace Content

variable {c : Content} {e x : Entity}

theorem isStored_added (policy : PrimaryPolicy) (isPrimary : Bool) :
    (c.added policy isPrimary e).isStored x ↔ x = e ∨ c.isStored x ∨ c.Lacks e.children x := by
  rw [added, isStored_put_iff, isStored_fill_iff_lacks]

/-- A way leads down through gaps to every gap inside an entity if no stored entity inside it lacks
a child. -/
theorem lacks_of_inside (h : ∀ d, d.Inside e → c.isStored d → ∀ y ∈ d.children, c.isStored y)
    (hx : x.Inside e) (hnone : c x = none) : c.Lacks e.children x := by
  induction hx using Relation.TransGen.head_induction_on with
  | single hx => exact .given hx hnone
  | @head x d hx hd ih =>
    cases hd' : c d with
    | none => exact (ih hd').child hx hnone
    | some r =>
      exact absurd (h d hd (isStored_of_eq_some hd') x hx) (not_isStored_of_eq_none hnone)

end Content

/-- An entity without pattern tokens can be added to every reachable store. It is stored then, and
of what is inside it, besides what was stored before, just that to which a way leads down from it
through absent entities alone; so everything, if no stored entity inside it lacked a child. -/
theorem Store.Reachable.addWith_inside {s : Store} (hs : s.Reachable) {e : Entity}
    (he : e.isPattern = false) (isPrimary : Bool) :
    ∃ t, addWith e isPrimary s = (.ok e, t) ∧ contains t e = .ok true ∧
      (∀ x, x.Inside e → (contains t x = .ok true ↔
        contains s x = .ok true ∨ (content s).Lacks e.children x)) ∧
      ((∀ d, d.Inside e → contains s d = .ok true →
          ∀ y ∈ d.children, contains s y = .ok true) →
        ∀ x, x.Inside e → contains t x = .ok true) := by
  obtain ⟨t, hadd, ht, -, -, hcontent⟩ := yields_addWith hs.consistent he isPrimary
  have hstored : ∀ x, contains t x = .ok true ↔
      x = e ∨ contains s x = .ok true ∨ (content s).Lacks e.children x := by
    intro x
    rw [contains_eq_true_iff ht, contains_eq_true_iff hs.consistent, hcontent]
    exact Content.isStored_added _ isPrimary
  refine ⟨t, hadd, (hstored e).2 (.inl rfl), fun x hx => ?_, fun hclosed x hx => ?_⟩
  · have hne : x ≠ e := by
      rintro rfl
      exact Entity.not_inside_self x hx
    rw [hstored, or_iff_right hne]
  · rw [hstored]
    right
    simp only [contains_eq_true_iff hs.consistent] at hclosed ⊢
    cases hnone : content s x with
    | some r => exact .inl (Content.isStored_of_eq_some hnone)
    | none => exact .inr (Content.lacks_of_inside hclosed hx hnone)

/-- What an edge lacks is put in although the edge stays as it is, if it is also wanted elsewhere.
-/
theorem addWith_inside_twice :
    let a : Entity := .atom { root := "a" }
    let known : Entity := .edge [.atom { root := "q" }, a]
    let s := Operation.run [.add (.edge [.atom { root := "p" }, known]), .remove a]
      (Store.empty .file "test" .overwrite)
    let e : Entity := .edge [known, a]
    contains s a = .ok false ∧ ∃ t, addWith e true s = (.ok e, t) ∧ contains t a = .ok true := by
  intro a known s e
  have hs : s.Reachable := (Store.Reachable.empty .file "test" .overwrite).run _
  obtain ⟨t, hadd, -, hinside, -⟩ := hs.addWith_inside (e := e) (by decide) true
  have hmem : a ∈ e.children := by decide
  have hlacks : (content s).Lacks e.children a := .given hmem (by decide +kernel)
  exact ⟨by decide +kernel, t, hadd, (hinside a (.single hmem)).2 (.inr hlacks)⟩

/-- What an edge lacks is not put in with another edge around it. -/
theorem addWith_inside_gap :
    let a : Entity := .atom { root := "a" }
    let known : Entity := .edge [.atom { root := "q" }, a]
    let s := Operation.run [.add (.edge [.atom { root := "p" }, known]), .remove a]
      (Store.empty .memory "test" .preserve)
    let e : Entity := .edge [.atom { root := "r" }, known]
    s.Reachable ∧ e.isPattern = false ∧ a.Inside e ∧
      ∃ t, addWith e true s = (.ok e, t) ∧ contains t a = .ok false := by
  intro a known s e
  have hs : s.Reachable := (Store.Reachable.empty .memory "test" .preserve).run _
  have hinside : a.Inside e :=
    Entity.inside_iff.2 ⟨known, by decide, .inr (.single (by decide))⟩
  have hresult : (addWith e true s).1 = .ok e := by decide +kernel
  refine ⟨hs, by decide, hinside, (addWith e true s).2, Prod.ext hresult rfl, ?_⟩
  decide +kernel

end SemanticHypergraph
