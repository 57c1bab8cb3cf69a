import SemanticHypergraph.Proofs.Store.Refinement
import SemanticHypergraph.Proofs.Store.Run

/-!
# Recording

What an operation does to a store it does by calls of the contract. A store that notes these calls
is as lawful as the store in it, so the same operations leave it with the same content, and the
record tells of any run which changes were made and in which order.
-/
namespace SemanticHypergraph

open SemanticHypergraph.Hypergraph LawfulHypergraph

variable {σ α : Type}

/-- A store with all changes that were asked of it, in order. -/
structure Recorded (σ : Type) where
  inner : σ
  record : List Change

namespace Recorded

/-- Carries out an update of the inner store as the change `c`. -/
def lift (c : Change) (u : Update σ α) : Update (Recorded σ) α := fun r =>
  ((u r.inner).1, ⟨(u r.inner).2, r.record ++ [c]⟩)

variable [Hypergraph σ]

instance : Hypergraph (Recorded σ) where
  name r := name r.inner
  contains r e := contains r.inner e
  insert e isPrimary := lift (.insert e isPrimary) (insert e isPrimary)
  delete e := lift (.delete e) (delete e)
  isPrimary r e := isPrimary r.inner e
  setPrimary e isPrimary := lift (.setPrimary e isPrimary) (setPrimary e isPrimary)
  entities r := entities r.inner
  attributeOf r e name := attributeOf r.inner e name
  setAttribute e name value := lift (.setAttribute e name value) (setAttribute e name value)
  stepAttribute e name step := lift (.stepAttribute e name step) (stepAttribute e name step)
  degree r e := degree r.inner e
  star r e limit := star r.inner e limit
  counts r := counts r.inner
  destroy := lift .destroy destroy
  close := lift .close close
  deepDegree r e := deepDegree r.inner e
  lookupRoot r root := lookupRoot r.inner root
  lookupAtoms r atoms root := lookupAtoms r.inner atoms root
  search r template := search r.inner template
  attributes r := attributes r.inner

/-- The step: a change is made in the inner store and noted. -/
theorem state_perform (c : Change) (s : σ) (record : List Change) :
    (c.perform (⟨s, record⟩ : Recorded σ)).2 = ⟨(c.perform s).2, record ++ [c]⟩ := by
  cases c <;> simp <;> rfl

/-- The run, by induction on the changes. -/
theorem run_changes (cs : List Change) (s : σ) (record : List Change) :
    Change.run cs (⟨s, record⟩ : Recorded σ) = ⟨Change.run cs s, record ++ cs⟩ := by
  induction cs generalizing s record with
  | nil => rw [List.append_nil]; rfl
  | cons c cs ih =>
    rw [Change.run, List.foldl_cons, state_perform]
    exact (ih _ _).trans (by rw [List.append_assoc]; rfl)

/-- The record leads from the first store to the last. -/
theorem run_record (ops : List Operation) (s : σ) :
    let r := Operation.run ops (⟨s, []⟩ : Recorded σ)
    r.inner = Change.run r.record s := by
  intro r
  obtain ⟨cs, hcs⟩ := Operation.run_eq_run ops (⟨s, []⟩ : Recorded σ)
  have hr : r = ⟨Change.run cs s, [] ++ cs⟩ := hcs.trans (run_changes cs s [])
  rw [hr, List.nil_append]

instance [StoreView σ] : StoreView (Recorded σ) where
  Consistent r := Consistent r.inner
  policy r := StoreView.policy r.inner
  content r := content r.inner
  order r := order r.inner

theorem realizes_lift [StoreView σ] (c : Change) {u : Update σ α}
    {v : PrimaryPolicy → Update Content α} (h : Realizes u v) : Realizes (lift c u) v where
  consistent hr := h.consistent hr
  name hr := h.name hr
  policy hr := h.policy hr
  result hr := h.result hr
  content hr := h.content hr

instance [LawfulHypergraph σ] : LawfulHypergraph (Recorded σ) where
  nodup_order hr := nodup_order (σ := σ) hr
  mem_order hr := mem_order (σ := σ) hr
  contains_eq hr e := contains_eq (σ := σ) hr e
  isPrimary_eq hr e := isPrimary_eq (σ := σ) hr e
  entities_eq hr := entities_eq (σ := σ) hr
  attributeOf_eq hr e name := attributeOf_eq (σ := σ) hr e name
  degree_eq hr e := degree_eq (σ := σ) hr e
  star_eq hr e := star_eq (σ := σ) hr e
  star_some_eq hr e n := star_some_eq (σ := σ) hr e n
  counts_eq hr := counts_eq (σ := σ) hr
  deepDegree_eq hr e := deepDegree_eq (σ := σ) hr e
  lookupRoot_eq hr root := lookupRoot_eq (σ := σ) hr root
  lookupAtoms_eq hr atoms root := lookupAtoms_eq (σ := σ) hr atoms root
  search_eq hr template := search_eq (σ := σ) hr template
  attributes_eq hr := attributes_eq (σ := σ) hr
  insert_realizes e isPrimary := realizes_lift _ (insert_realizes e isPrimary)
  delete_realizes e := realizes_lift _ (delete_realizes e)
  setPrimary_realizes e isPrimary := realizes_lift _ (setPrimary_realizes e isPrimary)
  setAttribute_realizes e name value := realizes_lift _ (setAttribute_realizes e name value)
  stepAttribute_realizes e name step := realizes_lift _ (stepAttribute_realizes e name step)
  destroy_realizes := realizes_lift _ destroy_realizes
  close_realizes := realizes_lift _ close_realizes

end Recorded

section Lawful

variable {τ : Type} [Hypergraph σ] [LawfulHypergraph σ] [Hypergraph τ] [LawfulHypergraph τ]

/-- Alike stores stay alike through every run. -/
theorem Alike.run {s : σ} {t : τ} (h : Alike s t) (ops : List Operation) :
    Alike (Operation.run ops s) (Operation.run ops t) := by
  induction ops generalizing s t with
  | nil => exact h
  | cons op ops ih => exact ih (op.perform_agrees s t h).2

/-- Recording does not show, so the recorded changes lead where the operations do. -/
theorem Recorded.alike_run {s : σ} (hs : Consistent s) (ops : List Operation) :
    Alike (Operation.run ops s)
      (Change.run (Operation.run ops (⟨s, []⟩ : Recorded σ)).record s) := by
  have hstart : Alike s (⟨s, []⟩ : Recorded σ) := ⟨hs, hs, rfl, rfl, rfl⟩
  obtain ⟨hleft, hright, hname, hpolicy, hcontent⟩ := hstart.run ops
  rw [← Recorded.run_record ops s]
  exact ⟨hleft, hright, hname, hpolicy, hcontent⟩

end Lawful

end SemanticHypergraph
