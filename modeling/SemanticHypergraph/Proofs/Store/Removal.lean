import SemanticHypergraph.Proofs.Store.Lawful
import SemanticHypergraph.Store.Operations

/-!
# Removal of a list of entities

In a lawful store the entities of a list go one after the other, whatever the order, and each one
that was there is counted.
-/
namespace SemanticHypergraph

open SemanticHypergraph.Hypergraph LawfulHypergraph

namespace Content

/-- The content without the entities of a list. -/
def dropAll (c : Content) (es : List Entity) : Content := fun x => if x ∈ es then none else c x

/-- Takes away the entities and adds to `removed` how many of them were there. -/
def removeAll (removed : Nat) (es : List Entity) : Update Content Nat := fun c =>
  (.ok (removed + es.countP c.isStored), c.dropAll es)

theorem dropAll_nil (c : Content) : c.dropAll [] = c := by
  funext x
  simp [dropAll]

theorem dropAll_drop (c : Content) (e : Entity) (es : List Entity) :
    (c.drop e).dropAll es = c.dropAll (e :: es) := by
  funext x
  by_cases hx : x = e
  · subst hx
    simp [dropAll]
  · simp [dropAll, hx]

theorem countP_isStored_drop (c : Content) {e : Entity} {es : List Entity} (h : e ∉ es) :
    es.countP (c.drop e).isStored = es.countP c.isStored := by
  refine List.countP_congr fun x hx => ?_
  have hne : x ≠ e := fun heq => h (heq ▸ hx)
  simp [isStored, drop_of_ne hne]

/-- Removal of different entities, one step at a time. -/
theorem removeAll_cons (removed : Nat) {e : Entity} {es : List Entity} (h : e ∉ es) :
    removeAll removed (e :: es) =
      delete e >>= fun found => removeAll (if found then removed + 1 else removed) es := by
  funext c
  rw [Update.bind_apply]
  simp only [delete, removeAll, dropAll_drop, countP_isStored_drop c h, List.countP_cons]
  cases c.isStored e with
  | false => rfl
  | true =>
    have hcount : removed + (es.countP c.isStored + 1) = removed + 1 + es.countP c.isStored := by
      omega
    simp [hcount]

theorem removeAll_perm (removed : Nat) {es fs : List Entity} (h : es.Perm fs) :
    removeAll removed es = removeAll removed fs := by
  funext c
  have hdrop : c.dropAll es = c.dropAll fs := by
    funext x
    simp only [dropAll, h.mem_iff]
  simp only [removeAll, h.countP_eq, hdrop]

end Content

variable {σ : Type} [Hypergraph σ]

theorem remove_eq_delete (e : Entity) : (remove e : Update σ Bool) = delete e := by
  simp [remove, removeWith]

theorem removeAll_realizes [LawfulHypergraph σ] (removed : Nat) {es : List Entity}
    (h : es.Nodup) :
    Realizes (removeAll removed es : Update σ Nat) fun _ => Content.removeAll removed es := by
  induction es generalizing removed with
  | nil =>
    have hnil : Content.removeAll removed [] = pure removed := by
      funext c
      simp only [Content.removeAll, Content.dropAll_nil]
      rfl
    rw [hnil]
    exact .pure removed
  | cons e es ih =>
    rw [List.nodup_cons] at h
    rw [Content.removeAll_cons removed h.1, removeAll, remove_eq_delete]
    exact (delete_realizes e).bind fun found => ih _ h.2

end SemanticHypergraph
