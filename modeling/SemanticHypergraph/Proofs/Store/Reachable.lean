import SemanticHypergraph.Proofs.Store.Basic
import SemanticHypergraph.Proofs.Store.Refinement
import SemanticHypergraph.Proofs.Store.Run

/-!
# Reachable stores

A store is reached from a new one by operations, and a numbered store also by being opened again
under another name or with another policy. Every reachable store is consistent, and no operation
makes a store one of the other kind.
-/
namespace SemanticHypergraph

section Lawful

variable {σ : Type} [Hypergraph σ] [LawfulHypergraph σ] {s : σ}

theorem Operation.consistent_perform (op : Operation) (hs : Consistent s) :
    Consistent (op.perform s).2 :=
  (op.perform_agrees s s ⟨hs, hs, rfl, rfl, rfl⟩).2.left

theorem Operation.consistent_run (ops : List Operation) (hs : Consistent s) :
    Consistent (Operation.run ops s) := by
  induction ops generalizing s with
  | nil => exact hs
  | cons op ops ih => exact ih (op.consistent_perform hs)

theorem Change.consistent_perform (c : Change) (hs : Consistent s) : Consistent (c.perform s).2 :=
  (Operation.change c).consistent_perform hs

theorem Change.consistent_run (cs : List Change) (hs : Consistent s) :
    Consistent (Change.run cs s) := by
  induction cs generalizing s with
  | nil => exact hs
  | cons c cs ih => exact ih (c.consistent_perform hs)

end Lawful

namespace Store

theorem backend_change (c : Change) (s : Store) : (c.perform s).2.backend = s.backend := by
  cases c <;> cases s <;> simp <;> rfl

theorem backend_run (cs : List Change) (s : Store) : (Change.run cs s).backend = s.backend := by
  induction cs generalizing s with
  | nil => rfl
  | cons c cs ih => exact (ih _).trans (backend_change c s)

theorem backend_perform (op : Operation) (s : Store) : (op.perform s).2.backend = s.backend := by
  obtain ⟨cs, hcs⟩ := op.exists_run s
  rw [hcs, backend_run]

theorem backend_of_byChanges {α : Type} {u : Update Store α} (h : ByChanges u) (s : Store) :
    (u s).2.backend = s.backend := by
  obtain ⟨cs, _, hcs⟩ := h s
  rw [hcs, backend_run]

inductive Reachable : Store → Prop
  | empty (backend : BackendKind) (name : String) (policy : PrimaryPolicy) :
    Reachable (.empty backend name policy)
  | perform {s : Store} (op : Operation) : Reachable s → Reachable (op.perform s).2
  /-- A file keeps neither the name nor the policy. -/
  | reopened {s : NumberedStore} (name : String) (policy : PrimaryPolicy) :
    Reachable (.numbered s) → Reachable (.numbered { s with name := name, policy := policy })

theorem Reachable.run {s : Store} (h : Reachable s) (ops : List Operation) :
    Reachable (Operation.run ops s) := by
  induction ops generalizing s with
  | nil => exact h
  | cons op ops ih => exact ih (h.perform op)

theorem Reachable.consistent {s : Store} (h : Reachable s) : Consistent s := by
  induction h with
  | empty backend name policy => exact consistent_empty backend name policy
  | perform op _ ih => exact op.consistent_perform ih
  | reopened name policy _ ih =>
    have hs : NumberedStore.Consistent _ := ih
    exact ⟨hs.number_lt, hs.number_inj, hs.record_number, hs.child_number, hs.mem_parents,
      hs.mem_roots, hs.attribute_row⟩

end Store

end SemanticHypergraph
