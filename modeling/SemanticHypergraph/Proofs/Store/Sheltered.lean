import SemanticHypergraph.Proofs.Store.Closure
import SemanticHypergraph.Proofs.Store.DeepRemoval

/-!
# Runs that open no gap

Removal asks nobody whether an edge still holds what goes. As long as only such entities are removed
as no edge holds, and of what is inside them only what is not shared, every stored edge keeps all its
children. Deep removal of what is not shared looks at the store again before each deletion, so it
opens no gap half-way either.
-/
namespace SemanticHypergraph

open SemanticHypergraph.Hypergraph LawfulHypergraph

section Lawful

variable {σ : Type} [Hypergraph σ] {s : σ} {e : Entity}

/-- No stored edge has the entity among its children. -/
def IsUnheld (s : σ) (e : Entity) : Prop := ∀ p, contains s p = .ok true → e ∉ p.children

/-- Of the removals only those are meant that name what no edge holds and spare what is shared; any
other call is. -/
def Operation.Spares (s : σ) : Operation → Prop
  | change (.delete e) | remove e | removeWith e .shallow | removeWith e .deepUnshared =>
    IsUnheld s e
  | removeWith _ .deep | removeMatching _ | removeText _ => False
  | _ => True

variable [LawfulHypergraph σ]

theorem isUnheld_iff (hs : Consistent s) : IsUnheld s e ↔ ∀ p, ¬ (content s).Holds e p := by
  refine forall_congr' fun p => ?_
  rw [contains_eq hs, Content.Holds, not_and]
  simp

/-- An empty star shows that nothing holds the entity. -/
theorem isUnheld_of_star (hs : Consistent s) (h : star s e (some 1) = .ok []) : IsUnheld s e := by
  obtain ⟨found, hfound, hempty⟩ := star_one hs e
  rw [h] at hfound
  exact (isUnheld_iff hs).2 (hempty.1 (Except.ok.inj hfound).symm)

theorem IsWhole.delete (hs : IsWhole s) (he : IsUnheld s e) : IsWhole (delete e s).2 := by
  have hrealizes := delete_realizes (σ := σ) e
  refine ⟨hrealizes.consistent hs.1, ?_⟩
  rw [hrealizes.content hs.1]
  exact hs.2.drop ((isUnheld_iff hs.1).1 he)

/-- Each edge is asked about in the store from which it would go. -/
theorem isWhole_deleteEdges (es : List Entity) :
    Update.Keeps IsWhole (deleteEdges true es : Update σ Unit) := by
  induction es with
  | nil => exact .pure ()
  | cons e es ih =>
    intro s hs
    obtain ⟨found, hfound, -⟩ := star_one hs.1 e
    rw [deleteEdges_cons hfound]
    split
    · next hnone =>
      rw [hnone] at hfound
      exact Update.Keeps.after (hs.delete (isUnheld_of_star hs.1 hfound)) fun _ => ih
    · exact ih s hs

theorem IsWhole.removeWith (hs : IsWhole s) (he : IsUnheld s e) {removal : Removal}
    (h : removal ≠ .deep) : IsWhole (removeWith e removal s).2 := by
  refine Update.Keeps.after (hs.delete he) fun existed => ?_
  cases removal with
  | shallow => exact .pure existed
  | deep => exact absurd rfl h
  | deepUnshared => exact (isWhole_deleteEdges _).bind fun _ => .pure existed

theorem Change.isWhole_perform {c : Change} (hs : IsWhole s) (h : (Operation.change c).Spares s) :
    IsWhole (c.perform s).2 := by
  cases c with
  | insert e isPrimary => exact Update.Keeps.after (isWhole_insert e isPrimary s hs) fun _ => .pure _
  | delete e => exact Update.Keeps.after (hs.delete h) fun _ => .pure _
  | setPrimary e isPrimary => exact Update.Keeps.after (isWhole_setPrimary e isPrimary s hs) fun _ => .pure _
  | setAttribute e name value =>
    exact Update.Keeps.after (isWhole_setAttribute e name value s hs) fun _ => .pure _
  | stepAttribute e name step =>
    exact Update.Keeps.after (isWhole_stepAttribute e name step s hs) fun _ => .pure _
  | destroy => exact Update.Keeps.after (isWhole_destroy s hs) fun _ => .pure _
  | close => exact Update.Keeps.after (isWhole_close s hs) fun _ => .pure _

theorem Operation.isWhole_perform {op : Operation} (hs : IsWhole s) (h : op.Spares s) :
    IsWhole (op.perform s).2 := by
  cases op with
  | ask q => exact hs
  | change c => exact Change.isWhole_perform hs h
  | add e => exact Update.Keeps.after (isWhole_addWith e true s hs) fun _ => .pure _
  | addWith e isPrimary => exact Update.Keeps.after (isWhole_addWith e isPrimary s hs) fun _ => .pure _
  | remove e => exact Update.Keeps.after (hs.removeWith h nofun) fun _ => .pure _
  | removeWith e removal =>
    cases removal with
    | shallow => exact Update.Keeps.after (hs.removeWith h nofun) fun _ => .pure _
    | deep => exact h.elim
    | deepUnshared => exact Update.Keeps.after (hs.removeWith h nofun) fun _ => .pure _
  | removeMatching p => exact h.elim
  | removeText text => exact h.elim
  | restore snapshot => exact Update.Keeps.after (isWhole_restore snapshot s hs) fun _ => .pure _
  | importBytes bs => exact Update.Keeps.after (isWhole_importBytes bs s hs) fun _ => .pure _

end Lawful

namespace Store

/-- The store is reached from a new one, each removal on the way naming what no stored edge held at
that moment and sparing what was shared. A call that failed counts with what it did until then. -/
inductive Sheltered : Store → Prop
  | empty (backend : BackendKind) (name : String) (policy : PrimaryPolicy) :
    Sheltered (.empty backend name policy)
  | perform {s : Store} (op : Operation) : Sheltered s → op.Spares s → Sheltered (op.perform s).2

theorem Sheltered.isWhole {s : Store} (h : s.Sheltered) : IsWhole s := by
  induction h with
  | empty backend name policy => exact isWhole_empty backend name policy
  | perform op _ hspares ih => exact Operation.isWhole_perform ih hspares

/-- On a sheltered run every child of a stored edge is stored after each step, and so is everything
inside a stored entity. -/
theorem Sheltered.children_stored {s : Store} (h : s.Sheltered) :
    ∀ e, contains s e = .ok true → (∀ x ∈ e.children, contains s x = .ok true) ∧
      ∀ x, x.Inside e → contains s x = .ok true := by
  have hs := h.isWhole
  have hstored : ∀ x, contains s x = .ok true ↔ (content s).isStored x := by
    intro x
    rw [contains_eq hs.1]
    simp
  intro e he
  rw [hstored] at he
  refine ⟨fun x hx => (hstored x).2 (hs.2 e he x hx), fun x hx => (hstored x).2 ?_⟩
  exact hs.2.stored_of_inside he hx

/-- An edge that two others share stays, with its children, when one of the two is removed; that a
file could not be read before changes nothing. -/
theorem children_stored_shared :
    let a : Entity := .atom { root := "a" }
    let b : Entity := .atom { root := "b" }
    let shared : Entity := .edge [a, b]
    let s := Operation.run [.add (.edge [a, shared]), .add (.edge [b, shared]), .importBytes []]
      (Store.empty .file "test" .preserve)
    let t := ((Operation.removeWith (.edge [a, shared]) .deepUnshared).perform s).2
    contains t shared = .ok true ∧ contains t a = .ok true := by
  intro a b shared s t
  have hs : s.Sheltered :=
    .perform _ (.perform _ (.perform _ (.empty .file "test" .preserve) trivial) trivial) trivial
  have hunheld : IsUnheld s (.edge [a, shared]) :=
    isUnheld_of_star hs.isWhole.1 (by decide +kernel)
  have ht : t.Sheltered := .perform _ hs hunheld
  obtain ⟨hchildren, hinside⟩ := ht.children_stored (.edge [b, shared]) (by decide +kernel)
  have ha : a.Inside (.edge [b, shared]) :=
    Entity.inside_iff.2 ⟨shared, by decide, .inr (.single (by decide))⟩
  exact ⟨hchildren shared (by decide), hinside a ha⟩

end Store

end SemanticHypergraph
