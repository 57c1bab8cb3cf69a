import SemanticHypergraph.Proofs.Store.Basic
import SemanticHypergraph.Proofs.Store.Filling
import SemanticHypergraph.Proofs.Store.Keeping

/-!
# No stored edge without its children

An entity goes in only after its children, so what adds, marks and writes attributes never leaves a
stored edge without one of its children, not even where it stops half-way. Only deletion opens a gap.
-/
namespace SemanticHypergraph

open SemanticHypergraph.Hypergraph

variable {σ α : Type}

namespace Content

variable {c : Content} {e : Entity} {r : Record}

theorem isClosed_empty : empty.IsClosed := by
  intro e he
  cases he

theorem ofStored_isClosed : OfStored IsClosed := by
  intro c d hsame h e he x hx
  rw [← hsame] at he ⊢
  exact h e he x hx

theorem IsClosed.put (h : c.IsClosed) (hchildren : ∀ x ∈ e.children, c.isStored x) :
    (c.put e r).IsClosed := by
  intro d hd x hx
  apply isStored_put_iff.2
  rcases isStored_put_iff.1 hd with rfl | hd
  · exact .inr (hchildren x hx)
  · exact .inr (h d hd x hx)

/-- What no edge holds can go. -/
theorem IsClosed.drop (h : c.IsClosed) (hunheld : ∀ p, ¬ c.Holds e p) : (c.drop e).IsClosed := by
  intro d hd x hx
  have hstored := (isStored_drop.1 hd).2
  refine isStored_drop.2 ⟨?_, h d hstored x hx⟩
  rintro rfl
  exact hunheld d ⟨hstored, hx⟩

theorem keeps_insert (e : Entity) (isPrimary : Bool) (policy : PrimaryPolicy) :
    Update.Keeps IsClosed (insert e isPrimary policy) :=
  keeps_insert_of_put ofStored_isClosed fun _ _ h hchildren => h.put hchildren

theorem keeps_destroy : Update.Keeps IsClosed destroy := fun _ _ => isClosed_empty

end Content

section Lawful

variable [Hypergraph σ]

/-- The store is consistent and no stored edge lacks a child. -/
def IsWhole [StoreView σ] (s : σ) : Prop := Consistent s ∧ (content s).IsClosed

variable [LawfulHypergraph σ]

open LawfulHypergraph

theorem isWhole_insert (e : Entity) (isPrimary : Bool) :
    Update.Keeps IsWhole (insert e isPrimary : Update σ Unit) :=
  (insert_realizes e isPrimary).keeps (Content.keeps_insert e isPrimary)

theorem isWhole_setPrimary (e : Entity) (isPrimary : Bool) :
    Update.Keeps IsWhole (setPrimary e isPrimary : Update σ Unit) :=
  Content.ofStored_isClosed.setPrimary e isPrimary

theorem isWhole_setAttribute (e : Entity) (name : String) (value : Value) :
    Update.Keeps IsWhole (setAttribute e name value : Update σ Bool) :=
  Content.ofStored_isClosed.setAttribute e name value

theorem isWhole_stepAttribute (e : Entity) (name : String) (step : Step) :
    Update.Keeps IsWhole (stepAttribute e name step : Update σ (Option Value)) :=
  Content.ofStored_isClosed.stepAttribute e name step

theorem isWhole_destroy : Update.Keeps IsWhole (destroy : Update σ Unit) :=
  destroy_realizes.keeps fun _ => Content.keeps_destroy

theorem isWhole_close : Update.Keeps IsWhole (close : Update σ Unit) := keeps_close

theorem isWhole_addWith (e : Entity) (isPrimary : Bool) :
    Update.Keeps IsWhole (addWith e isPrimary : Update σ Entity) :=
  keeps_addWith isWhole_insert e isPrimary

theorem isWhole_restore (snapshot : Snapshot) :
    Update.Keeps IsWhole (snapshot.restore : Update σ Nat) :=
  keeps_restore (fun e => isWhole_addWith e false) isWhole_setPrimary isWhole_setAttribute
    fun entry _ => isWhole_insert entry.entity entry.isPrimary

/-- A file that cannot be imported to its end leaves no gap either. -/
theorem isWhole_importBytes (bs : List UInt8) :
    Update.Keeps IsWhole (importBytes bs : Update σ Nat) :=
  keeps_importBytes (fun e => isWhole_addWith e false) isWhole_setPrimary isWhole_setAttribute
    fun _ _ entry _ => isWhole_insert entry.entity entry.isPrimary

end Lawful

theorem Store.isWhole_empty (backend : BackendKind) (name : String) (policy : PrimaryPolicy) :
    IsWhole (Store.empty backend name policy) := by
  refine ⟨consistent_empty backend name policy, ?_⟩
  rw [content_empty]
  exact Content.isClosed_empty

end SemanticHypergraph
