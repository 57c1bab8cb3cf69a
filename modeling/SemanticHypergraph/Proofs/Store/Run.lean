import SemanticHypergraph.Proofs.Store.Keeping
import SemanticHypergraph.Proofs.Store.Operation

/-!
# Runs of changes

What is built on the contract touches a store only through the changes of the contract. So a
property of stores that every change keeps is kept by every operation.
-/
namespace SemanticHypergraph

open SemanticHypergraph.Hypergraph

variable {σ α β : Type} [Hypergraph σ]

/-- The store after some changes, made in order. -/
def Change.run (cs : List Change) (s : σ) : σ := cs.foldl (fun s c => (c.perform s).2) s

/-- The store after some operations, made in order. -/
def Operation.run (ops : List Operation) (s : σ) : σ := ops.foldl (fun s op => (op.perform s).2) s

/-- Whatever the store, the update does to it what some changes do, none of them destruction. -/
def ByChanges (u : Update σ α) : Prop :=
  ∀ s, ∃ cs : List Change, .destroy ∉ cs ∧ (u s).2 = Change.run cs s

theorem Change.run_append (cs ds : List Change) (s : σ) :
    Change.run (cs ++ ds) s = Change.run ds (Change.run cs s) := List.foldl_append

theorem ByChanges.pure (a : α) : ByChanges (pure a : Update σ α) :=
  fun _ => ⟨[], List.not_mem_nil, rfl⟩

theorem ByChanges.throw (e : Error) : ByChanges (throw e : Update σ α) :=
  fun _ => ⟨[], List.not_mem_nil, rfl⟩

theorem ByChanges.ask (q : σ → Except Error α) : ByChanges (Update.ask q) :=
  fun _ => ⟨[], List.not_mem_nil, rfl⟩

theorem ByChanges.bind {u : Update σ α} {f : α → Update σ β} (h : ByChanges u)
    (hf : ∀ a, ByChanges (f a)) : ByChanges (u >>= f) := by
  intro s
  obtain ⟨cs, hcs, hu⟩ := h s
  rw [Update.bind_apply]
  cases (u s).1 with
  | error e => exact ⟨cs, hcs, hu⟩
  | ok a =>
    obtain ⟨ds, hds, hfa⟩ := hf a (u s).2
    refine ⟨cs ++ ds, ?_, ?_⟩
    · rw [List.mem_append]
      exact fun h => h.elim hcs hds
    · rw [Change.run_append, ← hu]
      exact hfa

theorem ByChanges.of_change {u : Update σ α} (c : Change) (hc : c ≠ .destroy)
    (h : ∀ s, (c.perform s).2 = (u s).2) : ByChanges u := by
  intro s
  refine ⟨[c], ?_, (h s).symm⟩
  rw [List.mem_singleton]
  exact hc.symm

section Change

variable (e : Entity) (isPrimary : Bool) (name : String) (value : Value) (step : Step) (s : σ)

@[simp] theorem Change.state_insert :
    ((Change.insert e isPrimary).perform s).2 = (Hypergraph.insert e isPrimary s).2 :=
  Update.state_map _ (fun _ => Answer.done) s

@[simp] theorem Change.state_delete :
    ((Change.delete e).perform s).2 = (Hypergraph.delete e s).2 := Update.state_map _ Answer.flag s

@[simp] theorem Change.state_setPrimary :
    ((Change.setPrimary e isPrimary).perform s).2 = (Hypergraph.setPrimary e isPrimary s).2 :=
  Update.state_map _ (fun _ => Answer.done) s

@[simp] theorem Change.state_setAttribute : ((Change.setAttribute e name value).perform s).2 =
    (Hypergraph.setAttribute e name value s).2 := Update.state_map _ Answer.flag s

@[simp] theorem Change.state_stepAttribute : ((Change.stepAttribute e name step).perform s).2 =
    (Hypergraph.stepAttribute e name step s).2 := Update.state_map _ Answer.value s

@[simp] theorem Change.state_destroy :
    (Change.destroy.perform s).2 = (Hypergraph.destroy s).2 :=
  Update.state_map _ (fun _ => Answer.done) s

@[simp] theorem Change.state_close :
    (Change.close.perform s).2 = (Hypergraph.close s).2 :=
  Update.state_map _ (fun _ => Answer.done) s

end Change

theorem byChanges_insert (e : Entity) (isPrimary : Bool) :
    ByChanges (insert e isPrimary : Update σ Unit) :=
  .of_change (.insert e isPrimary) nofun (Change.state_insert e isPrimary)

theorem byChanges_delete (e : Entity) : ByChanges (delete e : Update σ Bool) :=
  .of_change (.delete e) nofun (Change.state_delete e)

theorem byChanges_setPrimary (e : Entity) (isPrimary : Bool) :
    ByChanges (setPrimary e isPrimary : Update σ Unit) :=
  .of_change (.setPrimary e isPrimary) nofun (Change.state_setPrimary e isPrimary)

theorem byChanges_setAttribute (e : Entity) (name : String) (value : Value) :
    ByChanges (setAttribute e name value : Update σ Bool) :=
  .of_change (.setAttribute e name value) nofun (Change.state_setAttribute e name value)

/-- An update is made of changes if it keeps what can be reached by changes. -/
theorem byChanges_iff_keeps {u : Update σ α} : ByChanges u ↔ ∀ start,
    Update.Keeps (fun s => ∃ cs : List Change, .destroy ∉ cs ∧ s = Change.run cs start) u := by
  constructor
  · rintro h start _ ⟨cs, hcs, rfl⟩
    obtain ⟨ds, hds, hu⟩ := h (Change.run cs start)
    refine ⟨cs ++ ds, ?_, ?_⟩
    · rw [List.mem_append]
      exact fun h => h.elim hcs hds
    · rw [Change.run_append, hu]
  · exact fun h s => h s s ⟨[], List.not_mem_nil, rfl⟩

theorem byChanges_addWith (e : Entity) (isPrimary : Bool) :
    ByChanges (addWith e isPrimary : Update σ Entity) :=
  byChanges_iff_keeps.2 fun start => keeps_addWith
    (fun e isPrimary => byChanges_iff_keeps.1 (byChanges_insert e isPrimary) start) e isPrimary

theorem byChanges_removeWith (e : Entity) (removal : Removal) :
    ByChanges (removeWith e removal : Update σ Bool) :=
  byChanges_iff_keeps.2 fun start => keeps_removeWith
    (fun e => byChanges_iff_keeps.1 (byChanges_delete e) start) e removal

theorem byChanges_removeMatching (p : Pattern) :
    ByChanges (removeMatching p : Update σ Nat) :=
  byChanges_iff_keeps.2 fun start => keeps_removeMatching
    (fun e => byChanges_iff_keeps.1 (byChanges_delete e) start) p

theorem byChanges_removeText (text : String) : ByChanges (removeText text : Update σ Nat) :=
  byChanges_iff_keeps.2 fun start => keeps_removeText
    (fun e => byChanges_iff_keeps.1 (byChanges_delete e) start) text

theorem Snapshot.byChanges_restore (snapshot : Snapshot) :
    ByChanges (snapshot.restore : Update σ Nat) :=
  byChanges_iff_keeps.2 fun start => keeps_restore
    (fun e => byChanges_iff_keeps.1 (byChanges_addWith e false) start)
    (fun e isPrimary => byChanges_iff_keeps.1 (byChanges_setPrimary e isPrimary) start)
    (fun e name value => byChanges_iff_keeps.1 (byChanges_setAttribute e name value) start)
    fun entry _ => byChanges_iff_keeps.1 (byChanges_insert entry.entity entry.isPrimary) start

theorem byChanges_importBytes (bs : List UInt8) :
    ByChanges (importBytes bs : Update σ Nat) := by
  cases hread : Snapshot.ofBytes bs with
  | ok snapshot =>
    rw [importBytes_eq_restore hread]
    exact Snapshot.byChanges_restore snapshot
  | error e =>
    rw [importBytes_eq_throw hread]
    exact .throw e

/-- Every operation leaves the store as some changes do. -/
theorem Operation.exists_run (op : Operation) (s : σ) :
    ∃ cs : List Change, (op.perform s).2 = Change.run cs s := by
  have hrun : ∀ {α : Type} {u : Update σ α} {f : α → Answer}, ByChanges u →
      ∃ cs : List Change, ((do return f (← u) : Update σ Answer) s).2 = Change.run cs s := by
    intro α u f h
    obtain ⟨cs, _, hcs⟩ := h s
    exact ⟨cs, (Update.state_map u f s).trans hcs⟩
  cases op with
  | ask q => exact ⟨[], rfl⟩
  | change c => exact ⟨[c], rfl⟩
  | add e => exact hrun (byChanges_addWith e true)
  | addWith e isPrimary => exact hrun (byChanges_addWith e isPrimary)
  | remove e => exact hrun (byChanges_removeWith e .shallow)
  | removeWith e removal => exact hrun (byChanges_removeWith e removal)
  | removeMatching p => exact hrun (byChanges_removeMatching p)
  | removeText text => exact hrun (byChanges_removeText text)
  | restore snapshot => exact hrun (Snapshot.byChanges_restore snapshot)
  | importBytes bs => exact hrun (byChanges_importBytes bs)

/-- So does every run of operations. -/
theorem Operation.run_eq_run (ops : List Operation) (s : σ) :
    ∃ cs : List Change, Operation.run ops s = Change.run cs s := by
  induction ops generalizing s with
  | nil => exact ⟨[], rfl⟩
  | cons op ops ih =>
    obtain ⟨cs, hcs⟩ := op.exists_run s
    obtain ⟨ds, hds⟩ := ih (op.perform s).2
    refine ⟨cs ++ ds, ?_⟩
    rw [Change.run_append, ← hcs]
    exact hds

end SemanticHypergraph
