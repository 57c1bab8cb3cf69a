import SemanticHypergraph.Proofs.Store.Lawful
import SemanticHypergraph.Store.Transfer

/-!
# What the operations keep

An operation touches a store only through the changes of the contract. So a property that the changes
keep, whether they succeed or fail, is kept by every operation that is built of them, also where it
stops half-way.
-/
namespace SemanticHypergraph

open SemanticHypergraph.Hypergraph LawfulHypergraph

variable {σ α β : Type}

/-- Whether the update succeeds or fails, the property is kept. -/
def Update.Keeps (P : σ → Prop) (u : Update σ α) : Prop := ∀ s, P s → P (u s).2

variable {P : σ → Prop}

theorem Update.Keeps.pure (a : α) : Update.Keeps P (pure a) := fun _ hs => hs

theorem Update.Keeps.throw (e : Error) : Update.Keeps P (throw e : Update σ α) := fun _ hs => hs

theorem Update.Keeps.ask (q : σ → Except Error α) : Update.Keeps P (Update.ask q) := fun _ hs => hs

/-- What holds after the first of two updates still holds after the second if that keeps it. -/
theorem Update.Keeps.after {u : Update σ α} {f : α → Update σ β} {s : σ} (h : P (u s).2)
    (hf : ∀ a, Update.Keeps P (f a)) : P ((u >>= f) s).2 := by
  rw [Update.bind_apply]
  cases (u s).1 with
  | error e => exact h
  | ok a => exact hf a _ h

theorem Update.Keeps.bind {u : Update σ α} {f : α → Update σ β} (h : Update.Keeps P u)
    (hf : ∀ a, Update.Keeps P (f a)) : Update.Keeps P (u >>= f) :=
  fun s hs => Update.Keeps.after (h s hs) hf

/-- An update that depends on the present state is looked at in that state. -/
theorem Update.Keeps.ask_bind {q : σ → Except Error α} {f : α → Update σ β}
    (h : ∀ s a, P s → q s = .ok a → P (f a s).2) : Update.Keeps P (Update.ask q >>= f) := by
  intro s hs
  rw [Update.bind_apply, Update.ask]
  cases hq : q s with
  | error e => exact hs
  | ok a => exact h s a hs hq

namespace Content

/-- The property looks at nothing but what is stored. -/
def OfStored (P : Content → Prop) : Prop := ∀ c d : Content, c.isStored = d.isStored → P c → P d

theorem isStored_put {c : Content} {e : Entity} {r : Record} (h : c.isStored e) :
    (c.put e r).isStored = c.isStored := by
  funext x
  rw [Bool.eq_iff_iff, isStored_put_iff]
  refine or_iff_right_of_imp ?_
  rintro rfl
  exact h

section OfStored

variable {P : Content → Prop} (hP : OfStored P) {c : Content} {e : Entity} {r r' : Record}
include hP

/-- A stored entity can be given another record. -/
theorem OfStored.put (h : P c) (he : c e = some r') : P (c.put e r) :=
  hP _ _ (isStored_put (isStored_of_eq_some he)).symm h

theorem keeps_setPrimary (e : Entity) (isPrimary : Bool) :
    Update.Keeps P (setPrimary e isPrimary) := by
  intro c h
  cases he : c e with
  | some r =>
    rw [setPrimary_of_some he]
    exact hP.put h he
  | none =>
    rw [setPrimary_of_none he]
    exact h

theorem keeps_setAttribute (e : Entity) (name : String) (value : Value) :
    Update.Keeps P (setAttribute e name value) := by
  intro c h
  cases he : c e with
  | some r =>
    rw [setAttribute_of_some he]
    exact hP.put h he
  | none =>
    rw [setAttribute_of_none he]
    exact h

theorem keeps_stepAttribute (e : Entity) (name : String) (step : Step) :
    Update.Keeps P (stepAttribute e name step) := by
  intro c h
  cases he : c e with
  | none =>
    rw [stepAttribute_of_none he]
    exact h
  | some r =>
    cases hvalue : Value.stepped r.attributes[name]? name step with
    | ok value =>
      rw [stepAttribute_of_ok he hvalue]
      exact hP.put h he
    | error error =>
      rw [stepAttribute_of_error he hvalue]
      exact h

/-- Inserting writes only records of entities whose children are stored. -/
theorem keeps_insert_of_put {isPrimary : Bool} {policy : PrimaryPolicy}
    (hput : ∀ c r, P c → (∀ x ∈ e.children, c.isStored x) → P (c.put e r)) :
    Update.Keeps P (insert e isPrimary policy) := by
  intro c h
  cases he : c e with
  | some r =>
    rw [insert_of_some he]
    exact hP.put h he
  | none =>
    -- Where a child is missing nothing is inserted.
    cases hmissing : c.missingChild? e with
    | some child =>
      rw [insert_of_missing he hmissing]
      exact h
    | none =>
      rw [insert_of_none he hmissing]
      exact hput c _ h (missingChild?_eq_none.1 hmissing)

end OfStored

end Content

/-- The store is consistent and its content has the property. -/
def Has [StoreView σ] (P : Content → Prop) (s : σ) : Prop := Consistent s ∧ P (content s)

variable [Hypergraph σ]

/-- What an update keeps of contents, the update that realizes it keeps of consistent stores. -/
theorem Realizes.keeps [StoreView σ] {P : Content → Prop} {u : Update σ α}
    {v : PrimaryPolicy → Update Content α} (h : Realizes u v)
    (hv : ∀ policy, Update.Keeps P (v policy)) : Update.Keeps (Has P) u := by
  rintro s ⟨hs, hP⟩
  refine ⟨h.consistent hs, ?_⟩
  rw [h.content hs]
  exact hv _ _ hP

section Lawful

variable [LawfulHypergraph σ] {P : Content → Prop}

theorem keeps_close : Update.Keeps (Has P) (close : Update σ Unit) :=
  close_realizes.keeps fun _ => .pure ()

namespace Content.OfStored

variable (hP : OfStored P)
include hP

theorem setPrimary (e : Entity) (isPrimary : Bool) :
    Update.Keeps (Has P) (Hypergraph.setPrimary e isPrimary : Update σ Unit) :=
  (setPrimary_realizes e isPrimary).keeps fun _ => keeps_setPrimary hP e isPrimary

theorem setAttribute (e : Entity) (name : String) (value : Value) :
    Update.Keeps (Has P) (Hypergraph.setAttribute e name value : Update σ Bool) :=
  (setAttribute_realizes e name value).keeps fun _ => keeps_setAttribute hP e name value

theorem stepAttribute (e : Entity) (name : String) (step : Step) :
    Update.Keeps (Has P) (Hypergraph.stepAttribute e name step : Update σ (Option Value)) :=
  (stepAttribute_realizes e name step).keeps fun _ => keeps_stepAttribute hP e name step

end Content.OfStored

end Lawful

mutual

theorem keeps_addMissing
    (hinsert : ∀ e isPrimary, Update.Keeps P (insert e isPrimary : Update σ Unit))
    (isPrimary : Bool) : (e : Entity) → Update.Keeps P (addMissing isPrimary e)
  | .atom a => by
    rw [addMissing]
    exact hinsert (.atom a) isPrimary
  | .edge cs => by
    rw [addMissing]
    exact (keeps_addMissingAll hinsert cs).bind fun _ => hinsert (.edge cs) isPrimary

theorem keeps_addMissingAll
    (hinsert : ∀ e isPrimary, Update.Keeps P (insert e isPrimary : Update σ Unit)) :
    (es : List Entity) → Update.Keeps P (addMissingAll es)
  | [] => .pure ()
  | c :: cs => by
    rw [addMissingAll]
    refine (Update.Keeps.ask _).bind fun found => ?_
    cases found with
    | true => exact keeps_addMissingAll hinsert cs
    | false =>
      exact (keeps_addMissing hinsert false c).bind fun _ => keeps_addMissingAll hinsert cs

end

theorem keeps_addWith
    (hinsert : ∀ e isPrimary, Update.Keeps P (insert e isPrimary : Update σ Unit))
    (e : Entity) (isPrimary : Bool) : Update.Keeps P (addWith e isPrimary : Update σ Entity) := by
  unfold addWith
  split
  · exact .throw _
  · exact (keeps_addMissing hinsert isPrimary e).bind fun _ => .pure e

section Removing

variable (hdelete : ∀ e, Update.Keeps P (delete e : Update σ Bool))
include hdelete

theorem keeps_deleteEdges (keepShared : Bool) (es : List Entity) :
    Update.Keeps P (deleteEdges keepShared es) := by
  induction es with
  | nil => exact .pure ()
  | cons e es ih =>
    have hrest : Update.Keeps P ((delete e : Update σ Bool) >>= fun _ => deleteEdges keepShared es) :=
      (hdelete e).bind fun _ => ih
    cases keepShared with
    | false => exact hrest
    | true =>
      refine (Update.Keeps.ask _).bind fun shared => ?_
      cases shared with
      | true => exact ih
      | false => exact hrest

theorem keeps_removeWith (e : Entity) (removal : Removal) :
    Update.Keeps P (removeWith e removal : Update σ Bool) := by
  refine (hdelete e).bind fun existed => ?_
  cases removal with
  | shallow => exact .pure existed
  | deep => exact (keeps_deleteEdges hdelete false _).bind fun _ => .pure existed
  | deepUnshared => exact (keeps_deleteEdges hdelete true _).bind fun _ => .pure existed

theorem keeps_removeAll (removed : Nat) (es : List Entity) :
    Update.Keeps P (removeAll removed es : Update σ Nat) := by
  induction es generalizing removed with
  | nil => exact .pure removed
  | cons e es ih => exact (keeps_removeWith hdelete e .shallow).bind fun found => ih _

theorem keeps_removeMatching (p : Pattern) : Update.Keeps P (removeMatching p : Update σ Nat) :=
  (Update.Keeps.ask _).bind fun found => keeps_removeAll hdelete 0 found.toList

theorem keeps_removeText (text : String) : Update.Keeps P (removeText text : Update σ Nat) := by
  unfold removeText
  cases Pattern.parse text with
  | ok p => exact keeps_removeMatching hdelete p
  | error e => exact .throw e

end Removing

section Restoring

variable (hadd : ∀ e, Update.Keeps P (addWith e false : Update σ Entity))
  (hmark : ∀ e isPrimary, Update.Keeps P (setPrimary e isPrimary : Update σ Unit))
  (hattribute : ∀ e name value, Update.Keeps P (setAttribute e name value : Update σ Bool))

include hadd in
theorem keeps_addChildren (cs : List Entity) : Update.Keeps P (Snapshot.addChildren cs) := by
  induction cs with
  | nil => exact .pure ()
  | cons c cs ih =>
    refine (Update.Keeps.ask _).bind fun found => ?_
    cases found with
    | true => exact ih
    | false => exact (hadd c).bind fun _ => ih

include hattribute in
theorem keeps_setAttributes (e : Entity) (rows : List (String × Value)) :
    Update.Keeps P (Snapshot.setAttributes e rows) := by
  induction rows with
  | nil => exact .pure ()
  | cons row rows ih => exact (hattribute e row.1 row.2).bind fun _ => ih

include hadd hmark hattribute

theorem keeps_restoreEntry {entry : Snapshot.Entry}
    (hinsert : Update.Keeps P (insert entry.entity entry.isPrimary : Update σ Unit)) :
    Update.Keeps P (Snapshot.restoreEntry entry) := by
  refine (keeps_addChildren hadd entry.entity.children).bind fun _ => ?_
  refine hinsert.bind fun _ => ?_
  refine (hmark entry.entity entry.isPrimary).bind fun _ => ?_
  exact keeps_setAttributes hattribute entry.entity entry.attributes.toList

theorem keeps_restoreEntries {entries : List Snapshot.Entry}
    (hinsert : ∀ entry ∈ entries,
      Update.Keeps P (insert entry.entity entry.isPrimary : Update σ Unit)) :
    Update.Keeps P (Snapshot.restoreEntries entries) := by
  induction entries with
  | nil => exact .pure ()
  | cons entry entries ih =>
    obtain ⟨hhead, htail⟩ := List.forall_mem_cons.1 hinsert
    exact (keeps_restoreEntry hadd hmark hattribute hhead).bind fun _ => ih htail

theorem keeps_restore {snapshot : Snapshot}
    (hinsert : ∀ entry ∈ snapshot.entries,
      Update.Keeps P (insert entry.entity entry.isPrimary : Update σ Unit)) :
    Update.Keeps P (snapshot.restore : Update σ Nat) := by
  refine (keeps_restoreEntries hadd hmark hattribute fun entry hentry => ?_).bind fun _ => .pure _
  exact hinsert entry (List.mem_mergeSort.1 hentry)

theorem keeps_importBytes {bs : List UInt8}
    (hinsert : ∀ snapshot, Snapshot.ofBytes bs = .ok snapshot → ∀ entry ∈ snapshot.entries,
      Update.Keeps P (insert entry.entity entry.isPrimary : Update σ Unit)) :
    Update.Keeps P (importBytes bs : Update σ Nat) := by
  cases hread : Snapshot.ofBytes bs with
  | ok snapshot =>
    rw [importBytes_eq_restore hread]
    exact keeps_restore hadd hmark hattribute (hinsert snapshot hread)
  | error e =>
    rw [importBytes_eq_throw hread]
    exact .throw e

end Restoring

end SemanticHypergraph
