import SemanticHypergraph.Proofs.Store.Agreement
import SemanticHypergraph.Proofs.Store.Numbered
import SemanticHypergraph.Proofs.Store.Ordered

/-!
# Every store serves every run of calls alike

Alike stores stay alike through each operation that is built on the contract, so two of them show
the same in any run of calls. An empty ordered store and an empty numbered one are alike.
-/
namespace SemanticHypergraph

open SemanticHypergraph.Hypergraph LawfulHypergraph

/-- Entities are compared as sets without repetition, and what a limit leaves by its length, as a
beginning of the whole; all else is compared as it is. -/
def Answer.Agrees : Answer → Answer → Prop
  | scan xs, scan ys => SameMembers xs ys
  | limited xs whole, limited ys whole' =>
    xs <+: whole ∧ ys <+: whole' ∧ xs.length = ys.length ∧ SameMembers whole whole'
  | rows xs, rows ys => SameMembers xs ys
  | x, y => x = y

/-- The results agree, and what is exported afterwards is the same. -/
structure Observation.Agrees (x y : Observation) : Prop where
  result : ResultsAgree Answer.Agrees x.result y.result
  exported : ∃ bs, x.exported = .ok bs ∧ y.exported = .ok bs

variable {σ τ : Type} [Hypergraph σ] [Hypergraph τ] [LawfulHypergraph σ] [LawfulHypergraph τ]

theorem Alike.answer {s : σ} {t : τ} (h : Alike s t) (q : Query) :
    ResultsAgree Answer.Agrees (q.answer s) (q.answer t) := by
  cases q with
  | name => exact .ok (congrArg _ h.name)
  | contains e => exact (h.contains e).map fun _ _ hab => congrArg _ hab
  | isPrimary e => exact (h.isPrimary e).map fun _ _ hab => congrArg _ hab
  | entities => exact h.entities.map fun _ _ hes => hes
  | attributeOf e name => exact (h.attributeOf e name).map fun _ _ hab => congrArg _ hab
  | degree e => exact (h.degree e).map fun _ _ hab => congrArg _ hab
  | star e limit =>
    cases limit with
    | none => exact (h.star e).map fun _ _ hes => hes
    | some n =>
      simp only [Query.answer, star_some_eq h.left, star_some_eq h.right, star_eq h.left,
        star_eq h.right]
      have hsame := h.order.filter fun p => decide (e ∈ p.children)
      refine .ok ⟨List.take_prefix _ _, List.take_prefix _ _, ?_, hsame⟩
      rw [List.length_take, List.length_take, hsame.perm.length_eq]
  | counts => exact h.counts.map fun _ _ hab => congrArg _ hab
  | deepDegree e => exact (h.deepDegree e).map fun _ _ hab => congrArg _ hab
  | lookupRoot root => exact (h.lookupRoot root).map fun _ _ hab => congrArg _ hab
  | lookupAtoms atoms root => exact (h.lookupAtoms atoms root).map fun _ _ hes => hes
  | search template => exact (h.search template).map fun _ _ hes => hes
  | attributes => exact h.attributes.map fun _ _ hes => hes
  | all => exact (h.matchPattern .anyEntity).map fun _ _ hsel => hsel.toList
  | allAtoms => exact (h.matchPattern .anyAtom).map fun _ _ hsel => hsel.toList
  | allEdges => exact (h.matchPattern .anyEdge).map fun _ _ hsel => hsel.toList
  | matchPattern p => exact (h.matchPattern p).map fun _ _ hsel => hsel.toList
  | matchText text => exact (h.matchText text).map fun _ _ hsel => hsel.toList
  | ego center => exact (h.ego center).map fun _ _ hab => congrArg _ hab
  | atomsWithRoot root => exact (h.atomsWithRoot root).map fun _ _ hab => congrArg _ hab
  | edgesWithAtoms atoms root => exact (h.lookupAtoms atoms root).map fun _ _ hes => hes
  | textAttribute e name default =>
    refine ResultsAgree.map (R := Eq) ((h.attributeOf e name).bind ?_) fun _ _ hab => congrArg _ hab
    rintro v _ rfl
    exact .ok rfl
  | intAttribute e name default =>
    refine ResultsAgree.map (R := Eq) ((h.attributeOf e name).bind ?_) fun _ _ hab => congrArg _ hab
    rintro v _ rfl
    exact .ok rfl
  | floatAttribute e name default =>
    refine ResultsAgree.map (R := Eq) ((h.attributeOf e name).bind ?_) fun _ _ hab => congrArg _ hab
    rintro v _ rfl
    exact .ok rfl
  | exportBytes =>
    obtain ⟨bs, hs, ht⟩ := h.exportBytes
    simp only [Query.answer, hs, ht]
    exact .ok rfl

/-! ## Operations built on the contract -/

theorem insert_agrees (e : Entity) (isPrimary : Bool) :
    UpdatesAgree Eq (insert e isPrimary : Update σ Unit) (insert e isPrimary : Update τ Unit) :=
  .of_realizes (insert_realizes e isPrimary) (insert_realizes e isPrimary)

theorem delete_agrees (e : Entity) :
    UpdatesAgree Eq (delete e : Update σ Bool) (delete e : Update τ Bool) :=
  .of_realizes (delete_realizes e) (delete_realizes e)

/-- An update made unless an entity is stored, and what follows it. -/
theorem unless_contains_agrees {α : Type} (e : Entity) {u : Update σ α} {v : Update τ α}
    {w : Update σ Unit} {x : Update τ Unit} (h : UpdatesAgree Eq u v)
    (hnext : UpdatesAgree Eq w x) :
    UpdatesAgree Eq
      (do if ← Update.ask (contains · e) then w else u >>= fun _ => w)
      (do if ← Update.ask (contains · e) then x else v >>= fun _ => x) := by
  refine UpdatesAgree.bind (.ask fun s t hst => hst.contains e) ?_
  rintro b _ rfl
  cases b with
  | true => exact hnext
  | false => exact h.bind fun _ _ _ => hnext

mutual

theorem addMissing_agrees (isPrimary : Bool) : (e : Entity) →
    UpdatesAgree Eq (addMissing isPrimary e : Update σ Unit)
      (addMissing isPrimary e : Update τ Unit)
  | .atom a => by
    rw [addMissing, addMissing]
    exact insert_agrees (.atom a) isPrimary
  | .edge cs => by
    rw [addMissing, addMissing]
    exact (addMissingAll_agrees cs).bind fun _ _ _ => insert_agrees (.edge cs) isPrimary

theorem addMissingAll_agrees : (es : List Entity) →
    UpdatesAgree Eq (addMissingAll es : Update σ Unit) (addMissingAll es : Update τ Unit)
  | [] => .pure rfl
  | c :: cs => by
    rw [addMissingAll, addMissingAll]
    exact unless_contains_agrees c (addMissing_agrees false c) (addMissingAll_agrees cs)

end

theorem addWith_agrees (e : Entity) (isPrimary : Bool) :
    UpdatesAgree Eq (addWith e isPrimary : Update σ Entity)
      (addWith e isPrimary : Update τ Entity) := by
  unfold addWith
  split
  · exact .throw _
  · exact (addMissing_agrees isPrimary e).bind fun _ _ _ => .pure rfl

theorem deleteEdges_agrees (keepShared : Bool) (es : List Entity) :
    UpdatesAgree Eq (deleteEdges keepShared es : Update σ Unit)
      (deleteEdges keepShared es : Update τ Unit) := by
  induction es with
  | nil => exact .pure rfl
  | cons e es ih =>
    have hdelete : UpdatesAgree Eq
        ((delete e : Update σ Bool) >>= fun _ => deleteEdges keepShared es)
        ((delete e : Update τ Bool) >>= fun _ => deleteEdges keepShared es) :=
      (delete_agrees e).bind fun _ _ _ => ih
    cases keepShared with
    | false => exact hdelete
    | true =>
      refine UpdatesAgree.bind (R := Eq) (.ask fun s t hst => ?_) ?_
      · refine (hst.star_some e 1).map fun xs ys hlen => ?_
        cases xs <;> cases ys <;> simp_all
      · rintro shared _ rfl
        cases shared with
        | true => exact ih
        | false => exact hdelete

theorem removeWith_agrees (e : Entity) (removal : Removal) :
    UpdatesAgree Eq (removeWith e removal : Update σ Bool)
      (removeWith e removal : Update τ Bool) := by
  refine (delete_agrees e).bind ?_
  rintro existed _ rfl
  cases removal with
  | shallow => exact .pure rfl
  | deep => exact (deleteEdges_agrees false _).bind fun _ _ _ => .pure rfl
  | deepUnshared => exact (deleteEdges_agrees true _).bind fun _ _ _ => .pure rfl

/-- The order in which entities are removed does not show. -/
theorem removeAll_agrees (removed : Nat) {es fs : List Entity} (h : SameMembers es fs) :
    UpdatesAgree Eq (removeAll removed es : Update σ Nat)
      (removeAll removed fs : Update τ Nat) := by
  refine .of_realizes (removeAll_realizes removed h.1) ?_
  rw [Content.removeAll_perm removed h.perm]
  exact removeAll_realizes removed h.2.1

theorem removeMatching_agrees (p : Pattern) :
    UpdatesAgree Eq (removeMatching p : Update σ Nat) (removeMatching p : Update τ Nat) :=
  UpdatesAgree.bind (.ask fun _ _ hst => hst.matchPattern p) fun _ _ hsel =>
    removeAll_agrees 0 hsel.toList

theorem removeText_agrees (text : String) :
    UpdatesAgree Eq (removeText text : Update σ Nat) (removeText text : Update τ Nat) := by
  unfold removeText
  cases Pattern.parse text with
  | ok p => exact removeMatching_agrees p
  | error e => exact .throw e

namespace Snapshot

theorem addChildren_agrees (cs : List Entity) :
    UpdatesAgree Eq (addChildren cs : Update σ Unit) (addChildren cs : Update τ Unit) := by
  induction cs with
  | nil => exact .pure rfl
  | cons c cs ih =>
    exact unless_contains_agrees c (addWith_agrees c false) ih

theorem setAttributes_agrees (e : Entity) (values : List (String × Value)) :
    UpdatesAgree Eq (setAttributes e values : Update σ Unit)
      (setAttributes e values : Update τ Unit) := by
  induction values with
  | nil => exact .pure rfl
  | cons p values ih =>
    exact UpdatesAgree.bind (.of_realizes (setAttribute_realizes e p.1 p.2)
      (setAttribute_realizes e p.1 p.2)) fun _ _ _ => ih

theorem restoreEntry_agrees (entry : Entry) :
    UpdatesAgree Eq (restoreEntry entry : Update σ Unit) (restoreEntry entry : Update τ Unit) := by
  refine (addChildren_agrees _).bind fun _ _ _ => ?_
  refine (insert_agrees _ _).bind fun _ _ _ => ?_
  refine UpdatesAgree.bind (.of_realizes (setPrimary_realizes _ _) (setPrimary_realizes _ _)) ?_
  exact fun _ _ _ => setAttributes_agrees _ _

theorem restoreEntries_agrees (entries : List Entry) :
    UpdatesAgree Eq (restoreEntries entries : Update σ Unit)
      (restoreEntries entries : Update τ Unit) := by
  induction entries with
  | nil => exact .pure rfl
  | cons entry entries ih => exact (restoreEntry_agrees entry).bind fun _ _ _ => ih

theorem restore_agrees (snapshot : Snapshot) :
    UpdatesAgree Eq (snapshot.restore : Update σ Nat) (snapshot.restore : Update τ Nat) :=
  (restoreEntries_agrees _).bind fun _ _ _ => .pure rfl

end Snapshot

theorem importBytes_agrees (bs : List UInt8) :
    UpdatesAgree Eq (importBytes bs : Update σ Nat) (importBytes bs : Update τ Nat) := by
  unfold importBytes
  cases Snapshot.ofBytes bs with
  | ok snapshot => exact Snapshot.restore_agrees snapshot
  | error e => exact .throw e

/-! ## Runs -/

/-- The same value, wrapped in the same way. -/
theorem UpdatesAgree.answer {α : Type} {u : Update σ α} {v : Update τ α} (h : UpdatesAgree Eq u v)
    {f : α → Answer} (hf : ∀ a, Answer.Agrees (f a) (f a)) :
    UpdatesAgree Answer.Agrees (do return f (← u)) (do return f (← v)) := by
  refine h.bind ?_
  rintro a _ rfl
  exact .pure (hf a)

theorem Change.perform_agrees (c : Change) :
    UpdatesAgree Answer.Agrees (c.perform : Update σ Answer) (c.perform : Update τ Answer) := by
  cases c with
  | insert e isPrimary => exact (insert_agrees e isPrimary).answer fun _ => rfl
  | delete e => exact (delete_agrees e).answer fun _ => rfl
  | setPrimary e isPrimary =>
    exact (UpdatesAgree.of_realizes (setPrimary_realizes e isPrimary)
      (setPrimary_realizes e isPrimary)).answer fun _ => rfl
  | setAttribute e name value =>
    exact (UpdatesAgree.of_realizes (setAttribute_realizes e name value)
      (setAttribute_realizes e name value)).answer fun _ => rfl
  | stepAttribute e name step =>
    exact (UpdatesAgree.of_realizes (stepAttribute_realizes e name step)
      (stepAttribute_realizes e name step)).answer fun _ => rfl
  | destroy =>
    exact (UpdatesAgree.of_realizes destroy_realizes destroy_realizes).answer fun _ => rfl
  | close => exact (UpdatesAgree.of_realizes close_realizes close_realizes).answer fun _ => rfl

/-- Every operation answers alike in alike stores and leaves them alike. -/
theorem Operation.perform_agrees (op : Operation) :
    UpdatesAgree Answer.Agrees (op.perform : Update σ Answer) (op.perform : Update τ Answer) := by
  cases op with
  | ask q => exact .ask fun _ _ hst => hst.answer q
  | change c => exact c.perform_agrees
  | add e => exact (addWith_agrees e true).answer fun _ => rfl
  | addWith e isPrimary => exact (addWith_agrees e isPrimary).answer fun _ => rfl
  | remove e => exact (removeWith_agrees e .shallow).answer fun _ => rfl
  | removeWith e removal => exact (removeWith_agrees e removal).answer fun _ => rfl
  | removeMatching p => exact (removeMatching_agrees p).answer fun _ => rfl
  | removeText text => exact (removeText_agrees text).answer fun _ => rfl
  | restore snapshot => exact (Snapshot.restore_agrees snapshot).answer fun _ => rfl
  | importBytes bs => exact (importBytes_agrees bs).answer fun _ => rfl

theorem trace_agrees {s : σ} {t : τ} (h : Alike s t) (ops : List Operation) :
    List.Forall₂ Observation.Agrees (trace ops s) (trace ops t) := by
  induction ops generalizing s t with
  | nil => exact .nil
  | cons op ops ih =>
    obtain ⟨hresult, hafter⟩ := op.perform_agrees s t h
    exact .cons ⟨hresult, hafter.exportBytes⟩ (ih hafter)

theorem alike_empty (name : String) (policy : PrimaryPolicy) :
    Alike (OrderedStore.empty name policy) (NumberedStore.empty name policy) where
  left := OrderedStore.consistent_empty name policy
  right := NumberedStore.consistent_empty name policy
  name := rfl
  policy := rfl
  content := (OrderedStore.content_empty name policy).trans
    (NumberedStore.content_empty name policy).symm

/-- Whatever is called, and in whatever order, an empty ordered store and an empty numbered one show
the same. -/
theorem trace_ordered_agrees_numbered (name : String) (policy : PrimaryPolicy)
    (ops : List Operation) : List.Forall₂ Observation.Agrees
      (trace ops (OrderedStore.empty name policy)) (trace ops (NumberedStore.empty name policy)) :=
  trace_agrees (alike_empty name policy) ops

end SemanticHypergraph
