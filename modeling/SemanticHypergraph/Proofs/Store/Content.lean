import Mathlib.Logic.Function.Basic
import Mathlib.Logic.Relation
import SemanticHypergraph.Store.Ordered

/-!
# Contents

What a store holds apart from how it is kept: a record for every stored entity. Each change of the
contract is told here once by what it answers and by what it does to a content; every store is then
held to these.
-/
namespace SemanticHypergraph

/-- The record of every entity that is stored. -/
abbrev Content := Entity → Option Record

namespace Content

def empty : Content := fun _ => none

def put (c : Content) (e : Entity) (r : Record) : Content := Function.update c e (some r)

def drop (c : Content) (e : Entity) : Content := Function.update c e none

def isStored (c : Content) (e : Entity) : Bool := (c e).isSome

def isPrimary (c : Content) (e : Entity) : Bool := (c e).any Record.isPrimary

/-- The attributes of an entity; what is not stored has none. -/
def attributesOf (c : Content) (e : Entity) : Attributes := ((c e).map Record.attributes).getD ∅

/-- The second entity is a stored edge of which the first is a child. -/
def Holds (c : Content) (child edge : Entity) : Prop := c.isStored edge ∧ child ∈ edge.children

/-- A chain of stored edges leads from the entity up to the edge. -/
def Above (c : Content) (e edge : Entity) : Prop := Relation.TransGen c.Holds e edge

/-- The first child that is not stored. -/
def missingChild? (c : Content) (e : Entity) : Option Entity :=
  e.children.find? fun x => !c.isStored x

def insert (e : Entity) (isPrimary : Bool) (policy : PrimaryPolicy) : Update Content Unit :=
  fun c =>
    match c e with
    | some r => (.ok (), c.put e { r with isPrimary := policy.resolve r.isPrimary isPrimary })
    | none =>
      match c.missingChild? e with
      | some child => (.error (danglingError e child), c)
      | none => (.ok (), c.put e ⟨isPrimary, ∅⟩)

def delete (e : Entity) : Update Content Bool := fun c => (.ok (c.isStored e), c.drop e)

def setPrimary (e : Entity) (isPrimary : Bool) : Update Content Unit := fun c =>
  match c e with
  | some r => (.ok (), c.put e { r with isPrimary := isPrimary })
  | none => (.ok (), c)

def setAttribute (e : Entity) (name : String) (value : Value) : Update Content Bool := fun c =>
  match c e with
  | some r => (.ok true, c.put e { r with attributes := r.attributes.insert name value })
  | none => (.ok false, c)

def stepAttribute (e : Entity) (name : String) (step : Step) : Update Content (Option Value) :=
  fun c =>
    match c e with
    | some r =>
      match Value.stepped r.attributes[name]? name step with
      | .ok value =>
        (.ok (some value), c.put e { r with attributes := r.attributes.insert name value })
      | .error error => (.error error, c)
    | none => (.ok none, c)

def destroy : Update Content Unit := fun _ => (.ok (), empty)

/-- How many of the entities pass, each with its record. -/
def countWhere (c : Content) (keep : Entity → Record → Bool) (es : List Entity) : Nat :=
  es.countP fun e => (c e).any (keep e)

/-- The counts over the stored entities, given in any order. -/
def counts (c : Content) (es : List Entity) : Counts where
  atoms := c.countWhere (fun e _ => e.isAtom) es
  edges := c.countWhere (fun e _ => e.isEdge) es
  primaryAtoms := c.countWhere (fun e r => e.isAtom && r.isPrimary) es
  primaryEdges := c.countWhere (fun e r => e.isEdge && r.isPrimary) es

/-- The entities that have attributes, with them. -/
def attributeRows (c : Content) (es : List Entity) : List (Entity × Attributes) :=
  (es.map fun e => (e, c.attributesOf e)).filter fun p => !p.2.isEmpty

@[simp] theorem put_self (c : Content) (e : Entity) (r : Record) : c.put e r e = some r := by
  simp [put]

@[simp] theorem put_of_ne {c : Content} {e x : Entity} {r : Record} (h : x ≠ e) :
    c.put e r x = c x := by
  simp [put, h]

@[simp] theorem drop_self (c : Content) (e : Entity) : c.drop e e = none := by
  simp [drop]

@[simp] theorem drop_of_ne {c : Content} {e x : Entity} (h : x ≠ e) : c.drop e x = c x := by
  simp [drop, h]

theorem drop_of_none {c : Content} {e : Entity} (h : c e = none) : c.drop e = c :=
  Function.update_eq_self_iff.2 h.symm

theorem isStored_put_iff {c : Content} {e x : Entity} {r : Record} :
    (c.put e r).isStored x ↔ x = e ∨ c.isStored x := by
  by_cases hx : x = e
  · subst hx
    simp [isStored]
  · simp [isStored, hx]

theorem isStored_drop {c : Content} {e x : Entity} :
    (c.drop e).isStored x ↔ x ≠ e ∧ c.isStored x := by
  by_cases hx : x = e
  · subst hx
    simp [isStored]
  · simp [isStored, hx]

theorem not_isStored_of_eq_none {c : Content} {e : Entity} (h : c e = none) : ¬ c.isStored e := by
  simp [isStored, h]

theorem missingChild?_eq_none {c : Content} {e : Entity} :
    c.missingChild? e = none ↔ ∀ x ∈ e.children, c.isStored x := by
  simp [missingChild?]

theorem isStored_of_eq_some {c : Content} {e : Entity} {r : Record} (h : c e = some r) :
    c.isStored e := by
  simp [isStored, h]

section Changes

variable {c : Content} {e : Entity} {r : Record}

theorem insert_of_some (h : c e = some r) (isPrimary : Bool) (policy : PrimaryPolicy) :
    insert e isPrimary policy c =
      (.ok (), c.put e { r with isPrimary := policy.resolve r.isPrimary isPrimary }) := by
  simp [insert, h]

theorem insert_of_missing {child : Entity} (h : c e = none) (hm : c.missingChild? e = some child)
    (isPrimary : Bool) (policy : PrimaryPolicy) :
    insert e isPrimary policy c = (.error (danglingError e child), c) := by
  simp [insert, h, hm]

theorem insert_of_none (h : c e = none) (hm : c.missingChild? e = none) (isPrimary : Bool)
    (policy : PrimaryPolicy) : insert e isPrimary policy c = (.ok (), c.put e ⟨isPrimary, ∅⟩) := by
  simp [insert, h, hm]

theorem setPrimary_of_some (h : c e = some r) (isPrimary : Bool) :
    setPrimary e isPrimary c = (.ok (), c.put e { r with isPrimary := isPrimary }) := by
  simp [setPrimary, h]

theorem setPrimary_of_none (h : c e = none) (isPrimary : Bool) :
    setPrimary e isPrimary c = (.ok (), c) := by
  simp [setPrimary, h]

theorem setAttribute_of_some (h : c e = some r) (name : String) (value : Value) :
    setAttribute e name value c =
      (.ok true, c.put e { r with attributes := r.attributes.insert name value }) := by
  simp [setAttribute, h]

theorem setAttribute_of_none (h : c e = none) (name : String) (value : Value) :
    setAttribute e name value c = (.ok false, c) := by
  simp [setAttribute, h]

theorem stepAttribute_of_ok {name : String} {step : Step} {value : Value} (h : c e = some r)
    (hv : Value.stepped r.attributes[name]? name step = .ok value) :
    stepAttribute e name step c =
      (.ok (some value), c.put e { r with attributes := r.attributes.insert name value }) := by
  simp [stepAttribute, h, hv]

theorem stepAttribute_of_error {name : String} {step : Step} {error : Error} (h : c e = some r)
    (hv : Value.stepped r.attributes[name]? name step = .error error) :
    stepAttribute e name step c = (.error error, c) := by
  simp [stepAttribute, h, hv]

theorem stepAttribute_of_none (h : c e = none) (name : String) (step : Step) :
    stepAttribute e name step c = (.ok none, c) := by
  simp [stepAttribute, h]

end Changes

end Content

namespace Entity

/-- The entity is an edge that holds every one of the atoms, of which there is one at least, and an
atom with the given root. -/
def joins (atoms : List Atom) (root : Option String) (e : Entity) : Bool :=
  !atoms.isEmpty && atoms.all (fun a => decide (.atom a ∈ e.children)) && e.hasChildWithRoot root

/-- The entity is among those that are tried for a template. -/
def isCandidate (template e : Entity) : Bool :=
  match template.firstConcreteChild with
  | some anchor => decide (anchor ∈ e.children)
  | none => e.isEdge

end Entity

end SemanticHypergraph
