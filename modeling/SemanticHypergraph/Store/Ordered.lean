import SemanticHypergraph.Settings.Store
import SemanticHypergraph.Store.Contract
import SemanticHypergraph.Store.Index

/-!
# The ordered store

Entities are kept in entity order in a sorted map. Two indexes go with it: from each child to the
stored edges that hold it, whether the child itself is stored or not, and from each root to the
stored atoms that have it.
-/
namespace SemanticHypergraph

structure Record where
  isPrimary : Bool
  attributes : Attributes
  deriving DecidableEq

structure OrderedStore where
  name : String
  policy : PrimaryPolicy
  records : Std.ExtTreeMap Entity Record
  parents : Index Entity Entity
  roots : Index String Atom

namespace OrderedStore

def empty (name : String) (policy : PrimaryPolicy) : OrderedStore :=
  ⟨name, policy, ∅, .empty, .empty⟩

def size (s : OrderedStore) : Nat := s.records.size

def contains (s : OrderedStore) (e : Entity) : Bool := s.records.contains e

/-- The rows that a stored entity has in the indexes. -/
def link (s : OrderedStore) : Entity → OrderedStore
  | .atom a => { s with roots := s.roots.add a.root a }
  | .edge cs => { s with parents := cs.foldl (fun i c => i.add c (.edge cs)) s.parents }

/-- Takes away the rows of an entity. Those that name it as a child belong to other edges. -/
def unlink (s : OrderedStore) : Entity → OrderedStore
  | .atom a => { s with roots := s.roots.remove a.root a }
  | .edge cs => { s with parents := cs.foldl (fun i c => i.remove c (.edge cs)) s.parents }

def setRecord (s : OrderedStore) (e : Entity) (r : Record) : OrderedStore :=
  { s with records := s.records.insert e r }

/-- The first child that is not stored. -/
def missingChild? (s : OrderedStore) (e : Entity) : Option Entity :=
  e.children.find? fun c => !s.contains c

def insert (s : OrderedStore) (e : Entity) (isPrimary : Bool) : Except Error OrderedStore :=
  match s.records[e]? with
  | some r => .ok (s.setRecord e { r with isPrimary := s.policy.resolve r.isPrimary isPrimary })
  | none =>
    match s.missingChild? e with
    | some child => .error (danglingError e child)
    | none => .ok ((s.link e).setRecord e ⟨isPrimary, ∅⟩)

def delete (s : OrderedStore) (e : Entity) : Bool × OrderedStore :=
  if s.contains e then (true, { s.unlink e with records := s.records.erase e }) else (false, s)

def isPrimary (s : OrderedStore) (e : Entity) : Bool := s.records[e]?.any Record.isPrimary

def setPrimary (s : OrderedStore) (e : Entity) (isPrimary : Bool) : OrderedStore :=
  match s.records[e]? with
  | some r => s.setRecord e { r with isPrimary := isPrimary }
  | none => s

def entities (s : OrderedStore) : List Entity := s.records.keys

def attributeOf (s : OrderedStore) (e : Entity) (name : String) : Option Value :=
  s.records[e]?.bind fun r => r.attributes[name]?

def setAttribute (s : OrderedStore) (e : Entity) (name : String) (value : Value) :
    Bool × OrderedStore :=
  match s.records[e]? with
  | some r => (true, s.setRecord e { r with attributes := r.attributes.insert name value })
  | none => (false, s)

def stepAttribute (s : OrderedStore) (e : Entity) (name : String) (step : Step) :
    Except Error (Option Value × OrderedStore) :=
  match s.records[e]? with
  | some r =>
    match Value.stepped r.attributes[name]? name step with
    | .ok value =>
      .ok (some value, s.setRecord e { r with attributes := r.attributes.insert name value })
    | .error error => .error error
  | none => .ok (none, s)

def degree (s : OrderedStore) (e : Entity) : Nat := (s.parents.get e).countP s.isPrimary

def star (s : OrderedStore) (e : Entity) (limit : Option Nat) : List Entity :=
  match limit with
  | some n => (s.parents.get e).take n
  | none => s.parents.get e

def countWhere (s : OrderedStore) (keep : Entity → Record → Bool) : Nat :=
  s.records.toList.countP fun p => keep p.1 p.2

def counts (s : OrderedStore) : Counts where
  atoms := s.countWhere fun e _ => e.isAtom
  edges := s.countWhere fun e _ => e.isEdge
  primaryAtoms := s.countWhere fun e r => e.isAtom && r.isPrimary
  primaryEdges := s.countWhere fun e r => e.isEdge && r.isPrimary

def destroy (s : OrderedStore) : OrderedStore := empty s.name s.policy

def deepDegree (s : OrderedStore) (e : Entity) : Nat := (s.parents.above e).countP s.isPrimary

def lookupRoot (s : OrderedStore) (root : String) : List Atom := s.roots.get root

def lookupAtoms (s : OrderedStore) (atoms : List Atom) (root : Option String) : List Entity :=
  match atoms with
  | [] => []
  | a :: rest =>
    (s.parents.get (.atom a)).filter fun e =>
      (rest.all fun b => (s.parents.membersOf (.atom b)).contains e) && e.hasChildWithRoot root

def search (s : OrderedStore) (template : Entity) : List Entity :=
  match template.firstConcreteChild with
  | some anchor => s.parents.get anchor
  | none => s.entities.filter Entity.isEdge

def attributes (s : OrderedStore) : List (Entity × Attributes) :=
  (s.records.toList.map fun p => (p.1, p.2.attributes)).filter fun p => !p.2.isEmpty

instance : Hypergraph OrderedStore where
  name s := s.name
  contains s e := .ok (s.contains e)
  insert e isPrimary := fun s =>
    match s.insert e isPrimary with
    | .ok t => (.ok (), t)
    | .error error => (.error error, s)
  delete e := fun s => let (found, t) := s.delete e; (.ok found, t)
  isPrimary s e := .ok (s.isPrimary e)
  setPrimary e isPrimary := fun s => (.ok (), s.setPrimary e isPrimary)
  entities s := .ok s.entities
  attributeOf s e name := .ok (s.attributeOf e name)
  setAttribute e name value := fun s =>
    let (found, t) := s.setAttribute e name value
    (.ok found, t)
  stepAttribute e name step := fun s =>
    match s.stepAttribute e name step with
    | .ok (value, t) => (.ok value, t)
    | .error error => (.error error, s)
  degree s e := .ok (s.degree e)
  star s e limit := .ok (s.star e limit)
  counts s := .ok s.counts
  destroy := fun s => (.ok (), s.destroy)
  deepDegree s e := .ok (s.deepDegree e)
  lookupRoot s root := .ok (s.lookupRoot root)
  lookupAtoms s atoms root := .ok (s.lookupAtoms atoms root)
  search s template := .ok (s.search template)
  attributes s := .ok s.attributes

end OrderedStore

end SemanticHypergraph
