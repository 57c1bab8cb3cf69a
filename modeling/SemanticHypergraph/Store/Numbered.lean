import SemanticHypergraph.Settings.Store
import SemanticHypergraph.Store.Contract
import SemanticHypergraph.Store.Index

/-!
# The numbered store

Every entity gets a number when it is first inserted and keeps it when it is deleted, so that it has
the same number when it comes back; only destroying the store forgets the numbers. Records,
attributes and indexes are tables over numbers, and everything is listed in their order.
-/
namespace SemanticHypergraph

structure NumberedStore where
  name : String
  policy : PrimaryPolicy
  numbers : Std.ExtTreeMap Entity Nat
  next : Nat
  /-- The entity of a number with its mark; an entity is stored if its number is here. -/
  records : Std.ExtTreeMap Nat (Entity × Bool)
  parents : Index Nat Nat
  roots : Index String Nat
  attributeRows : Std.ExtTreeMap Nat Attributes

namespace NumberedStore

def empty (name : String) (policy : PrimaryPolicy) : NumberedStore :=
  ⟨name, policy, ∅, 0, ∅, .empty, .empty, ∅⟩

def numberOf? (s : NumberedStore) (e : Entity) : Option Nat := s.numbers[e]?

/-- The number of an entity that is stored. -/
def liveNumber? (s : NumberedStore) (e : Entity) : Option Nat :=
  (s.numberOf? e).filter fun n => s.records.contains n

/-- The record of an entity that is stored, with its number. -/
def record? (s : NumberedStore) (e : Entity) : Option (Nat × Bool) := do
  let n ← s.numberOf? e
  let r ← s.records[n]?
  return (n, r.2)

/-- The record that an index points at. -/
def requireRecord (s : NumberedStore) (n : Nat) : Except Error (Entity × Bool) :=
  match s.records[n]? with
  | some r => .ok r
  | none => .error (.io ("entity index references missing record " ++ toString n))

def requireEntities (s : NumberedStore) (ns : List Nat) : Except Error (List Entity) :=
  ns.mapM fun n => (s.requireRecord n).map Prod.fst

def countPrimary (s : NumberedStore) (ns : List Nat) : Except Error Nat := do
  return (← ns.mapM s.requireRecord).countP Prod.snd

def contains (s : NumberedStore) (e : Entity) : Bool := (s.liveNumber? e).isSome

/-- The number of an entity, given to it now if it has none. -/
def assign (s : NumberedStore) (e : Entity) : Nat × NumberedStore :=
  match s.numberOf? e with
  | some n => (n, s)
  | none => (s.next, { s with numbers := s.numbers.insert e s.next, next := s.next + 1 })

/-- The rows that the stored entity of number `n` has in the indexes. -/
def link (s : NumberedStore) (n : Nat) : Entity → NumberedStore
  | .atom a => { s with roots := s.roots.add a.root n }
  | .edge cs =>
    { s with parents := (cs.filterMap s.numberOf?).foldl (fun i c => i.add c n) s.parents }

/-- Takes away the rows of an entity. Those that name it as a child belong to other edges. -/
def unlink (s : NumberedStore) (n : Nat) : Entity → NumberedStore
  | .atom a => { s with roots := s.roots.remove a.root n }
  | .edge cs =>
    { s with parents := (cs.filterMap s.numberOf?).foldl (fun i c => i.remove c n) s.parents }

def setRecord (s : NumberedStore) (n : Nat) (e : Entity) (isPrimary : Bool) : NumberedStore :=
  { s with records := s.records.insert n (e, isPrimary) }

/-- The first child that is not stored. -/
def missingChild? (s : NumberedStore) (e : Entity) : Option Entity :=
  e.children.find? fun c => !s.contains c

def insert (s : NumberedStore) (e : Entity) (isPrimary : Bool) : Except Error NumberedStore :=
  match s.record? e with
  | some (n, current) => .ok (s.setRecord n e (s.policy.resolve current isPrimary))
  | none =>
    match s.missingChild? e with
    | some child => .error (danglingError e child)
    | none =>
      let (n, t) := s.assign e
      .ok ((t.link n e).setRecord n e isPrimary)

def delete (s : NumberedStore) (e : Entity) : Bool × NumberedStore :=
  match s.liveNumber? e with
  | some n =>
    (true, { s.unlink n e with
      records := s.records.erase n
      attributeRows := s.attributeRows.erase n })
  | none => (false, s)

def isPrimary (s : NumberedStore) (e : Entity) : Bool := (s.record? e).any Prod.snd

def setPrimary (s : NumberedStore) (e : Entity) (isPrimary : Bool) : NumberedStore :=
  match s.record? e with
  | some (n, _) => s.setRecord n e isPrimary
  | none => s

def entities (s : NumberedStore) : List Entity := s.records.toList.map fun r => r.2.1

def attributesAt (s : NumberedStore) (n : Nat) : Attributes := s.attributeRows[n]?.getD ∅

def attributeOf (s : NumberedStore) (e : Entity) (name : String) : Option Value :=
  (s.liveNumber? e).bind fun n => (s.attributesAt n)[name]?

def setAttributeAt (s : NumberedStore) (n : Nat) (name : String) (value : Value) : NumberedStore :=
  { s with attributeRows := s.attributeRows.insert n ((s.attributesAt n).insert name value) }

def setAttribute (s : NumberedStore) (e : Entity) (name : String) (value : Value) :
    Bool × NumberedStore :=
  match s.liveNumber? e with
  | some n => (true, s.setAttributeAt n name value)
  | none => (false, s)

def stepAttribute (s : NumberedStore) (e : Entity) (name : String) (step : Step) :
    Except Error (Option Value × NumberedStore) :=
  match s.liveNumber? e with
  | some n =>
    match Value.stepped (s.attributesAt n)[name]? name step with
    | .ok value => .ok (some value, s.setAttributeAt n name value)
    | .error error => .error error
  | none => .ok (none, s)

/-- The numbers of the edges that hold the entity, which need not be stored itself. -/
def parentNumbers (s : NumberedStore) (e : Entity) : List Nat :=
  ((s.numberOf? e).map s.parents.get).getD []

def degree (s : NumberedStore) (e : Entity) : Except Error Nat := s.countPrimary (s.parentNumbers e)

def star (s : NumberedStore) (e : Entity) (limit : Option Nat) : Except Error (List Entity) :=
  match limit with
  | some n => s.requireEntities ((s.parentNumbers e).take n)
  | none => s.requireEntities (s.parentNumbers e)

def countWhere (s : NumberedStore) (keep : Entity → Bool → Bool) : Nat :=
  s.records.toList.countP fun r => keep r.2.1 r.2.2

def counts (s : NumberedStore) : Counts where
  atoms := s.countWhere fun e _ => e.isAtom
  edges := s.countWhere fun e _ => e.isEdge
  primaryAtoms := s.countWhere fun e isPrimary => e.isAtom && isPrimary
  primaryEdges := s.countWhere fun e isPrimary => e.isEdge && isPrimary

def destroy (s : NumberedStore) : NumberedStore := empty s.name s.policy

def deepDegree (s : NumberedStore) (e : Entity) : Except Error Nat :=
  match s.numberOf? e with
  | some n => s.countPrimary (s.parents.above n)
  | none => .ok 0

def lookupRoot (s : NumberedStore) (root : String) : Except Error (List Atom) := do
  let found ← s.requireEntities (s.roots.get root)
  return (found.filterMap Entity.asAtom).mergeSort fun a b => (compare a b).isLE

/-- The members common to the index rows of all the numbers. -/
def commonParents (s : NumberedStore) : List Nat → List Nat
  | [] => []
  | n :: rest =>
    (s.parents.get n).filter fun edge => rest.all fun m => (s.parents.membersOf m).contains edge

def lookupAtoms (s : NumberedStore) (atoms : List Atom) (root : Option String) :
    Except Error (List Entity) :=
  match atoms.mapM fun a => s.numberOf? (.atom a) with
  | none => .ok []
  | some ns => do
    let found ← s.requireEntities (s.commonParents ns)
    return found.filter fun e => e.hasChildWithRoot root

def search (s : NumberedStore) (template : Entity) : Except Error (List Entity) :=
  match template.firstConcreteChild with
  | some anchor => s.star anchor none
  | none => .ok (s.entities.filter Entity.isEdge)

def attributes (s : NumberedStore) : Except Error (List (Entity × Attributes)) :=
  (s.attributeRows.toList.filter fun p => !p.2.isEmpty).mapM fun p => do
    return ((← s.requireRecord p.1).1, p.2)

instance : Hypergraph NumberedStore where
  name s := s.name
  contains s e := .ok (s.contains e)
  insert e isPrimary := fun s =>
    match s.insert e isPrimary with
    | .ok t => (.ok (), t)
    | .error error => (.error error, s)
  delete e := fun s => let (found, t) := s.delete e; (.ok found, t)
  isPrimary s e := .ok (s.isPrimary e)
  setPrimary e isPrimary := fun s => (.ok (), s.setPrimary e isPrimary)
  entities s := .ok s.entities
  attributeOf s e name := .ok (s.attributeOf e name)
  setAttribute e name value := fun s =>
    let (found, t) := s.setAttribute e name value
    (.ok found, t)
  stepAttribute e name step := fun s =>
    match s.stepAttribute e name step with
    | .ok (value, t) => (.ok value, t)
    | .error error => (.error error, s)
  degree s e := s.degree e
  star s e limit := s.star e limit
  counts s := .ok s.counts
  destroy := fun s => (.ok (), s.destroy)
  deepDegree s e := s.deepDegree e
  lookupRoot s root := s.lookupRoot root
  lookupAtoms s atoms root := s.lookupAtoms atoms root
  search s template := s.search template
  attributes s := s.attributes

end NumberedStore

end SemanticHypergraph
