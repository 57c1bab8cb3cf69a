import SemanticHypergraph.Store.Transfer

/-!
# Calls on a store as data

Every call of the contract and of what is built on it, so that theorems can speak of any call and of
any run of calls.
-/
namespace SemanticHypergraph

open SemanticHypergraph.Hypergraph

variable {σ : Type} [Hypergraph σ]

/-- What a call answers. -/
inductive Answer where
  | done
  | flag (b : Bool)
  | number (n : Nat)
  | counts (c : Counts)
  | entity (e : Entity)
  | value (v : Option Value)
  | text (t : String)
  | integer (i : Int64)
  | float (x : Binary64)
  | bytes (bs : List UInt8)
  | atoms (as : List Atom)
  /-- Entities in the order of the store. -/
  | scan (es : List Entity)
  /-- What a limit leaves, with all that there is without it. -/
  | limited (found whole : List Entity)
  | rows (rs : List (Entity × Attributes))

/-- A call that only reads. -/
inductive Query where
  | name
  | contains (e : Entity)
  | isPrimary (e : Entity)
  | entities
  | attributeOf (e : Entity) (name : String)
  | degree (e : Entity)
  | star (e : Entity) (limit : Option Nat)
  | counts
  | deepDegree (e : Entity)
  | lookupRoot (root : String)
  | lookupAtoms (atoms : List Atom) (root : Option String)
  | search (template : Entity)
  | attributes
  | all
  | allAtoms
  | allEdges
  | matchPattern (p : Pattern)
  | matchText (text : String)
  | ego (center : Entity)
  | atomsWithRoot (root : String)
  | edgesWithAtoms (atoms : List Atom) (root : Option String)
  | textAttribute (e : Entity) (name default : String)
  | intAttribute (e : Entity) (name : String) (default : Int64)
  | floatAttribute (e : Entity) (name : String) (default : Binary64)
  | exportBytes

def Query.answer (s : σ) : Query → Except Error Answer
  | name => .ok (.text (Hypergraph.name s))
  | contains e => (Hypergraph.contains s e).map .flag
  | isPrimary e => (Hypergraph.isPrimary s e).map .flag
  | entities => (Hypergraph.entities s).map .scan
  | attributeOf e key => (Hypergraph.attributeOf s e key).map .value
  | degree e => (Hypergraph.degree s e).map .number
  | star e none => (Hypergraph.star s e none).map .scan
  | star e (some n) => do
    return .limited (← Hypergraph.star s e (some n)) (← Hypergraph.star s e none)
  | counts => (Hypergraph.counts s).map .counts
  | deepDegree e => (Hypergraph.deepDegree s e).map .number
  | lookupRoot root => (Hypergraph.lookupRoot s root).map .atoms
  | lookupAtoms atoms root => (Hypergraph.lookupAtoms s atoms root).map .scan
  | search template => (Hypergraph.search s template).map .scan
  | attributes => (Hypergraph.attributes s).map .rows
  | all => (Hypergraph.all s).map fun found => .scan found.toList
  | allAtoms => (Hypergraph.allAtoms s).map fun found => .scan found.toList
  | allEdges => (Hypergraph.allEdges s).map fun found => .scan found.toList
  | matchPattern p => (Hypergraph.matchPattern s p).map fun found => .scan found.toList
  | matchText text => (Hypergraph.matchText s text).map fun found => .scan found.toList
  | ego center => (Hypergraph.ego s center).map .atoms
  | atomsWithRoot root => (Hypergraph.atomsWithRoot s root).map .atoms
  | edgesWithAtoms atoms root => (Hypergraph.edgesWithAtoms s atoms root).map .scan
  | textAttribute e key default => (Hypergraph.textAttribute s e key default).map .text
  | intAttribute e key default => (Hypergraph.intAttribute s e key default).map .integer
  | floatAttribute e key default => (Hypergraph.floatAttribute s e key default).map .float
  | exportBytes => (Hypergraph.exportBytes s).map .bytes

/-- A call of the contract that may change the store. -/
inductive Change where
  | insert (e : Entity) (isPrimary : Bool)
  | delete (e : Entity)
  | setPrimary (e : Entity) (isPrimary : Bool)
  | setAttribute (e : Entity) (name : String) (value : Value)
  | stepAttribute (e : Entity) (name : String) (step : Step)
  | destroy
  | close

def Change.perform : Change → Update σ Answer
  | insert e isPrimary => do
    Hypergraph.insert e isPrimary
    return .done
  | delete e => do return .flag (← Hypergraph.delete e)
  | setPrimary e isPrimary => do
    Hypergraph.setPrimary e isPrimary
    return .done
  | setAttribute e name value => do return .flag (← Hypergraph.setAttribute e name value)
  | stepAttribute e name step => do return .value (← Hypergraph.stepAttribute e name step)
  | destroy => do
    Hypergraph.destroy
    return .done
  | close => do
    Hypergraph.close
    return .done

/-- A call of the contract or of what is built on it. -/
inductive Operation where
  | ask (q : Query)
  | change (c : Change)
  | add (e : Entity)
  | addWith (e : Entity) (isPrimary : Bool)
  | remove (e : Entity)
  | removeWith (e : Entity) (removal : Removal)
  | removeMatching (p : Pattern)
  | removeText (text : String)
  | restore (snapshot : Snapshot)
  | importBytes (bs : List UInt8)

def Operation.perform : Operation → Update σ Answer
  | ask q => Update.ask q.answer
  | change c => c.perform
  | add e => do return .entity (← Hypergraph.add e)
  | addWith e isPrimary => do return .entity (← Hypergraph.addWith e isPrimary)
  | remove e => do return .flag (← Hypergraph.remove e)
  | removeWith e removal => do return .flag (← Hypergraph.removeWith e removal)
  | removeMatching p => do return .number (← Hypergraph.removeMatching p)
  | removeText text => do return .number (← Hypergraph.removeText text)
  | restore snapshot => do return .number (← snapshot.restore)
  | importBytes bs => do return .number (← Hypergraph.importBytes bs)

/-- What is seen of one call: its answer and the content that can be exported afterwards. -/
structure Observation where
  result : Except Error Answer
  exported : Except Error (List UInt8)

/-- What is seen of a run of calls, each made on the store that the one before it left. -/
def trace : List Operation → σ → List Observation
  | [], _ => []
  | op :: ops, s => ⟨(op.perform s).1, exportBytes (op.perform s).2⟩ :: trace ops (op.perform s).2

end SemanticHypergraph
