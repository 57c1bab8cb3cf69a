import SemanticHypergraph.Entity.Printing
import SemanticHypergraph.Pattern.Basic
import SemanticHypergraph.Snapshot.Basic

/-!
# The contract of a store

A store keeps a set of entities, each with a mark that says whether it is primary and with
attributes. An edge can be put in only after its children. What is absent is answered by `false`,
`none` or an empty list; the look-ups that need an index may be left out by a store, and then fail.
-/
namespace SemanticHypergraph

structure Counts where
  atoms : Nat
  edges : Nat
  primaryAtoms : Nat
  primaryEdges : Nat
  deriving DecidableEq, Repr

/-- Numbers of entities are words of 64 bits, and the greatest one stands for all beyond. -/
def Counts.total (c : Counts) : Nat := min (c.atoms + c.edges) (Nat.pow 2 64 - 1)

/-- A change of the state that may fail part way; what was done until then stays done. -/
abbrev Update (σ α : Type) := ExceptT Error (StateM σ) α

/-- Asks the present state. -/
def Update.ask {σ α : Type} (query : σ → Except Error α) : Update σ α := fun s => (query s, s)

class Hypergraph (σ : Type) where
  name : σ → String
  contains : σ → Entity → Except Error Bool
  insert : Entity → Bool → Update σ Unit
  /-- Answers whether the entity was there. -/
  delete : Entity → Update σ Bool
  isPrimary : σ → Entity → Except Error Bool
  setPrimary : Entity → Bool → Update σ Unit
  /-- Every stored entity, in the order of the store. -/
  entities : σ → Except Error (List Entity)
  attributeOf : σ → Entity → String → Except Error (Option Value)
  /-- Answers whether the entity was there to take it. -/
  setAttribute : Entity → String → Value → Update σ Bool
  /-- Answers the new value, or nothing if the entity is absent. -/
  stepAttribute : Entity → String → Step → Update σ (Option Value)
  /-- The number of primary edges of which the entity is a child. -/
  degree : σ → Entity → Except Error Nat
  /-- The edges of which the entity is a child, no more than the limit. -/
  star : σ → Entity → Option Nat → Except Error (List Entity)
  counts : σ → Except Error Counts
  destroy : Update σ Unit
  close : Update σ Unit := pure ()
  /-- The number of primary edges that lie anywhere above the entity. -/
  deepDegree : σ → Entity → Except Error Nat := fun _ _ => .error (.unsupported "deep_degree")
  lookupRoot : σ → String → Except Error (List Atom) :=
    fun _ _ => .error (.unsupported "atoms_with_root")
  /-- The edges that have every one of the atoms among their children, and also an atom with the
  given root. -/
  lookupAtoms : σ → List Atom → Option String → Except Error (List Entity) :=
    fun _ _ _ => .error (.unsupported "edges_with_atoms")
  /-- The stored edges among which all instances of the template are. -/
  search : σ → Entity → Except Error (List Entity) := fun _ _ => .error (.unsupported "search")
  attributes : σ → Except Error (List (Entity × Attributes)) :=
    fun _ => .error (.unsupported "all_attributes")

/-- Some child of the entity is an atom with the given root, or no root is asked for. -/
def Entity.hasChildWithRoot (e : Entity) : Option String → Bool
  | none => true
  | some root => e.children.any fun c => (c.asAtom.map Atom.root) == some root

/-- The error of an edge offered before its child. -/
def danglingError (edge child : Entity) : Error := .danglingChild edge.toText child.toText

end SemanticHypergraph
