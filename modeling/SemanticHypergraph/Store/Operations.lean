import SemanticHypergraph.Entity.Subedges
import SemanticHypergraph.Pattern.Selection
import SemanticHypergraph.Store.Contract

/-!
# Operations on any store

What is built from the contract alone: adding an entity together with the children it lacks, removal
with or without the edges inside, queries by pattern and typed reading of attributes.
-/
namespace SemanticHypergraph.Hypergraph

variable {σ : Type} [Hypergraph σ]

mutual

/-- Inserts the entity after the children that are absent; those become non-primary. -/
def addMissing (isPrimary : Bool) : Entity → Update σ Unit
  | .atom a => insert (.atom a) isPrimary
  | .edge cs => do
    addMissingAll cs
    insert (.edge cs) isPrimary

def addMissingAll : List Entity → Update σ Unit
  | [] => pure ()
  | c :: cs => do
    unless ← Update.ask (contains · c) do
      addMissing false c
    addMissingAll cs

end

/-- Adds an entity, which must not hold a pattern token. -/
def addWith (e : Entity) (isPrimary : Bool) : Update σ Entity := do
  if e.isPattern then
    throw (.invalidEntity ("pattern syntax cannot be stored: " ++ e.toText))
  addMissing isPrimary e
  return e

theorem addWith_eq_throw {e : Entity} (he : e.isPattern) (isPrimary : Bool) :
    (addWith e isPrimary : Update σ Entity) =
      throw (.invalidEntity ("pattern syntax cannot be stored: " ++ e.toText)) := by
  simp only [addWith, he, ↓reduceIte]
  rfl

def add (e : Entity) : Update σ Entity := addWith e true

/-- How far removal reaches. -/
inductive Removal where
  /-- The entity alone. -/
  | shallow
  /-- The entity and every edge inside it. -/
  | deep
  /-- The entity and the edges inside it that no other edge holds. -/
  | deepUnshared
  deriving DecidableEq, Repr

/-- Deletes the edges in order, passing over those that a stored edge holds if `keepShared`. -/
def deleteEdges (keepShared : Bool) : List Entity → Update σ Unit
  | [] => pure ()
  | e :: es => do
    let shared ← if keepShared then
        Update.ask fun s => (star s e (some 1)).map fun found => !found.isEmpty
      else pure false
    unless shared do
      let _ ← delete e
    deleteEdges keepShared es

/-- Answers whether the entity itself was there. Deep removal takes no atom but the entity. -/
def removeWith (e : Entity) (removal : Removal) : Update σ Bool := do
  let existed ← delete e
  match removal with
  | .shallow => pure ()
  | .deep => deleteEdges false (e.subedges.drop 1)
  | .deepUnshared => deleteEdges true (e.subedges.drop 1)
  return existed

def remove (e : Entity) : Update σ Bool := removeWith e .shallow

def all (s : σ) : Except Error Selection := (entities s).map .all

def allAtoms (s : σ) : Except Error Selection := (entities s).map .atoms

def allEdges (s : σ) : Except Error Selection := (entities s).map .edges

/-- The stored entities that a pattern asks for. -/
def matchPattern (s : σ) : Pattern → Except Error Selection
  | .anyEntity => all s
  | .anyAtom => allAtoms s
  | .anyEdge => allEdges s
  | .atom a => do
    return if ← contains s (.atom a) then .all [.atom a] else .empty
  | .edge template =>
    if template.isFullPattern then (entities s).map (.instances · template)
    else (search s template).map (.instances · template)

def matchText (s : σ) (pattern : String) : Except Error Selection :=
  (Pattern.parse pattern).bind (matchPattern s)

/-- The atoms of all edges that hold the entity, in order and each once. -/
def ego (s : σ) (center : Entity) : Except Error (List Atom) := do
  return ((← star s center none).foldl Entity.addAtoms ∅).toList

/-- Removes entities one by one and answers how many were there. -/
def removeAll (removed : Nat) : List Entity → Update σ Nat
  | [] => pure removed
  | e :: es => do removeAll (if ← remove e then removed + 1 else removed) es

/-- Removes what the pattern asks for at the start; what is added meanwhile stays. -/
def removeMatching (pattern : Pattern) : Update σ Nat := do
  removeAll 0 (← Update.ask (matchPattern · pattern)).toList

def removeText (pattern : String) : Update σ Nat := do
  match Pattern.parse pattern with
  | .ok p => removeMatching p
  | .error e => throw e

/-- Whether the entity is there, and whether it is primary. -/
def presence (s : σ) (e : Entity) : Except Error (Bool × Bool) := do
  let found ← contains s e
  return (found, ← if found then isPrimary s e else pure false)

/-- The degree of the entity, or its deep degree. -/
def degreeOf (s : σ) (e : Entity) (isDeep : Bool) : Except Error Nat :=
  if isDeep then deepDegree s e else degree s e

/-- No atom has an empty root. -/
def atomsWithRoot (s : σ) (root : String) : Except Error (List Atom) :=
  if root.isEmpty then .ok [] else lookupRoot s root

def edgesWithAtoms (s : σ) (atoms : List Atom) (root : Option String) :
    Except Error (List Entity) := lookupAtoms s atoms root

/-- The text of an attribute, or `default` if there is none. -/
def textAttribute (s : σ) (e : Entity) (name default : String) : Except Error String := do
  return ((← attributeOf s e name).map Value.toText).getD default

/-- An attribute as an integer, or `default` if it is absent or none. -/
def intAttribute (s : σ) (e : Entity) (name : String) (default : Int64) : Except Error Int64 := do
  return ((← attributeOf s e name).bind Value.toInt?).getD default

/-- An attribute as a number, or `default` if it is absent or none. -/
def floatAttribute (s : σ) (e : Entity) (name : String) (default : Binary64) :
    Except Error Binary64 := do
  return ((← attributeOf s e name).bind Value.toFloat?).getD default

end SemanticHypergraph.Hypergraph
