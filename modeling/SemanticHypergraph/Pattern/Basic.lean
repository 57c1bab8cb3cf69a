import SemanticHypergraph.Entity.Reading

/-!
# Patterns

A template is an entity in which the bare atoms `*`, `@` and `&` stand for any entity, any atom and
any edge, and a bare `...` at the end of an edge stands for any further children. Everywhere else an
entity stands for itself.
-/
namespace SemanticHypergraph

/-- A bare atom that stands for entities of one sort. -/
inductive Wildcard where
  | any
  | atom
  | edge
  deriving DecidableEq, Repr

namespace Wildcard

def ofAtom (a : Atom) : Option Wildcard :=
  if !a.isBare then none
  else if a.root = "*" then some any
  else if a.root = "@" then some atom
  else if a.root = "&" then some edge
  else none

def ofEntity : Entity → Option Wildcard
  | .atom a => ofAtom a
  | .edge _ => none

def accepts : Wildcard → Entity → Bool
  | any, _ => true
  | atom, e => e.isAtom
  | edge, e => e.isEdge

end Wildcard

namespace Entity

/-- The bare atom `...`. -/
def isOpenEnd : Entity → Bool
  | .atom a => a.isBare && a.root == "..."
  | .edge _ => false

/-- The children of a template that stand for one child each, and whether further ones may follow. -/
def positional (cs : List Entity) : List Entity × Bool :=
  match cs.getLast? with
  | some c => if c.isOpenEnd then (cs.dropLast, true) else (cs, false)
  | none => (cs, false)

mutual

/-- The candidate is an instance of the template. -/
def fits (candidate : Entity) : Entity → Bool
  | .atom a =>
    match Wildcard.ofAtom a with
    | some w => w.accepts candidate
    | none => candidate == .atom a
  | .edge template =>
    match candidate with
    | .atom _ => false
    | .edge items => fitsAll items template

/-- The items are instances of the children of a template. -/
def fitsAll (items : List Entity) : List Entity → Bool
  | [] => items.isEmpty
  | p :: ps =>
    if p.isOpenEnd && ps.isEmpty then true
    else
      match items with
      | [] => false
      | i :: is => fits i p && fitsAll is ps

end

/-- An edge whose positional children are all `*`. -/
def isFullPattern : Entity → Bool
  | .atom _ => false
  | .edge cs => (positional cs).1.all fun c => Wildcard.ofEntity c == some .any

def isOpenEnded (pattern : Entity) : Bool := (positional pattern.children).2

/-- The first positional child without any pattern token. -/
def firstConcreteChild (pattern : Entity) : Option Entity :=
  (positional pattern.children).1.find? fun c => !c.isPattern

end Entity

/-- What to look for in a store. -/
inductive Pattern where
  | anyEntity
  | anyAtom
  | anyEdge
  | atom (a : Atom)
  | edge (template : Entity)
  deriving DecidableEq, Repr

namespace Pattern

def ofEntity (e : Entity) : Pattern :=
  match Wildcard.ofEntity e with
  | some .any => anyEntity
  | some .atom => anyAtom
  | some .edge => anyEdge
  | none =>
    match e with
    | .atom a => atom a
    | .edge cs => edge (.edge cs)

def parse (text : String) : Except Error Pattern := (Entity.parse text).map ofEntity

def isFull : Pattern → Bool
  | edge template => template.isFullPattern
  | _ => false

end Pattern

end SemanticHypergraph
