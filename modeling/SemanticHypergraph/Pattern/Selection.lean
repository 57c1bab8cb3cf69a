import SemanticHypergraph.Pattern.Basic

/-!
# Selections

A selection is a list of candidates that is still to be sifted by one test. A template of which only
the number of children matters is tested by that number alone.
-/
namespace SemanticHypergraph

/-- A test on entities, as cheap as what is looked for allows. -/
inductive Sieve where
  | everything
  | atoms
  | edges
  /-- Edges with `length` children, or at least so many if `isOpen`. -/
  | arity (length : Nat) (isOpen : Bool)
  | structural (template : Entity)
  deriving DecidableEq, Repr

namespace Sieve

def accepts : Sieve → Entity → Bool
  | everything, _ => true
  | atoms, e => e.isAtom
  | edges, e => e.isEdge
  | arity n isOpen, e => e.isEdge && if isOpen then n ≤ e.arity else e.arity == n
  | structural template, e => e.fits template

/-- The cheapest test for the instances of a template. -/
def ofTemplate (template : Entity) : Sieve :=
  if template.isFullPattern then
    let (fixed, isOpen) := Entity.positional template.children
    if isOpen && fixed.isEmpty then edges else arity fixed.length isOpen
  else structural template

end Sieve

structure Selection where
  candidates : List Entity
  sieve : Sieve

namespace Selection

def empty : Selection := ⟨[], .everything⟩

def all (candidates : List Entity) : Selection := ⟨candidates, .everything⟩

def atoms (candidates : List Entity) : Selection := ⟨candidates, .atoms⟩

def edges (candidates : List Entity) : Selection := ⟨candidates, .edges⟩

def instances (candidates : List Entity) (template : Entity) : Selection :=
  ⟨candidates, .ofTemplate template⟩

/-- The next entity that passes, and what is left to sift. -/
def next? (s : Selection) : Option (Entity × Selection) :=
  match s.candidates.dropWhile fun c => !s.sieve.accepts c with
  | [] => none
  | c :: rest => some (c, { s with candidates := rest })

/-- All entities that pass, in order. -/
def toList (s : Selection) : List Entity := s.candidates.filter s.sieve.accepts

/-- Bounds on the number of entities still to come, known before any is tested. -/
def sizeBounds (s : Selection) : Nat × Nat := (0, s.candidates.length)

theorem sizeBounds_enclose (s : Selection) :
    s.sizeBounds.1 ≤ s.toList.length ∧ s.toList.length ≤ s.sizeBounds.2 := by
  simp [sizeBounds, toList, List.length_filter_le]

end Selection

end SemanticHypergraph
