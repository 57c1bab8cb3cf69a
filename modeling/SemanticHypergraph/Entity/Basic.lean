import SemanticHypergraph.Error

/-!
# Entities

An atom is a root with an optional type and an optional namespace; an edge is a sequence of
entities. Both are plain values: an edge is named by its children, so the same edge written twice is
one entity.
-/
namespace SemanticHypergraph

/-- `scope` is the namespace of the atom. -/
structure Atom where
  root : String
  kind : Option String := none
  scope : Option String := none
  deriving DecidableEq, Repr

inductive Entity where
  | atom (atom : Atom)
  | edge (children : List Entity)
  deriving Repr, Inhabited

/-- The role that the first letter of a type stands for. -/
inductive TypeCode where
  | concept
  | predicate
  | modifier
  | builder
  | trigger
  | conjunction
  | relation
  | specifier
  | other (letter : Char)
  deriving DecidableEq, Repr

def TypeCode.ofChar : Char → TypeCode
  | 'c' => concept
  | 'p' => predicate
  | 'm' => modifier
  | 'b' => builder
  | 't' => trigger
  | 'j' => conjunction
  | 'r' => relation
  | 's' => specifier
  | c => other c

namespace Atom

/-- No type and no namespace: the form in which the pattern tokens are written. -/
def isBare (a : Atom) : Bool := a.kind.isNone && a.scope.isNone

def typeCode (a : Atom) : Option TypeCode :=
  a.kind.bind fun k => k.toList.head?.map TypeCode.ofChar

end Atom

/-- The tokens that stand for something else than themselves when they are bare atoms. -/
def patternTokens : List String := ["*", "@", "&", "..."]

def Atom.isPatternToken (a : Atom) : Bool := a.isBare && patternTokens.contains a.root

namespace Entity

mutual

/-- The two trees have the same shape and the same atoms. -/
def same : Entity → Entity → Bool
  | .atom a, .atom b => decide (a = b)
  | .edge xs, .edge ys => sameAll xs ys
  | .atom _, .edge _ => false
  | .edge _, .atom _ => false

def sameAll : List Entity → List Entity → Bool
  | [], [] => true
  | x :: xs, y :: ys => same x y && sameAll xs ys
  | [], _ :: _ => false
  | _ :: _, [] => false

end

mutual

theorem same_iff_eq : (a b : Entity) → (same a b = true ↔ a = b)
  | .atom a, .atom b => by simp [same]
  | .edge xs, .edge ys => by simpa [same] using sameAll_iff_eq xs ys
  | .atom _, .edge _ => by simp [same]
  | .edge _, .atom _ => by simp [same]

theorem sameAll_iff_eq : (xs ys : List Entity) → (sameAll xs ys = true ↔ xs = ys)
  | [], [] => by simp [sameAll]
  | x :: xs, y :: ys => by simp [sameAll, same_iff_eq x y, sameAll_iff_eq xs ys]
  | [], _ :: _ => by simp [sameAll]
  | _ :: _, [] => by simp [sameAll]

end

instance : DecidableEq Entity := fun a b => decidable_of_iff _ (same_iff_eq a b)

/-- An edge as a caller builds it: at least one child. -/
def edge? (children : List Entity) : Except Error Entity :=
  if children.isEmpty then .error (.invalidEntity "an edge needs at least one child")
  else .ok (.edge children)

def isAtom : Entity → Bool
  | .atom _ => true
  | .edge _ => false

def isEdge : Entity → Bool
  | .atom _ => false
  | .edge _ => true

def asAtom : Entity → Option Atom
  | .atom a => some a
  | .edge _ => none

def children : Entity → List Entity
  | .atom _ => []
  | .edge cs => cs

def arity (e : Entity) : Nat := e.children.length

def connector (e : Entity) : Option Entity := e.children.head?

/-- The type code of the atom reached by following first children. -/
def typeCode : Entity → Option TypeCode
  | .atom a => a.typeCode
  | .edge [] => none
  | .edge (c :: _) => typeCode c

mutual

/-- Levels of edges; an atom has none. -/
def depth : Entity → Nat
  | .atom _ => 0
  | .edge cs => maxDepth 0 cs + 1

/-- The greatest of `n` and the depths of the entities. -/
def maxDepth (n : Nat) : List Entity → Nat
  | [] => n
  | c :: cs => maxDepth (max n (depth c)) cs

end

mutual

/-- A pattern token occurs somewhere. -/
def isPattern : Entity → Bool
  | .atom a => a.isPatternToken
  | .edge cs => anyPattern cs

def anyPattern : List Entity → Bool
  | [] => false
  | c :: cs => isPattern c || anyPattern cs

end

mutual

/-- Nodes of the tree. -/
def weight : Entity → Nat
  | .atom _ => 1
  | .edge cs => totalWeight cs + 1

def totalWeight : List Entity → Nat
  | [] => 0
  | c :: cs => weight c + totalWeight cs

end

@[simp] theorem children_atom (a : Atom) : (atom a).children = [] := rfl

@[simp] theorem children_edge (cs : List Entity) : (edge cs).children = cs := rfl

theorem maxDepth_le {cs : List Entity} {m n : Nat} :
    maxDepth m cs ≤ n ↔ m ≤ n ∧ ∀ c ∈ cs, depth c ≤ n := by
  induction cs generalizing m with
  | nil => simp [maxDepth]
  | cons c cs ih => rw [maxDepth, ih, Nat.max_le, List.forall_mem_cons, and_assoc]

theorem depth_edge_le {cs : List Entity} {n : Nat} :
    depth (.edge cs) ≤ n + 1 ↔ ∀ c ∈ cs, depth c ≤ n := by
  simp [depth, maxDepth_le]

theorem anyPattern_eq_any (cs : List Entity) : anyPattern cs = cs.any isPattern := by
  induction cs with
  | nil => rfl
  | cons c cs ih => simp [anyPattern, ih]

theorem depth_lt_of_mem_children {c e : Entity} (h : c ∈ e.children) : c.depth < e.depth := by
  cases e with
  | atom a => cases h
  | edge cs => exact Nat.lt_succ_of_le ((maxDepth_le.1 (Nat.le_refl _)).2 c h)

theorem isPattern_of_mem_children {c e : Entity} (h : c ∈ e.children) (he : e.isPattern = false) :
    c.isPattern = false := by
  cases e with
  | atom a => cases h
  | edge cs =>
    rw [isPattern, anyPattern_eq_any, List.any_eq_false] at he
    exact Bool.eq_false_iff.2 (he c h)

theorem totalWeight_append (xs ys : List Entity) :
    totalWeight (xs ++ ys) = totalWeight xs + totalWeight ys := by
  induction xs with
  | nil => simp [totalWeight]
  | cons c cs ih => simp [totalWeight, ih, Nat.add_assoc]

theorem weight_pos (e : Entity) : 0 < e.weight := by
  cases e <;> simp [weight]

end Entity

end SemanticHypergraph
