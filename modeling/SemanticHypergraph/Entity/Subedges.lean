import SemanticHypergraph.Entity.Basic

/-!
# The edges inside an entity

`subedges` walks the tree with a list of entities still to visit; `preorder` lists the same edges by
recursion, each edge before the edges inside it.
-/
namespace SemanticHypergraph.Entity

/-- The edges found so far, latest first, and then those inside the entities still to visit. -/
def subedgesFrom (found : List Entity) : List Entity → List Entity
  | [] => found.reverse
  | .atom _ :: rest => subedgesFrom found rest
  | .edge cs :: rest => subedgesFrom (.edge cs :: found) (cs ++ rest)
termination_by pending => totalWeight pending
decreasing_by
  · simp [totalWeight, weight]
  · simp [totalWeight, weight, totalWeight_append]

/-- Every occurrence of an edge, the entity itself first if it is one. -/
def subedges (e : Entity) : List Entity := subedgesFrom [] [e]

mutual

def preorder : Entity → List Entity
  | .atom _ => []
  | .edge cs => .edge cs :: preorderAll cs

def preorderAll : List Entity → List Entity
  | [] => []
  | c :: cs => preorder c ++ preorderAll cs

end

theorem preorderAll_append (xs ys : List Entity) :
    preorderAll (xs ++ ys) = preorderAll xs ++ preorderAll ys := by
  induction xs with
  | nil => rfl
  | cons x xs ih => simp [preorderAll, ih]

end SemanticHypergraph.Entity
