import Std.Data.ExtTreeMap
import Std.Data.ExtTreeSet

/-!
# Indexes

An index relates keys to members. It is kept as a sorted map from each key to the non-empty sorted
set of its members, so two indexes with the same pairs are equal. Following an index upwards from
some keys reaches every key exactly once.
-/
namespace SemanticHypergraph

structure Index (κ ν : Type) [Ord κ] [Ord ν] [Std.TransOrd κ] [Std.TransOrd ν] where
  rows : Std.ExtTreeMap κ (Std.ExtTreeSet ν)

namespace Index

variable {κ ν : Type} [Ord κ] [Ord ν] [Std.TransOrd κ] [Std.TransOrd ν]

def empty : Index κ ν := ⟨∅⟩

/-- The members of a key. -/
def membersOf (i : Index κ ν) (k : κ) : Std.ExtTreeSet ν := i.rows[k]?.getD ∅

/-- The members of a key, in order. -/
def get (i : Index κ ν) (k : κ) : List ν := (i.membersOf k).toList

def add (i : Index κ ν) (k : κ) (v : ν) : Index κ ν := ⟨i.rows.insert k ((i.membersOf k).insert v)⟩

/-- A key that loses its last member goes with it. -/
def remove (i : Index κ ν) (k : κ) (v : ν) : Index κ ν :=
  let members := (i.membersOf k).erase v
  if members.isEmpty then ⟨i.rows.erase k⟩ else ⟨i.rows.insert k members⟩

theorem membersOf_add [DecidableEq κ] [Std.LawfulEqOrd κ] (i : Index κ ν) (k l : κ) (v : ν) :
    (i.add k v).membersOf l = if k = l then (i.membersOf k).insert v else i.membersOf l := by
  simp only [add, membersOf, Std.ExtTreeMap.getElem?_insert, Std.compare_eq_iff_eq]
  split <;> rfl

theorem membersOf_remove [DecidableEq κ] [Std.LawfulEqOrd κ] (i : Index κ ν) (k l : κ) (v : ν) :
    (i.remove k v).membersOf l = if k = l then (i.membersOf k).erase v else i.membersOf l := by
  unfold remove
  simp only
  split
  · next h =>
    simp only [membersOf, Std.ExtTreeMap.getElem?_erase, Std.compare_eq_iff_eq]
    split
    · next e =>
      subst e
      exact (Std.ExtTreeSet.isEmpty_iff.1 h).symm
    · rfl
  · simp only [membersOf, Std.ExtTreeMap.getElem?_insert, Std.compare_eq_iff_eq]
    split <;> rfl

/-- The keys outside a set. -/
def keysOutside (i : Index κ κ) (seen : Std.ExtTreeSet κ) : List κ :=
  i.rows.keys.filter fun k => !seen.contains k

theorem keysOutside_insert_lt [Std.LawfulEqOrd κ] (i : Index κ κ) (seen : Std.ExtTreeSet κ) (x : κ)
    (key : x ∈ i.rows) (new : x ∉ seen) :
    (i.keysOutside (seen.insert x)).length < (i.keysOutside seen).length := by
  have split : i.keysOutside (seen.insert x) =
      (i.keysOutside seen).filter fun k => !(compare x k == .eq) := by
    simp [keysOutside, List.filter_filter, Std.ExtTreeSet.contains_insert]
  have mem : x ∈ i.keysOutside seen := by
    simp only [keysOutside, List.mem_filter, Std.ExtTreeMap.mem_keys]
    exact ⟨key, by simpa [← Std.ExtTreeSet.contains_iff_mem] using new⟩
  rw [split]
  refine Nat.lt_of_le_of_ne (List.length_filter_le _ _) fun e => ?_
  have := List.length_filter_eq_length_iff.1 e x mem
  simp at this

/-- The keys that can be reached from those in `pending`, together with those already `seen`; the
nearest are visited first. -/
def climb [Std.LawfulEqOrd κ] (i : Index κ κ) (seen : Std.ExtTreeSet κ) :
    List κ → Std.ExtTreeSet κ
  | [] => seen
  | x :: pending =>
    if x ∈ seen then i.climb seen pending
    else i.climb (seen.insert x) (pending ++ i.get x)
termination_by pending => ((i.keysOutside seen).length, pending.length)
decreasing_by
  · exact Prod.Lex.right _ (by simp)
  · next new =>
    by_cases key : x ∈ i.rows
    · exact Prod.Lex.left _ _ (keysOutside_insert_lt i seen x key new)
    · have none : i.get x = [] := by
        simp [get, membersOf, Std.ExtTreeMap.getElem?_eq_none key]
      have same : (i.keysOutside (seen.insert x)).length = (i.keysOutside seen).length := by
        unfold keysOutside
        congr 1
        apply List.filter_congr
        intro k hk
        have : ¬ x = k := fun e => key (e ▸ Std.ExtTreeMap.mem_keys.1 hk)
        simp [Std.ExtTreeSet.contains_insert, this]
      rw [same, none]
      exact Prod.Lex.right _ (by simp)

/-- Everything above a key. -/
def above [Std.LawfulEqOrd κ] (i : Index κ κ) (k : κ) : List κ := (i.climb ∅ (i.get k)).toList

end Index

end SemanticHypergraph
