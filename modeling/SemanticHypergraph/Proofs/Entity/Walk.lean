import SemanticHypergraph.Proofs.Entity.Containment

/-!
# The walk through an entity

The edges of an entity are found by a walk with a stack. The entity on its top is taken off, noted if it is
an edge, and replaced by its children in reverse, so that the first of them is on top. What has been noted
together with what the stack holds, listed in preorder from the top down, stays the same from turn to turn,
and each turn takes one node away. So the walk ends after as many turns as the entity has nodes, with its
edges in preorder.

An edge may be listed several times. Behind each of its places all edges among its children are listed, so
the last place of a child is behind the last place of its parent.
-/
namespace SemanticHypergraph.Entity

theorem totalWeight_reverse (es : List Entity) : totalWeight es.reverse = totalWeight es := by
  induction es with
  | nil => rfl
  | cons e es ih =>
    rw [List.reverse_cons, totalWeight_append, ih]
    simp [totalWeight, Nat.add_comm]

/-- What has been noted, and the stack with its top at the end. -/
structure Walk where
  noted : List Entity
  stack : List Entity

namespace Walk

/-- One turn. There is none once the stack is empty. -/
def turn (w : Walk) : Option Walk :=
  match w.stack.getLast? with
  | none => none
  | some (.atom _) => some { w with stack := w.stack.dropLast }
  | some (.edge cs) => some ⟨w.noted ++ [.edge cs], w.stack.dropLast ++ cs.reverse⟩

/-- The walk after a number of turns, if it has not ended before. -/
def turns : Nat → Walk → Option Walk
  | 0, w => some w
  | n + 1, w => w.turn.bind (turns n)

/-- What has been noted and, in preorder, the edges that the stack still holds. -/
def listing (w : Walk) : List Entity := w.noted ++ preorderAll w.stack.reverse

theorem turn_empty (noted : List Entity) : turn ⟨noted, []⟩ = none := rfl

theorem turn_atom (noted rest : List Entity) (a : Atom) :
    turn ⟨noted, rest ++ [.atom a]⟩ = some ⟨noted, rest⟩ := by
  simp [turn]

theorem turn_edge (noted rest cs : List Entity) :
    turn ⟨noted, rest ++ [.edge cs]⟩ = some ⟨noted ++ [.edge cs], rest ++ cs.reverse⟩ := by
  simp [turn]

/-- The step: as long as the stack is not empty there is a turn, and it keeps the listing and takes one
node from the stack. -/
theorem exists_turn {w : Walk} (h : w.stack ≠ []) : ∃ v, w.turn = some v ∧ v.listing = w.listing ∧
    totalWeight v.stack + 1 = totalWeight w.stack := by
  obtain ⟨noted, stack⟩ := w
  obtain ⟨rest, e, rfl⟩ := (List.eq_nil_or_concat stack).resolve_left h
  rw [List.concat_eq_append]
  cases e with
  | atom a =>
    refine ⟨_, turn_atom noted rest a, ?_, ?_⟩
    · simp [listing, preorderAll, preorder]
    · simp [totalWeight_append, totalWeight, weight]
  | edge cs =>
    refine ⟨_, turn_edge noted rest cs, ?_, ?_⟩
    · simp [listing, preorderAll, preorder, preorderAll_append]
    · simp [totalWeight_append, totalWeight_reverse, totalWeight, weight, Nat.add_assoc]

/-- The run, by induction on the nodes that the stack holds. -/
theorem turns_totalWeight (w : Walk) : turns (totalWeight w.stack) w = some ⟨w.listing, []⟩ := by
  generalize hn : totalWeight w.stack = n
  induction n generalizing w with
  | zero =>
    obtain ⟨noted, stack⟩ := w
    cases stack with
    | nil => simp [turns, listing, preorderAll]
    | cons e rest =>
      have hpos := weight_pos e
      simp only [totalWeight] at hn
      omega
  | succ n ih =>
    have hne : w.stack ≠ [] := by
      intro hempty
      rw [hempty] at hn
      cases hn
    obtain ⟨v, hturn, hlisting, hweight⟩ := exists_turn hne
    rw [turns, hturn, Option.bind_some, ih v (by omega), hlisting]

end Walk

/-- The entity stands at the place and at no later one. -/
structure LastAt (es : List Entity) (x : Entity) (i : Nat) : Prop where
  here : es[i]? = some x
  last : ∀ j, es[j]? = some x → j ≤ i

theorem exists_lastAt {es : List Entity} {x : Entity} (h : x ∈ es) : ∃ i, LastAt es x i := by
  induction es with
  | nil => cases h
  | cons e es ih =>
    by_cases hlater : x ∈ es
    · obtain ⟨i, hi⟩ := ih hlater
      refine ⟨i + 1, hi.here, fun j hj => ?_⟩
      cases j with
      | zero => exact Nat.zero_le _
      | succ j => exact Nat.succ_le_succ (hi.last j hj)
    · have heq : x = e := (List.mem_cons.1 h).resolve_right hlater
      refine ⟨0, by rw [heq]; rfl, fun j hj => ?_⟩
      cases j with
      | zero => exact Nat.le_refl 0
      | succ j =>
        have hmem : x ∈ es := List.mem_of_getElem? hj
        exact absurd hmem hlater

theorem ChildrenFollow.last_lt_last {es : List Entity} (h : ChildrenFollow es) {i j : Nat} {p c : Entity}
    (hp : LastAt es p i) (hc : LastAt es c j) (hchild : c ∈ p.children) (hedge : c.isEdge) : i < j := by
  obtain ⟨k, hlt, hk⟩ := h.exists_later hp.here hchild hedge
  exact Nat.lt_of_lt_of_le hlt (hc.last k hk)

/-- The walk through an entity ends after one turn for each of its nodes, and what has been noted then are
its edges in preorder, each as often as it occurs. The last place of an edge among the children of an edge
is behind the last place of that one. -/
theorem subedges_in_preorder (e : Entity) :
    (∃ w, Walk.turns e.weight ⟨[], [e]⟩ = some w ∧ w.turn = none ∧ w.noted = e.subedges) ∧
    e.subedges = e.preorder ∧
    ∀ p s : Entity, (p = e ∨ p.Inside e) → s ∈ p.children → s.isEdge →
      ∃ i j, LastAt e.subedges p i ∧ LastAt e.subedges s j ∧ i < j := by
  have hlist := subedges_eq_preorder e
  refine ⟨⟨⟨e.subedges, []⟩, ?_, Walk.turn_empty _, rfl⟩, hlist, fun p s hp hs hedge => ?_⟩
  · have hrun := Walk.turns_totalWeight ⟨[], [e]⟩
    simpa [Walk.listing, totalWeight, preorderAll, ← hlist] using hrun
  · have hfollow : ChildrenFollow e.subedges := by
      rw [hlist]
      exact childrenFollow_preorder e
    have hmem : p ∈ e.subedges := by
      rw [hlist]
      exact (mem_preorder p e).2 ⟨isEdge_of_mem_children hs, hp⟩
    obtain ⟨i, hi⟩ := exists_lastAt hmem
    obtain ⟨j, hj⟩ := exists_lastAt (hfollow.mem hmem hs hedge)
    exact ⟨i, j, hi, hj, hfollow.last_lt_last hi hj hs hedge⟩

/-- An edge and its parent that both occur several times, the edge first and the parent in two depths. -/
theorem subedges_in_preorder_repeated :
    let a : Entity := .atom { root := "a" }
    let s : Entity := .edge [a]
    let p : Entity := .edge [s, a]
    let outer : Entity := .edge [a, p]
    let e : Entity := .edge [s, p, outer]
    (p = e ∨ p.Inside e) ∧ s ∈ p.children ∧ s.isEdge ∧ e.subedges = [e, s, p, s, outer, p, s] ∧
      ∃ i j, LastAt e.subedges p i ∧ LastAt e.subedges s j ∧ i < j := by
  intro a s p outer e
  obtain ⟨-, hlist, hlast⟩ := subedges_in_preorder e
  have hp : p = e ∨ p.Inside e := .inr (.single (List.mem_cons_of_mem s List.mem_cons_self))
  have hs : s ∈ p.children := List.mem_cons_self
  exact ⟨hp, hs, rfl, hlist.trans rfl, hlast p s hp hs rfl⟩

end SemanticHypergraph.Entity
