import Mathlib.Data.List.Basic
import Mathlib.Logic.Relation
import SemanticHypergraph.Entity.Subedges

/-!
# Containment

What lies inside an entity at any depth. The edges of an entity are listed in preorder, so every
occurrence of an edge is followed by occurrences of all edges among its children.
-/
namespace SemanticHypergraph.Entity

/-- The first entity is a child of the second, or a child of what is inside it. -/
def Inside (x e : Entity) : Prop := Relation.TransGen (fun a b => a ∈ b.children) x e

theorem isEdge_of_mem_children {c e : Entity} (h : c ∈ e.children) : e.isEdge := by
  cases e with
  | atom a => cases h
  | edge cs => rfl

theorem weight_le_totalWeight {c : Entity} {cs : List Entity} (h : c ∈ cs) :
    c.weight ≤ totalWeight cs := by
  induction cs with
  | nil => cases h
  | cons d cs ih =>
    rw [totalWeight]
    rcases List.mem_cons.1 h with rfl | h
    · omega
    · have hle := ih h
      omega

theorem weight_lt_of_mem_children {c e : Entity} (h : c ∈ e.children) : c.weight < e.weight := by
  cases e with
  | atom a => cases h
  | edge cs =>
    have hle : c.weight ≤ totalWeight cs := weight_le_totalWeight h
    rw [weight]
    omega

theorem Inside.weight_lt {x e : Entity} (h : Inside x e) : x.weight < e.weight := by
  induction h with
  | single h => exact weight_lt_of_mem_children h
  | tail _ h ih => exact Nat.lt_trans ih (weight_lt_of_mem_children h)

/-- Nothing is inside itself. -/
theorem not_inside_self (e : Entity) : ¬ Inside e e := fun h => Nat.lt_irrefl _ h.weight_lt

/-- What is inside an entity is one of its children or inside one of them. -/
theorem inside_iff {x e : Entity} : Inside x e ↔ ∃ c ∈ e.children, x = c ∨ Inside x c := by
  constructor
  · intro h
    cases h with
    | single h => exact ⟨x, h, .inl rfl⟩
    | tail h hc => exact ⟨_, hc, .inr h⟩
  · rintro ⟨c, hc, rfl | h⟩
    · exact .single hc
    · exact h.tail hc

/-- Nothing inside an entity without pattern tokens holds one. -/
theorem isPattern_of_inside {x e : Entity} (h : Inside x e) (he : e.isPattern = false) :
    x.isPattern = false := by
  induction h with
  | single h => exact isPattern_of_mem_children h he
  | tail _ h ih => exact ih (isPattern_of_mem_children h he)

/-- A pattern token occurs in an entity if the entity is one or one is inside it. -/
theorem isPattern_iff : (e : Entity) →
    (e.isPattern ↔ ∃ a : Atom, a.isPatternToken ∧ (e = .atom a ∨ Inside (.atom a) e))
  | .atom b => by
    have hinside : ∀ a : Atom, ¬ Inside (.atom a) (.atom b) := by
      intro a h
      obtain ⟨c, hc, -⟩ := inside_iff.1 h
      cases hc
    simp [isPattern, hinside]
  | .edge cs => by
    rw [isPattern, anyPattern_eq_any, List.any_eq_true]
    constructor
    · rintro ⟨c, hc, hpattern⟩
      obtain ⟨a, ha, hin⟩ := (isPattern_iff c).1 hpattern
      exact ⟨a, ha, .inr (inside_iff.2 ⟨c, hc, hin.imp_left Eq.symm⟩)⟩
    · rintro ⟨a, ha, heq | hin⟩
      · cases heq
      · obtain ⟨c, hc, hin⟩ := inside_iff.1 hin
        exact ⟨c, hc, (isPattern_iff c).2 ⟨a, ha, hin.imp_left Eq.symm⟩⟩
termination_by e => e.weight
decreasing_by all_goals exact weight_lt_of_mem_children hc

theorem children_of_depth_eq_zero {e : Entity} (h : e.depth = 0) : e.children = [] := by
  rw [List.eq_nil_iff_forall_not_mem]
  intro c hc
  have hlt := depth_lt_of_mem_children hc
  omega

theorem subedgesFrom_eq (found pending : List Entity) :
    subedgesFrom found pending = found.reverse ++ preorderAll pending := by
  fun_induction subedgesFrom found pending with
  | case1 found => simp [preorderAll]
  | case2 found a rest ih => rw [ih, preorderAll, preorder, List.nil_append]
  | case3 found cs rest ih =>
    rw [ih, preorderAll, preorder, preorderAll_append]
    simp

/-- The walk with a list of entities still to visit lists the edges in preorder. -/
theorem subedges_eq_preorder (e : Entity) : e.subedges = e.preorder := by
  rw [subedges, subedgesFrom_eq, preorderAll, preorderAll]
  simp

/-- Without the entity itself the edges inside it are left. -/
theorem drop_subedges (e : Entity) : e.subedges.drop 1 = preorderAll e.children := by
  rw [subedges_eq_preorder]
  cases e <;> rfl

mutual

theorem mem_preorder (x : Entity) : (e : Entity) →
    (x ∈ e.preorder ↔ x.isEdge ∧ (x = e ∨ Inside x e))
  | .atom a => by
    rw [inside_iff]
    cases x <;> simp [preorder, isEdge]
  | .edge cs => by
    have hinside : Inside x (.edge cs) ↔ ∃ c ∈ cs, x = c ∨ Inside x c := inside_iff
    rw [preorder, List.mem_cons, mem_preorderAll x cs, hinside]
    constructor
    · rintro (rfl | ⟨hx, h⟩)
      · exact ⟨rfl, .inl rfl⟩
      · exact ⟨hx, .inr h⟩
    · rintro ⟨hx, h | h⟩
      · exact .inl h
      · exact .inr ⟨hx, h⟩

theorem mem_preorderAll (x : Entity) : (es : List Entity) →
    (x ∈ preorderAll es ↔ x.isEdge ∧ ∃ e ∈ es, x = e ∨ Inside x e)
  | [] => by simp [preorderAll]
  | e :: es => by
    rw [preorderAll, List.mem_append, mem_preorder x e, mem_preorderAll x es,
      List.exists_mem_cons_iff, and_or_left]
    grind

end

/-- The edges that a deep removal goes through are those inside the entity. -/
theorem mem_drop_subedges {x e : Entity} : x ∈ e.subedges.drop 1 ↔ x.isEdge ∧ Inside x e := by
  rw [drop_subedges, mem_preorderAll, inside_iff]

/-- Each edge of the list is followed by every edge among its children. -/
def ChildrenFollow : List Entity → Prop
  | [] => True
  | e :: es => (∀ c ∈ e.children, c.isEdge → c ∈ es) ∧ ChildrenFollow es

theorem ChildrenFollow.append {xs ys : List Entity} (hx : ChildrenFollow xs)
    (hy : ChildrenFollow ys) : ChildrenFollow (xs ++ ys) := by
  induction xs with
  | nil => exact hy
  | cons x xs ih =>
    refine ⟨fun c hc he => ?_, ih hx.2⟩
    exact List.mem_append_left ys (hx.1 c hc he)

/-- Behind each place of an edge there is one of every edge among its children. -/
theorem ChildrenFollow.exists_later {es : List Entity} (h : ChildrenFollow es) {i : Nat} {p c : Entity}
    (hp : es[i]? = some p) (hc : c ∈ p.children) (hedge : c.isEdge) :
    ∃ j, i < j ∧ es[j]? = some c := by
  induction es generalizing i with
  | nil => cases hp
  | cons e es ih =>
    obtain ⟨hchildren, hrest⟩ := h
    cases i with
    | zero =>
      cases hp
      obtain ⟨j, hj⟩ := List.mem_iff_getElem?.1 (hchildren c hc hedge)
      exact ⟨j + 1, Nat.succ_pos j, hj⟩
    | succ i =>
      obtain ⟨j, hlt, hj⟩ := ih hrest hp
      exact ⟨j + 1, Nat.succ_lt_succ hlt, hj⟩

/-- In such a list the edges among the children of a member are members. -/
theorem ChildrenFollow.mem {es : List Entity} (h : ChildrenFollow es) {p c : Entity} (hp : p ∈ es)
    (hc : c ∈ p.children) (he : c.isEdge) : c ∈ es := by
  obtain ⟨i, hi⟩ := List.mem_iff_getElem?.1 hp
  obtain ⟨j, -, hj⟩ := h.exists_later hi hc he
  exact List.mem_of_getElem? hj

mutual

theorem childrenFollow_preorder : (e : Entity) → ChildrenFollow e.preorder
  | .atom _ => trivial
  | .edge cs => by
    -- the whole list of the edges inside follows at once
    refine ⟨fun c hc he => ?_, childrenFollow_preorderAll cs⟩
    exact (mem_preorderAll c cs).2 ⟨he, c, hc, .inl rfl⟩

theorem childrenFollow_preorderAll : (es : List Entity) → ChildrenFollow (preorderAll es)
  | [] => trivial
  | e :: es => (childrenFollow_preorder e).append (childrenFollow_preorderAll es)

end

end SemanticHypergraph.Entity
