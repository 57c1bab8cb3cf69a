import Std.Data.ExtTreeSet
import SemanticHypergraph.Entity.Basic

/-!
# The order of entities

Atoms come before edges. Atoms compare by root, type and namespace, an absent part first; edges
compare child by child, and an edge that runs out comes first. Texts compare by code point, which is
the order of their UTF-8 bytes. Both orders are linear, so entities can key sorted maps.
-/
namespace SemanticHypergraph

namespace Atom

def order (a b : Atom) : Ordering :=
  compareLex (compareOn root) (compareLex (compareOn kind) (compareOn scope)) a b

instance : Ord Atom := ⟨order⟩

instance : Std.TransOrd Atom :=
  inferInstanceAs (Std.TransCmp
    (compareLex (compareOn root) (compareLex (compareOn kind) (compareOn scope))))

instance : Std.LawfulEqOrd Atom where
  eq_of_compare {a b} h := by
    change (compare a.root b.root).then
      ((compare a.kind b.kind).then (compare a.scope b.scope)) = .eq at h
    rw [Ordering.then_eq_eq, Ordering.then_eq_eq] at h
    obtain ⟨root, kind, scope⟩ := h
    cases a
    cases b
    congr
    · exact Std.LawfulEqOrd.eq_of_compare root
    · exact Std.LawfulEqOrd.eq_of_compare kind
    · exact Std.LawfulEqOrd.eq_of_compare scope

theorem order_eq_iff (a b : Atom) : a.order b = .eq ↔ a = b :=
  Std.compare_eq_iff_eq (a := a) (b := b)

theorem order_lt_trans {a b c : Atom} (h : a.order b = .lt) (h' : b.order c = .lt) :
    a.order c = .lt := by
  have ab : compare a b = .lt := h
  have bc : compare b c = .lt := h'
  have ac : compare a c = .lt := Std.TransCmp.lt_trans ab bc
  exact ac

end Atom

namespace Entity

mutual

def order : Entity → Entity → Ordering
  | .atom a, .atom b => a.order b
  | .atom _, .edge _ => .lt
  | .edge _, .atom _ => .gt
  | .edge xs, .edge ys => orderAll xs ys

def orderAll : List Entity → List Entity → Ordering
  | [], [] => .eq
  | [], _ :: _ => .lt
  | _ :: _, [] => .gt
  | x :: xs, y :: ys => (order x y).then (orderAll xs ys)

end

instance : Ord Entity := ⟨order⟩

mutual

theorem order_eq_iff : (a b : Entity) → (order a b = .eq ↔ a = b)
  | .atom a, .atom b => by simp [order, Atom.order_eq_iff]
  | .atom _, .edge _ => by simp [order]
  | .edge _, .atom _ => by simp [order]
  | .edge xs, .edge ys => by simpa [order] using orderAll_eq_iff xs ys

theorem orderAll_eq_iff : (xs ys : List Entity) → (orderAll xs ys = .eq ↔ xs = ys)
  | [], [] => by simp [orderAll]
  | [], _ :: _ => by simp [orderAll]
  | _ :: _, [] => by simp [orderAll]
  | x :: xs, y :: ys => by
    simp [orderAll, Ordering.then_eq_eq, order_eq_iff x y, orderAll_eq_iff xs ys]

end

mutual

theorem order_swap : (a b : Entity) → order a b = (order b a).swap
  | .atom a, .atom b => Std.OrientedOrd.eq_swap (a := a) (b := b)
  | .atom _, .edge _ => rfl
  | .edge _, .atom _ => rfl
  | .edge xs, .edge ys => by simpa [order] using orderAll_swap xs ys

theorem orderAll_swap : (xs ys : List Entity) → orderAll xs ys = (orderAll ys xs).swap
  | [], [] => rfl
  | [], _ :: _ => rfl
  | _ :: _, [] => rfl
  | x :: xs, y :: ys => by
    simp [orderAll, Ordering.swap_then, order_swap x y, orderAll_swap xs ys]

end

mutual

theorem order_lt_trans (a b c : Entity) (h : order a b = .lt) (h' : order b c = .lt) :
    order a c = .lt := by
  cases a with
  | atom a =>
    cases c with
    | atom c =>
      cases b with
      | atom b => exact Atom.order_lt_trans h h'
      | edge ys => simp [order] at h'
    | edge zs => rfl
  | edge xs =>
    cases b with
    | atom b => simp [order] at h
    | edge ys =>
      cases c with
      | atom c => simp [order] at h'
      | edge zs => exact orderAll_lt_trans xs ys zs h h'

theorem orderAll_lt_trans : (xs ys zs : List Entity) →
    orderAll xs ys = .lt → orderAll ys zs = .lt → orderAll xs zs = .lt
  | [], _, _ :: _ => fun _ _ => rfl
  | [], _ :: _, [] => by simp [orderAll]
  | [], [], [] => by simp [orderAll]
  | _ :: _, [], _ => by simp [orderAll]
  | _ :: _, _ :: _, [] => by simp [orderAll]
  | x :: xs, y :: ys, z :: zs => by
    simp only [orderAll, Ordering.then_eq_lt, order_eq_iff]
    rintro (h | ⟨rfl, h⟩) (h' | ⟨rfl, h'⟩)
    · exact .inl (order_lt_trans x y z h h')
    · exact .inl h
    · exact .inl h'
    · exact .inr ⟨rfl, orderAll_lt_trans xs ys zs h h'⟩

end

instance : Std.LawfulEqOrd Entity where
  compare_self {a} := (order_eq_iff a a).2 rfl
  eq_of_compare {a b} h := (order_eq_iff a b).1 h

instance : Std.TransOrd Entity where
  eq_swap {a b} := order_swap a b
  isLE_trans {a b c} h h' := by
    change (order a b).isLE at h
    change (order b c).isLE at h'
    change (order a c).isLE
    simp only [Ordering.isLE_iff_eq_lt_or_eq_eq, order_eq_iff] at *
    rcases h with h | rfl <;> rcases h' with h' | rfl
    · exact .inl (order_lt_trans a b c h h')
    · exact .inl h
    · exact .inl h'
    · exact .inr rfl

mutual

/-- The set with the atoms of the entity added. -/
def addAtoms (set : Std.ExtTreeSet Atom) : Entity → Std.ExtTreeSet Atom
  | .atom a => set.insert a
  | .edge cs => addAtomsOf set cs

def addAtomsOf (set : Std.ExtTreeSet Atom) : List Entity → Std.ExtTreeSet Atom
  | [] => set
  | c :: cs => addAtomsOf (addAtoms set c) cs

end

/-- The atoms at any depth, in order and each once. -/
def atoms (e : Entity) : List Atom := (addAtoms ∅ e).toList

end Entity

/-- Sorted, equal entities merged. -/
def sortEntities (es : List Entity) : List Entity := (Std.ExtTreeSet.ofList es).toList

end SemanticHypergraph
