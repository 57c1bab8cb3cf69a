import Mathlib.Data.List.Nodup
import Mathlib.Data.List.Perm.Basic
import Mathlib.Logic.Relation
import SemanticHypergraph.Store.Index

/-!
# Sorted tables and indexes

A sorted list is determined by its members, so a look-up in an index equals a filtered scan as soon
as both have the same members. Members of an index are followed through runs of additions and
removals, and through a climb, which finds exactly what a chain of rows leads to.
-/
namespace SemanticHypergraph

section Sorted

variable {κ ν : Type} [Ord κ]

/-- Strictly ascending. -/
def Ascending (xs : List κ) : Prop := xs.Pairwise fun a b => compare a b = .lt

theorem Ascending.filter {xs : List κ} (h : Ascending xs) (p : κ → Bool) :
    Ascending (xs.filter p) := List.Pairwise.filter p h

theorem ascending_keys [Std.TransOrd κ] (t : Std.ExtTreeMap κ ν) : Ascending t.keys :=
  Std.ExtTreeMap.ordered_keys

theorem ascending_toList [Std.TransOrd κ] (t : Std.ExtTreeSet κ) : Ascending t.toList :=
  Std.ExtTreeSet.ordered_toList

variable [Std.LawfulEqOrd κ]

theorem Ascending.nodup {xs : List κ} (h : Ascending xs) : xs.Nodup := by
  refine List.Pairwise.imp ?_ h
  intro a b hab heq
  have hself : compare b b = .eq := Std.ReflCmp.compare_self
  rw [heq, hself] at hab
  cases hab

variable [Std.TransOrd κ]

/-- What is listed in the order of its keys is determined by its members. -/
theorem eq_of_ascending_map {α : Type} (key : α → κ) {xs ys : List α}
    (hx : Ascending (xs.map key)) (hy : Ascending (ys.map key)) (h : ∀ a, a ∈ xs ↔ a ∈ ys) :
    xs = ys := by
  have hp : xs.Perm ys :=
    (List.perm_ext_iff_of_nodup hx.nodup.of_map hy.nodup.of_map).2 h
  refine hp.eq_of_pairwise ?_ (List.pairwise_map.1 hx) (List.pairwise_map.1 hy)
  intro a b _ _ hab hba
  have hgt : compare (key b) (key a) = .gt := Std.OrientedCmp.gt_of_lt hab
  rw [hgt] at hba
  cases hba

theorem Ascending.ext {xs ys : List κ} (hx : Ascending xs) (hy : Ascending ys)
    (h : ∀ k, k ∈ xs ↔ k ∈ ys) : xs = ys := by
  rw [← List.map_id xs] at hx
  rw [← List.map_id ys] at hy
  exact eq_of_ascending_map id hx hy h

theorem ascending_mergeSort {xs : List κ} (h : xs.Nodup) :
    Ascending (xs.mergeSort fun a b => (compare a b).isLE) := by
  have hle : (xs.mergeSort fun a b => (compare a b).isLE).Pairwise
      fun a b => (compare a b).isLE := by
    refine List.pairwise_mergeSort ?_ ?_ xs
    · intro a b c
      exact Std.TransCmp.isLE_trans
    · intro a b
      have hswap : compare b a = (compare a b).swap := Std.OrientedCmp.eq_swap
      rw [hswap]
      cases compare a b <;> rfl
  have hne : (xs.mergeSort fun a b => (compare a b).isLE).Nodup :=
    (List.mergeSort_perm xs _).nodup_iff.2 h
  refine List.Pairwise.imp₂ ?_ hle hne
  intro a b hab hab'
  have : compare a b ≠ .eq := fun heq => hab' (Std.LawfulEqOrd.eq_of_compare heq)
  revert hab this
  cases compare a b <;> simp

theorem getElem?_of_mem_toList {t : Std.ExtTreeMap κ ν} {p : κ × ν} (h : p ∈ t.toList) :
    t[p.1]? = some p.2 := Std.ExtTreeMap.mem_toList_iff_getElem?_eq_some.1 h

/-- Inserting the rows of a table lets them hold before what was there. -/
theorem foldl_insert_toList [DecidableEq κ] (old new : Std.ExtTreeMap κ ν) :
    new.toList.foldl (fun all p => all.insert p.1 p.2) old = old ∪ new := by
  rw [← Std.ExtTreeMap.insertMany_list_eq_foldl]
  apply Std.ExtTreeMap.ext_getElem?
  intro k
  rw [Std.ExtTreeMap.getElem?_union]
  cases h : new[k]? with
  | none =>
    have hnot : (new.toList.map Prod.fst).contains k = false := by
      rw [Std.ExtTreeMap.map_fst_toList_eq_keys]
      simpa using h
    rw [Std.ExtTreeMap.getElem?_insertMany_list_of_contains_eq_false hnot, Option.none_or]
  | some v =>
    have hmem := Std.ExtTreeMap.mem_toList_iff_getElem?_eq_some.2 h
    exact Std.ExtTreeMap.getElem?_insertMany_list_of_mem Std.ReflCmp.compare_self
      Std.ExtTreeMap.distinct_keys_toList hmem

theorem empty_union (t : Std.ExtTreeMap κ ν) : ∅ ∪ t = t := by
  apply Std.ExtTreeMap.ext_getElem?
  intro k
  rw [Std.ExtTreeMap.getElem?_union, Std.ExtTreeMap.getElem?_empty, Option.or_none]

end Sorted

theorem bind_eq_ok {ε α β : Type} {x : Except ε α} {f : α → Except ε β} {b : β} :
    x >>= f = .ok b ↔ ∃ a, x = .ok a ∧ f a = .ok b := by
  constructor
  · intro h
    cases x with
    | error e => cases h
    | ok a => exact ⟨a, rfl, h⟩
  · rintro ⟨a, rfl, h⟩
    exact h

/-- A query that succeeds on every item succeeds on the list. -/
theorem mapM_eq_ok {α β ε : Type} {f : α → Except ε β} {g : α → β} {xs : List α}
    (h : ∀ x ∈ xs, f x = .ok (g x)) : xs.mapM f = .ok (xs.map g) := by
  induction xs with
  | nil => rfl
  | cons x xs ih =>
    rw [List.mapM_cons, h x List.mem_cons_self, ih fun y hy => h y (List.mem_cons_of_mem x hy)]
    rfl

namespace Index

section Members

variable {κ ν : Type} [Ord κ] [Ord ν] [Std.TransOrd κ] [Std.TransOrd ν]

theorem mem_get [Std.LawfulEqOrd ν] {i : Index κ ν} {k : κ} {v : ν} :
    v ∈ i.get k ↔ v ∈ i.membersOf k := Std.ExtTreeSet.mem_toList

theorem ascending_get [Std.LawfulEqOrd ν] (i : Index κ ν) (k : κ) : Ascending (i.get k) :=
  ascending_toList _

@[simp] theorem membersOf_empty (k : κ) : (empty : Index κ ν).membersOf k = ∅ := by
  simp [empty, membersOf]

variable [DecidableEq κ] [Std.LawfulEqOrd κ] [Std.LawfulEqOrd ν]

theorem mem_add {i : Index κ ν} {k l : κ} {v w : ν} :
    w ∈ (i.add k v).membersOf l ↔ w ∈ i.membersOf l ∨ (l = k ∧ w = v) := by
  rw [membersOf_add]
  split
  · next h =>
    subst h
    rw [Std.ExtTreeSet.mem_insert, Std.compare_eq_iff_eq]
    grind
  · grind

theorem mem_remove {i : Index κ ν} {k l : κ} {v w : ν} :
    w ∈ (i.remove k v).membersOf l ↔ w ∈ i.membersOf l ∧ ¬ (l = k ∧ w = v) := by
  rw [membersOf_remove]
  split
  · next h =>
    subst h
    rw [Std.ExtTreeSet.mem_erase, Ne, Std.compare_eq_iff_eq]
    grind
  · grind

theorem mem_foldl_add {ks : List κ} {i : Index κ ν} {l : κ} {v w : ν} :
    w ∈ (ks.foldl (fun i k => i.add k v) i).membersOf l ↔
      w ∈ i.membersOf l ∨ (l ∈ ks ∧ w = v) := by
  induction ks generalizing i with
  | nil => simp
  | cons k ks ih =>
    rw [List.foldl_cons, ih, mem_add, List.mem_cons]
    tauto

theorem mem_foldl_remove {ks : List κ} {i : Index κ ν} {l : κ} {v w : ν} :
    w ∈ (ks.foldl (fun i k => i.remove k v) i).membersOf l ↔
      w ∈ i.membersOf l ∧ ¬ (l ∈ ks ∧ w = v) := by
  induction ks generalizing i with
  | nil => simp
  | cons k ks ih =>
    rw [List.foldl_cons, ih, mem_remove, List.mem_cons]
    tauto

end Members

section Climb

variable {κ : Type} [Ord κ] [Std.TransOrd κ] [Std.LawfulEqOrd κ]

/-- Nothing seen or pending is lost. -/
theorem subset_climb (i : Index κ κ) (seen : Std.ExtTreeSet κ) (pending : List κ) {x : κ}
    (h : x ∈ seen ∨ x ∈ pending) : x ∈ i.climb seen pending := by
  fun_induction climb i seen pending with
  | case1 seen => simpa using h
  | case2 seen y pending hy ih =>
    apply ih
    rcases h with h | h
    · exact .inl h
    · rcases List.mem_cons.1 h with rfl | h
      · exact .inl hy
      · exact .inr h
  | case3 seen y pending hy ih =>
    apply ih
    rw [Std.ExtTreeSet.mem_insert, Std.compare_eq_iff_eq, List.mem_append]
    rcases h with h | h
    · exact .inl (.inr h)
    · rcases List.mem_cons.1 h with rfl | h
      · exact .inl (.inl rfl)
      · exact .inr (.inl h)

/-- If the members of every key seen are seen or pending, the climb ends at a set closed under
members. -/
theorem climb_closed (i : Index κ κ) (seen : Std.ExtTreeSet κ) (pending : List κ)
    (h : ∀ x ∈ seen, ∀ y ∈ i.membersOf x, y ∈ seen ∨ y ∈ pending) {x y : κ}
    (hx : x ∈ i.climb seen pending) (hy : y ∈ i.membersOf x) : y ∈ i.climb seen pending := by
  fun_induction climb i seen pending with
  | case1 seen => simpa using h x hx y hy
  | case2 seen z pending hz ih =>
    refine ih ?_ hx
    intro a ha b hb
    rcases h a ha b hb with h | h
    · exact .inl h
    · rcases List.mem_cons.1 h with rfl | h
      · exact .inl hz
      · exact .inr h
  | case3 seen z pending hz ih =>
    refine ih ?_ hx
    intro a ha b hb
    rw [Std.ExtTreeSet.mem_insert, Std.compare_eq_iff_eq] at ha
    rw [Std.ExtTreeSet.mem_insert, Std.compare_eq_iff_eq, List.mem_append, mem_get]
    rcases ha with rfl | ha
    · exact .inr (.inr hb)
    · rcases h a ha b hb with h | h
      · exact .inl (.inr h)
      · rcases List.mem_cons.1 h with rfl | h
        · exact .inl (.inl rfl)
        · exact .inr (.inl h)

/-- What holds of all that is seen or pending and passes to members holds of all that is found. -/
theorem climb_sound (i : Index κ κ) (seen : Std.ExtTreeSet κ) (pending : List κ) (P : κ → Prop)
    (hs : ∀ x ∈ seen, P x) (hp : ∀ x ∈ pending, P x)
    (step : ∀ x y, P x → y ∈ i.membersOf x → P y) {x : κ} (hx : x ∈ i.climb seen pending) :
    P x := by
  fun_induction climb i seen pending with
  | case1 seen => exact hs x hx
  | case2 seen z pending hz ih => exact ih hs (fun y hy => hp y (List.mem_cons_of_mem z hy)) hx
  | case3 seen z pending hz ih =>
    have hPz : P z := hp z List.mem_cons_self
    refine ih ?_ ?_ hx
    · intro y hy
      rw [Std.ExtTreeSet.mem_insert, Std.compare_eq_iff_eq] at hy
      rcases hy with rfl | hy
      · exact hPz
      · exact hs y hy
    · intro y hy
      rcases List.mem_append.1 hy with hy | hy
      · exact hp y (List.mem_cons_of_mem z hy)
      · exact step z y hPz (mem_get.1 hy)

/-- A climb finds exactly the ends of chains of rows. -/
theorem mem_above {i : Index κ κ} {k x : κ} :
    x ∈ i.above k ↔ Relation.TransGen (fun a b => b ∈ i.membersOf a) k x := by
  rw [above, Std.ExtTreeSet.mem_toList]
  constructor
  · refine climb_sound i ∅ (i.get k) _ (by simp) ?_ ?_
    · intro y hy
      exact .single (mem_get.1 hy)
    · intro y z hy hz
      exact hy.tail hz
  · intro h
    induction h with
    | single h => exact subset_climb i ∅ _ (.inr (mem_get.2 h))
    | tail _ h ih => exact climb_closed i ∅ _ (by simp) ih h

theorem ascending_above (i : Index κ κ) (k : κ) : Ascending (i.above k) := ascending_toList _

end Climb

end Index

end SemanticHypergraph
