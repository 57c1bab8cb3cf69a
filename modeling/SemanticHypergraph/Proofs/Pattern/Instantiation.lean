import Mathlib.Tactic.SplitIfs
import SemanticHypergraph.Pattern.Basic

/-!
# Instances are made by replacement

A template says what its instances look like without any matching: each of its tokens is replaced,
at every place on its own, and all else is kept. An entity fits a template if and only if some
choice of replacements makes it of the template. One direction follows the template down; for the
other the replacements found for the children are put together, each at its own place.
-/
namespace SemanticHypergraph

/-- What is put in at one place: for `*` an entity, for `@` an atom, for `&` an edge with the given
children, and for a closing `...` any number of further children. -/
structure Replacement where
  entity : Entity
  atom : Atom
  edge : List Entity
  more : List Entity

/-- A replacement for every place. A place is the way down to it, by the positions of the
children. -/
abbrev Substitution := List Nat → Replacement

namespace Substitution

/-- The same replacement everywhere. -/
def everywhere (r : Replacement) : Substitution := fun _ => r

/-- What is put in below the child at a position. -/
def below (s : Substitution) (i : Nat) : Substitution := fun place => s (i :: place)

/-- The substitution `s`, but `child` below the child at position `i`. -/
def graft (s : Substitution) (i : Nat) (child : Substitution) : Substitution
  | [] => s []
  | j :: place => if j = i then child place else s (j :: place)

theorem below_graft_self (s child : Substitution) (i : Nat) :
    (s.graft i child).below i = child := by
  funext place
  simp [below, graft]

theorem below_graft_of_ne {i j : Nat} (h : j ≠ i) (s child : Substitution) :
    (s.graft i child).below j = s.below j := by
  funext place
  simp [below, graft, h]

end Substitution

theorem Wildcard.ofAtom_eq (a : Atom) : ofAtom a =
    if a = { root := "*" } then some .any
    else if a = { root := "@" } then some .atom
    else if a = { root := "&" } then some .edge
    else none := by
  obtain ⟨root, kind, scope⟩ := a
  cases kind <;> cases scope <;> simp [ofAtom, Atom.isBare]

namespace Entity

mutual

/-- The template with its tokens replaced. -/
def instantiate (s : Substitution) : Entity → Entity
  | .atom a =>
    if a = { root := "*" } then (s []).entity
    else if a = { root := "@" } then .atom (s []).atom
    else if a = { root := "&" } then .edge (s []).edge
    else .atom a
  | .edge template => .edge (instantiateAll s 0 template)

/-- The children from position `i` on. Only the last one can stand for several. -/
def instantiateAll (s : Substitution) (i : Nat) : List Entity → List Entity
  | [] => []
  | p :: ps =>
    if p = .atom { root := "..." } ∧ ps = [] then (s [i]).more
    else instantiate (s.below i) p :: instantiateAll s (i + 1) ps

end

theorem isOpenEnd_iff {p : Entity} : p.isOpenEnd ↔ p = .atom { root := "..." } := by
  cases p with
  | edge cs => simp [isOpenEnd]
  | atom a =>
    obtain ⟨root, kind, scope⟩ := a
    cases kind <;> cases scope <;> simp [isOpenEnd, Atom.isBare]

theorem fitsAll_closing {p : Entity} {ps : List Entity}
    (h : p = .atom { root := "..." } ∧ ps = []) (items : List Entity) :
    fitsAll items (p :: ps) := by
  obtain ⟨rfl, rfl⟩ := h
  cases items <;> rfl

theorem fitsAll_cons {p : Entity} {ps : List Entity}
    (h : ¬ (p = .atom { root := "..." } ∧ ps = [])) {items : List Entity} :
    fitsAll items (p :: ps) ↔ ∃ i is, items = i :: is ∧ i.fits p ∧ fitsAll is ps := by
  rw [← isOpenEnd_iff, ← List.isEmpty_iff, ← Bool.and_eq_true] at h
  cases items with
  | nil => simp [fitsAll, h]
  | cons i is =>
    have hstep : fitsAll (i :: is) (p :: ps) ↔ i.fits p ∧ fitsAll is ps := by simp [fitsAll, h]
    rw [hstep]
    constructor
    · rintro ⟨hi, his⟩
      exact ⟨i, is, rfl, hi, his⟩
    · rintro ⟨_, _, heq, hi, his⟩
      cases heq
      exact ⟨hi, his⟩

/-- From a position on, only what is put in there and after it matters. -/
theorem instantiateAll_congr {s t : Substitution} {i : Nat} (ps : List Entity)
    (h : ∀ j, i ≤ j → s.below j = t.below j) : instantiateAll s i ps = instantiateAll t i ps := by
  induction ps generalizing i with
  | nil => rfl
  | cons p ps ih =>
    have hhere := h i (Nat.le_refl i)
    have hmore : s [i] = t [i] := congrFun hhere []
    have hrest := ih fun j hj => h j (Nat.le_of_succ_le hj)
    rw [instantiateAll, instantiateAll, hhere, hmore, hrest]

mutual

theorem fits_instantiate (s : Substitution) : (p : Entity) → (p.instantiate s).fits p
  | .atom a => by
    rw [fits, Wildcard.ofAtom_eq, instantiate]
    split_ifs <;> simp [Wildcard.accepts, isAtom, isEdge]
  | .edge ps => by
    rw [instantiate, fits]
    exact fitsAll_instantiateAll s 0 ps

theorem fitsAll_instantiateAll (s : Substitution) (i : Nat) :
    (ps : List Entity) → fitsAll (instantiateAll s i ps) ps
  | [] => rfl
  | p :: ps => by
    rw [instantiateAll]
    split
    · next hlast => exact fitsAll_closing hlast _
    · next hlast =>
      exact (fitsAll_cons hlast).2 ⟨_, _, rfl, fits_instantiate (s.below i) p,
        fitsAll_instantiateAll s (i + 1) ps⟩

end

mutual

theorem exists_instantiate_of_fits {c : Entity} :
    (p : Entity) → c.fits p → ∃ s, p.instantiate s = c
  | .atom a, h => by
    rw [fits, Wildcard.ofAtom_eq] at h
    simp only [instantiate]
    split_ifs at h ⊢ with hany hatom hedge
    · exact ⟨.everywhere ⟨c, a, [], []⟩, rfl⟩
    · cases c with
      | atom b => exact ⟨.everywhere ⟨.atom b, b, [], []⟩, rfl⟩
      | edge cs => cases h
    · cases c with
      | atom b => cases h
      | edge cs => exact ⟨.everywhere ⟨.edge cs, a, cs, []⟩, rfl⟩
    · exact ⟨.everywhere ⟨c, a, [], []⟩, (beq_iff_eq.1 h).symm⟩
  | .edge ps, h => by
    cases c with
    | atom a => cases h
    | edge items =>
      rw [fits] at h
      obtain ⟨s, hs⟩ := exists_instantiateAll_of_fitsAll 0 ps h
      exact ⟨s, by rw [instantiate, hs]⟩

theorem exists_instantiateAll_of_fitsAll {items : List Entity} (i : Nat) :
    (ps : List Entity) → fitsAll items ps → ∃ s, instantiateAll s i ps = items
  | [], h => by
    rw [fitsAll, List.isEmpty_iff] at h
    exact ⟨.everywhere ⟨.edge [], { root := "" }, [], []⟩, h.symm⟩
  | p :: ps, h => by
    by_cases hlast : p = .atom { root := "..." } ∧ ps = []
    · refine ⟨.everywhere ⟨p, { root := "" }, [], items⟩, ?_⟩
      rw [instantiateAll, if_pos hlast]
      rfl
    · obtain ⟨item, rest, rfl, hitem, hrest⟩ := (fitsAll_cons hlast).1 h
      obtain ⟨s, hs⟩ := exists_instantiate_of_fits p hitem
      obtain ⟨t, ht⟩ := exists_instantiateAll_of_fitsAll (i + 1) ps hrest
      -- The child at this position and those after it do not share a place.
      have hlater : instantiateAll (t.graft i s) (i + 1) ps = rest := by
        rw [← ht]
        refine instantiateAll_congr ps fun j hj => ?_
        exact Substitution.below_graft_of_ne (by omega) t s
      refine ⟨t.graft i s, ?_⟩
      rw [instantiateAll, if_neg hlast, Substitution.below_graft_self, hs, hlater]

end

/-- An entity fits a template if and only if it is made of it by replacing, at each place on its
own, `*` by an entity, `@` by an atom, `&` by an edge and a `...` that closes an edge by any number
of entities, while every other atom is kept. -/
theorem fits_iff_exists_instantiate (c p : Entity) : c.fits p ↔ ∃ s, p.instantiate s = c := by
  constructor
  · exact exists_instantiate_of_fits p
  · rintro ⟨s, rfl⟩
    exact fits_instantiate s p

/-- Only the last `...` makes room for other children. -/
example (s : Substitution) :
    instantiate s (.edge [.atom { root := "..." }, .atom { root := "..." }]) =
      .edge (.atom { root := "..." } :: (s [1]).more) := rfl

end Entity

end SemanticHypergraph
