import SemanticHypergraph.Pattern.Selection
import SemanticHypergraph.Proofs.Entity.Containment

/-!
# Instances of templates

What counts as a token when entities are matched is what counts as one when they are stored. A template
without tokens has one instance, itself. An edge is an instance of an edge template if it
has as many children as the template asks for and each of them is an instance of the child at its
place. So a concrete child of the template is a child of every instance, and a template of which
only the number of children matters is decided by that number.
-/
namespace SemanticHypergraph.Entity

/-- The tokens are the atoms that stand for one entity and the one that leaves an edge open. -/
theorem isPatternToken_iff (a : Atom) :
    a.isPatternToken ↔ (Wildcard.ofAtom a).isSome ∨ isOpenEnd (.atom a) := by
  by_cases hbare : a.isBare
  · simp only [Atom.isPatternToken, patternTokens, Wildcard.ofAtom, isOpenEnd, hbare]
    split_ifs <;> simp_all
  · simp [Atom.isPatternToken, Wildcard.ofAtom, isOpenEnd, hbare]

/-- An entity holds a token if at some depth there is one that matching takes for a token. -/
theorem isPattern_iff_exists_token (e : Entity) : e.isPattern ↔
    ∃ x, (x = e ∨ x.Inside e) ∧ ((Wildcard.ofEntity x).isSome ∨ x.isOpenEnd) := by
  rw [isPattern_iff]
  constructor
  · rintro ⟨a, ha, hplace⟩
    exact ⟨.atom a, hplace.imp_left Eq.symm, (isPatternToken_iff a).1 ha⟩
  · rintro ⟨x, hplace, htoken⟩
    cases x with
    | atom a => exact ⟨a, (isPatternToken_iff a).2 htoken, hplace.imp_left Eq.symm⟩
    | edge cs => simp [Wildcard.ofEntity, isOpenEnd] at htoken

theorem ofAtom_eq_none {a : Atom} (h : a.isPatternToken = false) : Wildcard.ofAtom a = none := by
  rw [← Option.not_isSome_iff_eq_none]
  intro hsome
  exact Bool.eq_false_iff.1 h ((isPatternToken_iff a).2 (.inl hsome))

theorem isOpenEnd_eq_false {e : Entity} (h : e.isPattern = false) : e.isOpenEnd = false := by
  rw [Bool.eq_false_iff]
  intro hopen
  exact Bool.eq_false_iff.1 h ((isPattern_iff_exists_token e).2 ⟨e, .inl rfl, .inr hopen⟩)

mutual

/-- A template without tokens stands for itself. -/
theorem fits_iff_eq (c : Entity) : (p : Entity) → p.isPattern = false → (c.fits p ↔ c = p)
  | .atom a, h => by
    simp only [fits, ofAtom_eq_none h, beq_iff_eq]
  | .edge ps, h => by
    cases c with
    | atom a => simp [fits]
    | edge items => simp only [fits, Entity.edge.injEq, fitsAll_iff_eq items ps h]

theorem fitsAll_iff_eq (items : List Entity) : (ps : List Entity) → anyPattern ps = false →
    (fitsAll items ps ↔ items = ps)
  | [], _ => by simp [fitsAll]
  | p :: ps, h => by
    simp only [anyPattern, Bool.or_eq_false_iff] at h
    cases items with
    | nil => simp [fitsAll, isOpenEnd_eq_false h.1]
    | cons i is =>
      simp [fitsAll, isOpenEnd_eq_false h.1, fits_iff_eq i p h.1, fitsAll_iff_eq is ps h.2]

end

theorem positional_nil : positional [] = ([], false) := rfl

theorem positional_singleton (p : Entity) :
    positional [p] = if p.isOpenEnd then ([], true) else ([p], false) := rfl

theorem positional_cons_cons (p q : Entity) (ps : List Entity) : positional (p :: q :: ps) =
    (p :: (positional (q :: ps)).1, (positional (q :: ps)).2) := by
  simp only [positional, List.getLast?_cons_cons, List.dropLast_cons_cons]
  cases (q :: ps).getLast? with
  | none => rfl
  | some c => cases h : c.isOpenEnd <;> simp [h]

/-- Whether so many items are as many as a template asks for. -/
def arityFits (n : Nat) (template : List Entity × Bool) : Bool :=
  if template.2 then template.1.length ≤ n else n == template.1.length

/-- Items fit a template place by place. -/
theorem fitsAll_iff (items : List Entity) (ps : List Entity) : fitsAll items ps ↔
    arityFits items.length (positional ps) ∧ ∀ x ∈ items.zip (positional ps).1, x.1.fits x.2 := by
  induction ps generalizing items with
  | nil => cases items <;> simp [fitsAll, positional_nil, arityFits]
  | cons p ps ih =>
    cases ps with
    | nil =>
      rw [positional_singleton]
      cases h : p.isOpenEnd with
      | true => cases items <;> simp [fitsAll, h, arityFits]
      | false =>
        cases items with
        | nil => simp [fitsAll, h, arityFits]
        | cons i is => cases is <;> simp [fitsAll, h, arityFits]
    | cons q ps =>
      rw [positional_cons_cons]
      cases items with
      | nil => simp [fitsAll, arityFits]
      | cons i is =>
        have hstep : fitsAll (i :: is) (p :: q :: ps) ↔ i.fits p ∧ fitsAll is (q :: ps) := by
          simp [fitsAll]
        rw [hstep, ih is]
        simp [arityFits, and_left_comm]

/-- Every positional child of a template has an instance among the children of an instance. -/
theorem exists_fits_of_fits {c p : Entity} {ps : List Entity} (h : c.fits (.edge ps))
    (hp : p ∈ (positional ps).1) : ∃ i ∈ c.children, i.fits p := by
  cases c with
  | atom a => simp [fits] at h
  | edge items =>
    obtain ⟨harity, hall⟩ := (fitsAll_iff items ps).1 h
    have hle : (positional ps).1.length ≤ items.length := by
      unfold arityFits at harity
      split at harity <;> simp at harity <;> omega
    obtain ⟨k, hk, rfl⟩ := List.mem_iff_getElem.1 hp
    have hk' : k < items.length := Nat.lt_of_lt_of_le hk hle
    have hzip : (items[k], (positional ps).1[k]) ∈ items.zip (positional ps).1 := by
      rw [List.mem_iff_getElem]
      exact ⟨k, by rw [List.length_zip]; omega, List.getElem_zip⟩
    exact ⟨items[k], List.getElem_mem hk', hall _ hzip⟩

/-- The anchor of a template is a child of each of its instances. -/
theorem mem_children_of_fits {c q anchor : Entity} (h : c.fits q)
    (ha : q.firstConcreteChild = some anchor) : anchor ∈ c.children := by
  cases q with
  | atom a => simp [firstConcreteChild, positional_nil] at ha
  | edge ps =>
    have hmem : anchor ∈ (positional ps).1 := List.mem_of_find?_eq_some ha
    have hconcrete : anchor.isPattern = false := by
      have hfound := List.find?_some ha
      simpa using hfound
    -- the only instance of a concrete child is itself
    obtain ⟨i, hi, hfits⟩ := exists_fits_of_fits h hmem
    rw [(fits_iff_eq i anchor hconcrete).1 hfits] at hi
    exact hi

/-- A template that has an anchor is fitted by edges alone, and the anchor is among the children of each of
them. This rests on it that an entity without tokens is fitted by itself alone, and whether an entity holds
tokens is told at all depths by the same test that matching makes. -/
theorem anchor_sound :
    (∀ c p anchor : Entity, p.firstConcreteChild = some anchor → c.fits p →
      c.isEdge ∧ anchor ∈ c.children) ∧
    (∀ c q : Entity, q.isPattern = false → (c.fits q ↔ c = q)) ∧
    ∀ q : Entity, q.isPattern ↔
      ∃ x, (x = q ∨ x.Inside q) ∧ ((Wildcard.ofEntity x).isSome ∨ x.isOpenEnd) := by
  refine ⟨fun c p anchor ha h => ?_, fits_iff_eq, isPattern_iff_exists_token⟩
  have hmem := mem_children_of_fits h ha
  exact ⟨isEdge_of_mem_children hmem, hmem⟩

/-- An edge as the anchor, after a wildcard and before an open end. A typed `*` in it is no token. -/
theorem anchor_sound_nested :
    let star : Entity := .atom { root := "*" }
    let anchor : Entity := .edge [.atom { root := "is" }, .atom { root := "*", kind := some "c" }]
    let template : Entity := .edge [star, anchor, .atom { root := "..." }]
    let c : Entity := .edge [.atom { root := "x" }, anchor, star, star]
    template.firstConcreteChild = some anchor ∧ c.fits template ∧ c.isEdge ∧ anchor ∈ c.children ∧
      anchor.isPattern = false ∧ ∀ d : Entity, d.fits anchor ↔ d = anchor := by
  intro star anchor template c
  obtain ⟨hsound, hself, -⟩ := anchor_sound
  have hanchor : template.firstConcreteChild = some anchor := by decide +kernel
  have hfits : c.fits template := by decide +kernel
  have hconcrete : anchor.isPattern = false := by decide +kernel
  obtain ⟨hedge, hmem⟩ := hsound c template anchor hanchor hfits
  exact ⟨hanchor, hfits, hedge, hmem, hconcrete, fun d => hself d anchor hconcrete⟩

theorem isEdge_of_fits {c : Entity} {ps : List Entity} (h : c.fits (.edge ps)) : c.isEdge := by
  cases c with
  | atom a => simp [fits] at h
  | edge items => rfl

theorem fits_of_eq_any {p : Entity} (h : Wildcard.ofEntity p = some .any) (c : Entity) :
    c.fits p := by
  cases p with
  | edge ps => simp [Wildcard.ofEntity] at h
  | atom a =>
    have ha : Wildcard.ofAtom a = some .any := h
    simp [fits, ha, Wildcard.accepts]

/-- Of a full pattern only the number of children matters. -/
theorem fits_fullPattern {c : Entity} {ps : List Entity}
    (h : isFullPattern (.edge ps)) :
    c.fits (.edge ps) = (c.isEdge && arityFits c.arity (positional ps)) := by
  cases c with
  | atom a => rfl
  | edge items =>
    rw [Bool.eq_iff_iff]
    refine (fitsAll_iff items ps).trans ?_
    have hall : ∀ x ∈ items.zip (positional ps).1, x.1.fits x.2 := by
      intro x hx
      have hstar := List.all_eq_true.1 h x.2 (List.of_mem_zip hx).2
      exact fits_of_eq_any (by simpa using hstar) x.1
    rw [and_iff_left hall]
    simp [isEdge, arity]

end SemanticHypergraph.Entity

namespace SemanticHypergraph.Sieve

open Entity

/-- The cheapest test for a template lets its instances through and nothing else. -/
theorem accepts_ofTemplate (q c : Entity) : (ofTemplate q).accepts c = c.fits q := by
  unfold ofTemplate
  split
  · next hfull =>
    cases q with
    | atom a => simp [isFullPattern] at hfull
    | edge ps =>
      rw [fits_fullPattern hfull, children_edge]
      simp only
      split
      · next hempty =>
        simp only [Bool.and_eq_true] at hempty
        simp [accepts, arityFits, hempty.1, List.isEmpty_iff.1 hempty.2]
      · rfl
  · rfl

end SemanticHypergraph.Sieve
