import Mathlib.Data.List.Chain
import Mathlib.Data.List.Perm.Subperm
import SemanticHypergraph.Proofs.Entity.Containment
import SemanticHypergraph.Proofs.Store.Filling
import SemanticHypergraph.Proofs.Store.Reachable

/-!
# Deep degree

The deep degree of an entity is found by climbing from it through stored edges. Every edge that is
met contains the entity, but an edge that contains it is met only if a chain of stored edges leads
up to it. So the deep degree never exceeds the number of primary edges around the entity, and it
falls short just when an edge in between has been removed and no other way goes around the gap. It
lies between the degree and the number of all primary edges.
-/
namespace SemanticHypergraph

open SemanticHypergraph.Hypergraph LawfulHypergraph

namespace Content

variable {c : Content} {x y : Entity}

theorem isStored_of_isPrimary (h : c.isPrimary y) : c.isStored y := by
  cases hy : c y with
  | some r => exact isStored_of_eq_some hy
  | none => simp [isPrimary, hy] at h

theorem Above.inside (h : c.Above x y) : x.Inside y := by
  have hchild : c.Holds ≤ fun a b => a ∈ b.children := fun _ _ hab => hab.2
  exact Relation.TransGen.mono hchild x y h

theorem Above.isEdge (h : c.Above x y) : y.isEdge := by
  cases h with
  | single h => exact Entity.isEdge_of_mem_children h.2
  | tail _ h => exact Entity.isEdge_of_mem_children h.2

/-- If the edge and all that lies between are stored, a chain leads up to the edge. -/
theorem above_of_inside (hx : x.Inside y) (hy : c.isStored y)
    (hbetween : ∀ m, x.Inside m → m.Inside y → c.isStored m) : c.Above x y := by
  induction hx with
  | single hx => exact .single ⟨hy, hx⟩
  | @tail m y hm hmy ih =>
    have hinside : m.Inside y := .single hmy
    refine .tail (ih (hbetween m hm hinside) fun d hd hdm => ?_) ⟨hy, hmy⟩
    exact hbetween d hd (hdm.trans hinside)

end Content

/-- Each entity after the first is a stored edge that holds the one before it, and `y` is the
last. -/
def LeadsUp {σ : Type} [Hypergraph σ] (s : σ) (x : Entity) (chain : List Entity) (y : Entity) :
    Prop :=
  (x :: chain).IsChain (fun a b => contains s b = .ok true ∧ a ∈ b.children) ∧
    chain.getLast? = some y

section Lawful

variable {σ : Type} [Hypergraph σ] [LawfulHypergraph σ] {s : σ}

/-- The deep degree counts the primary edges to which a chain leads up. -/
theorem deepDegree_eq_length (hs : Consistent s) (x : Entity) : ∃ met : List Entity,
    deepDegree s x = .ok met.length ∧ met.Nodup ∧
      ∀ y, y ∈ met ↔ (content s).isPrimary y ∧ (content s).Above x y := by
  obtain ⟨es, hes, habove, hdegree⟩ := deepDegree_eq hs x
  refine ⟨es.filter (content s).isPrimary, ?_, hes.filter _, fun y => ?_⟩
  · rw [hdegree, List.countP_eq_length_filter]
  · rw [List.mem_filter, habove, and_comm]

/-- The climb ends at once if the star is empty. -/
theorem deepDegree_eq_zero (hs : Consistent s) {x : Entity} (h : star s x none = .ok []) :
    deepDegree s x = .ok 0 := by
  obtain ⟨met, hdegree, -, hmet⟩ := deepDegree_eq_length hs x
  have hnil : met = [] := by
    rw [List.eq_nil_iff_forall_not_mem]
    intro y hy
    obtain ⟨p, ⟨hp, hx⟩, -⟩ := Relation.TransGen.head'_iff.1 ((hmet y).1 hy).2
    rw [star_eq hs] at h
    have hnot := List.filter_eq_nil_iff.1 (Except.ok.inj h) p ((mem_order hs).2 hp)
    exact hnot (decide_eq_true hx)
  rw [hdegree, hnil]
  rfl

open Classical in
/-- The primary edges that contain an entity can be listed. -/
theorem exists_primary_around (hs : Consistent s) (x : Entity) : ∃ around : List Entity,
    around.Nodup ∧ ∀ y, y ∈ around ↔ (content s).isPrimary y ∧ x.Inside y := by
  refine ⟨(order s).filter fun y => (content s).isPrimary y ∧ x.Inside y,
    (nodup_order hs).filter _, fun y => ?_⟩
  rw [List.mem_filter, decide_eq_true_iff, and_iff_right_of_imp]
  exact fun hy => (mem_order hs).2 (Content.isStored_of_isPrimary hy.1)

theorem above_iff_exists_leadsUp (hs : Consistent s) {x y : Entity} :
    (content s).Above x y ↔ ∃ chain, LeadsUp s x chain y := by
  constructor
  · intro h
    induction h using Relation.TransGen.head_induction_on with
    | single h =>
      have hstep := h.imp_left (contains_eq_true_iff hs).2
      exact ⟨[y], .cons_cons hstep (.singleton y), rfl⟩
    | head h _ ih =>
      obtain ⟨chain, hchain, hlast⟩ := ih
      have hstep := h.imp_left (contains_eq_true_iff hs).2
      exact ⟨_ :: chain, .cons_cons hstep hchain, by rw [List.getLast?_cons, hlast]; rfl⟩
  · rintro ⟨chain, hchain, hlast⟩
    induction chain generalizing x with
    | nil => cases hlast
    | cons z chain ih =>
      obtain ⟨⟨hz, hx⟩, hchain⟩ := List.isChain_cons_cons.1 hchain
      have hstep : (content s).Holds x z := ⟨(contains_eq_true_iff hs).1 hz, hx⟩
      cases chain with
      | nil =>
        cases hlast
        exact .single hstep
      | cons w chain => exact .head hstep (ih hchain (by rwa [List.getLast?_cons_cons] at hlast))

/-- The edges that hold the entity itself are met at once. -/
theorem degree_le (hs : Consistent s) {x : Entity} {met : List Entity}
    (h : ∀ y, (content s).isPrimary y → (content s).Above x y → y ∈ met) :
    ∃ d, degree s x = .ok d ∧ d ≤ met.length := by
  refine ⟨_, degree_eq hs x, ?_⟩
  rw [List.countP_eq_length_filter]
  refine ((((nodup_order hs).filter _).filter _).subperm fun y hy => ?_).length_le
  obtain ⟨hy, hprimary⟩ := List.mem_filter.1 hy
  obtain ⟨hstored, hx⟩ := List.mem_filter.1 hy
  exact h y hprimary (.single ⟨(mem_order hs).1 hstored, of_decide_eq_true hx⟩)

/-- Primary edges, each listed once, are no more than there are. -/
theorem length_le_primaryEdges (hs : Consistent s) {es : List Entity} (hnodup : es.Nodup)
    (hes : ∀ e ∈ es, (content s).isPrimary e ∧ e.isEdge) :
    ∃ total, counts s = .ok total ∧ es.length ≤ total.primaryEdges := by
  refine ⟨_, counts_eq hs, ?_⟩
  simp only [Content.counts, Content.countWhere, List.countP_eq_length_filter]
  refine (hnodup.subperm fun e he => ?_).length_le
  obtain ⟨hprimary, hedge⟩ := hes e he
  refine List.mem_filter.2 ⟨(mem_order hs).2 (Content.isStored_of_isPrimary hprimary), ?_⟩
  simpa [Content.isPrimary, hedge] using hprimary

end Lawful

/-- The deep degree of an entity is the number of primary edges to which a chain of stored edges
leads up. That is at most the number of primary edges that contain the entity at some depth, and
equal to it if and only if such a chain leads up to each of them, as it does whenever everything
between is stored. -/
theorem Store.Reachable.deepDegree_le_containing {s : Store} (hs : s.Reachable) (x : Entity) :
    ∃ met around : List Entity, deepDegree s x = .ok met.length ∧
      met.Nodup ∧ (∀ y, y ∈ met ↔ isPrimary s y = .ok true ∧ (content s).Above x y) ∧
      around.Nodup ∧ (∀ y, y ∈ around ↔ isPrimary s y = .ok true ∧ x.Inside y) ∧
      met.length ≤ around.length ∧
      (met.length = around.length ↔ ∀ y ∈ around, (content s).Above x y) ∧
      ((∀ m, x.Inside m → (∃ y ∈ around, m.Inside y) → contains s m = .ok true) →
        met.length = around.length) := by
  have hsc := hs.consistent
  obtain ⟨met, hdegree, hmet, hmemMet⟩ := deepDegree_eq_length hsc x
  obtain ⟨around, haround, hmem⟩ := exists_primary_around hsc x
  have hsubset : met ⊆ around := by
    intro y hy
    obtain ⟨hprimary, habove⟩ := (hmemMet y).1 hy
    exact (hmem y).2 ⟨hprimary, habove.inside⟩
  have hsub := hmet.subperm hsubset
  have hiff : met.length = around.length ↔ ∀ y ∈ around, (content s).Above x y := by
    constructor
    · intro hlength y hy
      have hperm := hsub.perm_of_length_le (Nat.le_of_eq hlength.symm)
      exact ((hmemMet y).1 (hperm.mem_iff.2 hy)).2
    · intro habove
      refine Nat.le_antisymm hsub.length_le (haround.subperm fun y hy => ?_).length_le
      exact (hmemMet y).2 ⟨((hmem y).1 hy).1, habove y hy⟩
  refine ⟨met, around, hdegree, hmet, fun y => ?_, haround, fun y => ?_, hsub.length_le, hiff,
    fun hbetween => ?_⟩
  · rw [hmemMet, isPrimary_eq_true_iff hsc]
  · rw [hmem, isPrimary_eq_true_iff hsc]
  · refine hiff.2 fun y hy => ?_
    obtain ⟨hprimary, hx⟩ := (hmem y).1 hy
    refine Content.above_of_inside hx (Content.isStored_of_isPrimary hprimary) fun m hm hmy => ?_
    exact (contains_eq_true_iff hsc).1 (hbetween m hm ⟨y, hy, hmy⟩)

/-- The edge around a removed one is still met if it also holds the entity itself. -/
theorem deepDegree_le_containing_twice :
    let a : Entity := .atom { root := "a" }
    let inner : Entity := .edge [.atom { root := "q" }, a]
    let outer : Entity := .edge [inner, a]
    let s := Operation.run [.add outer, .remove inner] (Store.empty .file "test" .preserve)
    ∃ around : List Entity, deepDegree s a = .ok around.length ∧ around.Nodup ∧
      ∀ y, y ∈ around ↔ isPrimary s y = .ok true ∧ a.Inside y := by
  intro a inner outer s
  have hs : s.Reachable := (Store.Reachable.empty .file "test" .preserve).run _
  have hscan : entities s = .ok [.atom { root := "q" }, a, outer] := by decide +kernel
  obtain ⟨met, around, hdegree, -, -, hnodup, haround, -, hiff, -⟩ := hs.deepDegree_le_containing a
  have habove : ∀ y ∈ around, (content s).Above a y := by
    intro y hy
    obtain ⟨hprimary, hinside⟩ := (haround y).1 hy
    have hstored := Content.isStored_of_isPrimary ((isPrimary_eq_true_iff hs.consistent).1 hprimary)
    rw [entities_eq hs.consistent] at hscan
    rw [← mem_order hs.consistent, Except.ok.inj hscan] at hstored
    simp only [List.mem_cons, List.not_mem_nil, or_false] at hstored
    rcases hstored with rfl | rfl | rfl
    · exact absurd hinside.weight_lt (by decide)
    · exact absurd hinside (Entity.not_inside_self a)
    · exact .single ⟨by decide +kernel, by decide⟩
  rw [hiff.2 habove] at hdegree
  exact ⟨around, hdegree, hnodup, haround⟩

/-- The edge around a removed one is not met any more although it still contains the entity. -/
theorem deepDegree_le_containing_gap :
    let a : Entity := .atom { root := "a" }
    let inner : Entity := .edge [.atom { root := "q" }, a]
    let outer : Entity := .edge [.atom { root := "p" }, inner]
    let s := Operation.run [.add outer, .remove inner] (Store.empty .memory "test" .preserve)
    s.Reachable ∧ isPrimary s outer = .ok true ∧ a.Inside outer ∧ deepDegree s a = .ok 0 := by
  intro a inner outer s
  have hs : s.Reachable := (Store.Reachable.empty .memory "test" .preserve).run _
  have hinside : a.Inside outer :=
    Entity.inside_iff.2 ⟨inner, by decide, .inr (.single (by decide))⟩
  have hstar : star s a none = .ok [] := by decide +kernel
  exact ⟨hs, by decide +kernel, hinside, deepDegree_eq_zero hs.consistent hstar⟩

/-- The deep degree of an entity can always be had. It is the number of primary edges to which a
chain of stored edges leads up, each counted once whatever the number of chains; if no stored edge
lacks a child, that is the number of primary edges that contain the entity at some depth. It is no
less than the degree and no more than the number of all primary edges. -/
theorem Store.Reachable.deepDegree_counts_chains {s : Store} (hs : s.Reachable) (x : Entity) :
    ∃ (met : List Entity) (d : Nat) (total : Counts), deepDegree s x = .ok met.length ∧
      degree s x = .ok d ∧ counts s = .ok total ∧ met.Nodup ∧
      (∀ y, y ∈ met ↔ isPrimary s y = .ok true ∧ ∃ chain, LeadsUp s x chain y) ∧
      ((∀ e, contains s e = .ok true → ∀ c ∈ e.children, contains s c = .ok true) →
        ∀ y, y ∈ met ↔ isPrimary s y = .ok true ∧ x.Inside y) ∧
      d ≤ met.length ∧ met.length ≤ total.primaryEdges := by
  have hsc := hs.consistent
  obtain ⟨met, hdeep, hmet, hmem⟩ := deepDegree_eq_length hsc x
  obtain ⟨d, hdegree, hd⟩ := degree_le hsc fun y hy habove => (hmem y).2 ⟨hy, habove⟩
  obtain ⟨total, htotal, hle⟩ := length_le_primaryEdges hsc hmet fun y hy =>
    ⟨((hmem y).1 hy).1, ((hmem y).1 hy).2.isEdge⟩
  refine ⟨met, d, total, hdeep, hdegree, htotal, hmet, fun y => ?_, fun hclosed y => ?_, hd, hle⟩
  · rw [hmem, isPrimary_eq_true_iff hsc, above_iff_exists_leadsUp hsc]
  · rw [hmem, isPrimary_eq_true_iff hsc]
    refine and_congr_right fun hprimary => ⟨Content.Above.inside, fun hx => ?_⟩
    have hy := Content.isStored_of_isPrimary hprimary
    simp only [contains_eq_true_iff hsc] at hclosed
    have hall : (content s).IsClosed := hclosed
    exact Content.above_of_inside hx hy fun m _ hm => hall.stored_of_inside hy hm

/-- Two ways lead up to the outer edge, which is counted once; the edge in between is not
primary. -/
theorem deepDegree_counts_chains_twice :
    let a : Entity := .atom { root := "a" }
    let inner : Entity := .edge [.atom { root := "q" }, a]
    let outer : Entity := .edge [inner, a, inner]
    let s := Operation.run [.add outer, .add (.edge [outer])] (Store.empty .file "test" .preserve)
    s.Reachable ∧ ∃ met : List Entity, deepDegree s a = .ok met.length ∧ met.Nodup ∧
      ∀ y, y ∈ met ↔ isPrimary s y = .ok true ∧ a.Inside y := by
  intro a inner outer s
  have hs : s.Reachable := (Store.Reachable.empty .file "test" .preserve).run _
  obtain ⟨met, _, _, hdeep, -, -, hmet, -, hinside, -⟩ := hs.deepDegree_counts_chains a
  have hscan : entities s =
      .ok [.atom { root := "q" }, a, inner, outer, .edge [outer]] := by decide +kernel
  have hwhole : ∀ e ∈ [.atom { root := "q" }, a, inner, outer, .edge [outer]],
      ∀ c ∈ e.children, contains s c = .ok true := by decide +kernel
  refine ⟨hs, met, hdeep, hmet, hinside fun e he => hwhole e ?_⟩
  rw [entities_eq hs.consistent] at hscan
  rw [← Except.ok.inj hscan, mem_order hs.consistent]
  exact (contains_eq_true_iff hs.consistent).1 he

end SemanticHypergraph
