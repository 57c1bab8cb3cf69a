import SemanticHypergraph.Proofs.Pattern.Fits
import SemanticHypergraph.Proofs.Store.Reachable

/-!
# Matching is a filtered scan

What a pattern asks for is said once, of one entity. Whichever way a store goes about it, by a scan,
by a look-up or through its index, it finds the stored entities that the pattern accepts, in the
order of the scan. An index is entered by an anchor that every instance holds, so nothing is lost,
whether or not the anchor itself is stored.
-/
namespace SemanticHypergraph

open SemanticHypergraph.Hypergraph LawfulHypergraph

namespace Pattern

/-- The entity is what the pattern asks for. -/
def accepts : Pattern → Entity → Bool
  | anyEntity, _ => true
  | anyAtom, e => e.isAtom
  | anyEdge, e => e.isEdge
  | atom a, e => e == .atom a
  | edge template, e => e.fits template

/-- An edge is looked for by a template that is an edge. -/
def IsShaped : Pattern → Prop
  | edge template => template.isEdge
  | _ => True

/-- What is found for the pattern: of a template that is no edge, only the edges among what it
accepts. -/
def finds : Pattern → Entity → Bool
  | edge template, e => e.isEdge && e.fits template
  | p, e => p.accepts e

theorem finds_eq_accepts {p : Pattern} (h : p.IsShaped) : p.finds = p.accepts := by
  funext e
  cases p with
  | edge template =>
    cases template with
    | atom a => cases h
    | edge ps =>
      rw [finds, accepts, Bool.eq_iff_iff, Bool.and_eq_true]
      exact and_iff_right_of_imp Entity.isEdge_of_fits
  | _ => rfl

/-- The pattern made of an entity is always shaped. -/
theorem isShaped_ofEntity (e : Entity) : (ofEntity e).IsShaped := by
  unfold ofEntity
  split
  · trivial
  · trivial
  · trivial
  · cases e with
    | atom a => trivial
    | edge cs => rfl

end Pattern

section Lawful

variable {σ : Type} [Hypergraph σ] [LawfulHypergraph σ] {s : σ}

/-- The candidates for an edge template are among the edges and miss none of its instances. -/
theorem search_complete (hs : Consistent s) (template : Entity) : ∃ found,
    search s template = .ok found ∧ found.filter (Sieve.ofTemplate template).accepts =
      (order s).filter fun c => c.isEdge && c.fits template := by
  refine ⟨_, search_eq hs template, ?_⟩
  rw [List.filter_filter]
  refine List.filter_congr fun c _ => ?_
  rw [Sieve.accepts_ofTemplate, Bool.eq_iff_iff, Bool.and_eq_true, Bool.and_eq_true, and_comm]
  -- an instance is a candidate just when it is an edge
  refine and_congr_left fun hfits => ?_
  unfold Entity.isCandidate
  split
  · next anchor ha =>
    have hmem := Entity.mem_children_of_fits hfits ha
    simp [hmem, Entity.isEdge_of_mem_children hmem]
  · rfl

theorem filter_beq_order (hs : Consistent s) (e : Entity) :
    (order s).filter (· == e) = if (content s).isStored e then [e] else [] := by
  rw [List.filter_beq]
  split
  · next hstored =>
    rw [List.count_eq_one_of_mem (nodup_order hs) ((mem_order hs).2 hstored)]
    rfl
  · next hstored =>
    rw [List.count_eq_zero_of_not_mem fun hmem => hstored ((mem_order hs).1 hmem)]
    rfl

theorem matchPattern_eq_filter (hs : Consistent s) (p : Pattern) : ∃ found,
    matchPattern s p = .ok found ∧ found.toList = (order s).filter p.finds := by
  cases p with
  | anyEntity =>
    refine ⟨.all (order s), ?_, rfl⟩
    rw [matchPattern, all, entities_eq hs]
    rfl
  | anyAtom =>
    refine ⟨.atoms (order s), ?_, rfl⟩
    rw [matchPattern, allAtoms, entities_eq hs]
    rfl
  | anyEdge =>
    refine ⟨.edges (order s), ?_, rfl⟩
    rw [matchPattern, allEdges, entities_eq hs]
    rfl
  | atom a =>
    refine ⟨if (content s).isStored (.atom a) then .all [.atom a] else .empty, ?_, ?_⟩
    · rw [matchPattern, contains_eq hs]
      rfl
    · refine Eq.trans ?_ (filter_beq_order hs (.atom a)).symm
      cases (content s).isStored (.atom a) <;> rfl
  | edge template =>
    rw [matchPattern]
    split
    · next hfull =>
      refine ⟨.instances (order s) template, by rw [entities_eq hs]; rfl, ?_⟩
      have hedge : template.isEdge := by
        cases template with
        | atom a => simp [Entity.isFullPattern] at hfull
        | edge ps => rfl
      have hshaped : (Pattern.edge template).IsShaped := hedge
      rw [Pattern.finds_eq_accepts hshaped]
      exact List.filter_congr fun c _ => Sieve.accepts_ofTemplate template c
    · obtain ⟨found, hfound, hfilter⟩ := search_complete hs template
      exact ⟨.instances found template, by rw [hfound]; rfl, hfilter⟩

end Lawful

/-- In every reachable store a pattern finds what it accepts of the scan, in order and each once. -/
theorem Store.Reachable.matchPattern_filters_scan {s : Store} (h : s.Reachable) (p : Pattern) :
    ∃ es found, entities s = .ok es ∧ es.Nodup ∧ matchPattern s p = .ok found ∧
      (p.IsShaped → found.toList = es.filter p.accepts) ∧
      (¬ p.IsShaped → found.toList = es.filter fun c => c.isEdge && p.accepts c) := by
  obtain ⟨found, hfound, hlist⟩ := matchPattern_eq_filter h.consistent p
  refine ⟨order s, found, entities_eq h.consistent, nodup_order h.consistent, hfound, ?_, ?_⟩
  · intro hp
    rw [hlist, Pattern.finds_eq_accepts hp]
  · intro hp
    cases p with
    | edge template => exact hlist
    | _ => exact absurd trivial hp

/-- The instances of a template are found although its anchor has been deleted. -/
theorem matchPattern_filters_scan_deleted :
    let sky : Entity := .atom { root := "sky" }
    let fact : Entity := .edge [.atom { root := "is" }, sky, .atom { root := "blue" }]
    let template : Entity := .edge [.atom { root := "*" }, sky, .atom { root := "..." }]
    let s := ((Operation.change (.delete sky)).perform
      ((Operation.add fact).perform (Store.empty .file "test" .preserve)).2).2
    ∃ found, matchPattern s (.edge template) = .ok found ∧ found.toList = [fact] := by
  intro sky fact template s
  have hs : s.Reachable := .perform _ (.perform _ (.empty .file "test" .preserve))
  obtain ⟨es, found, hes, _, hfound, hshaped, _⟩ :=
    hs.matchPattern_filters_scan (.edge template)
  have hscan : entities s = .ok [.atom { root := "is" }, .atom { root := "blue" }, fact] := by rfl
  rw [hscan] at hes
  cases hes
  exact ⟨found, hfound, (hshaped rfl).trans (by rfl)⟩

end SemanticHypergraph
