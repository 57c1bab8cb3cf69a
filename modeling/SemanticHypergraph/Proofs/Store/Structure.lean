import SemanticHypergraph.Proofs.Store.Agreement

/-!
# What does not depend on attributes

Two stores have the same structure if they scan the same entities in the same order and mark them alike.
Every query that does not read an attribute is answered from that alone, so it is answered in the same
way by both, to the order of what is listed.
-/
namespace SemanticHypergraph

open SemanticHypergraph.Hypergraph LawfulHypergraph

/-- The queries whose answer holds attributes or is made from them. -/
def Query.readsAttributes : Query → Bool
  | attributeOf .. | attributes | textAttribute .. | intAttribute .. | floatAttribute ..
  | exportBytes => true
  | _ => false

/-- The mark of what is stored. -/
def Content.mark? (c : Content) (e : Entity) : Option Bool := (c e).map Record.isPrimary

namespace Content

variable {c d : Content}

theorem isStored_eq_mark? (c : Content) (e : Entity) : c.isStored e = (c.mark? e).isSome := by
  rw [isStored, mark?, Option.isSome_map]

theorem isPrimary_eq_mark? (c : Content) (e : Entity) : c.isPrimary e = (c.mark? e).any id := by
  rw [isPrimary, mark?, Option.any_map]
  rfl

theorem isStored_congr (h : c.mark? = d.mark?) : c.isStored = d.isStored := by
  funext e
  rw [isStored_eq_mark?, isStored_eq_mark?, h]

theorem isPrimary_congr (h : c.mark? = d.mark?) : c.isPrimary = d.isPrimary := by
  funext e
  rw [isPrimary_eq_mark?, isPrimary_eq_mark?, h]

theorem holds_congr (h : c.mark? = d.mark?) : c.Holds = d.Holds := by
  funext e p
  rw [Holds, Holds, isStored_congr h]

theorem above_congr (h : c.mark? = d.mark?) : c.Above = d.Above := by
  funext e p
  rw [Above, Above, holds_congr h]

/-- A count that looks at marks alone. -/
theorem countWhere_congr (h : c.mark? = d.mark?) (keep : Entity → Bool → Bool)
    (es : List Entity) : c.countWhere (fun e r => keep e r.isPrimary) es =
      d.countWhere (fun e r => keep e r.isPrimary) es := by
  have hany (c : Content) (e : Entity) :
      ((c e).any fun r => keep e r.isPrimary) = (c.mark? e).any (keep e) := by
    rw [mark?, Option.any_map]
  simp only [countWhere, hany, h]

theorem counts_congr (h : c.mark? = d.mark?) (es : List Entity) : c.counts es = d.counts es := by
  have hatoms := countWhere_congr h (fun e _ => e.isAtom) es
  have hedges := countWhere_congr h (fun e _ => e.isEdge) es
  have hprimaryAtoms := countWhere_congr h (fun e mark => e.isAtom && mark) es
  have hprimaryEdges := countWhere_congr h (fun e mark => e.isEdge && mark) es
  simp only [counts, hatoms, hedges, hprimaryAtoms, hprimaryEdges]

end Content

variable {σ : Type} [Hypergraph σ] [LawfulHypergraph σ]

/-- Two consistent stores with the same name that scan the same entities in the same order, with the same
marks. -/
structure SameStructure (s t : σ) : Prop where
  left : Consistent s
  right : Consistent t
  name : Hypergraph.name s = Hypergraph.name t
  order : order s = order t
  mark : (content s).mark? = (content t).mark?

namespace SameStructure

variable {s t : σ} (h : SameStructure s t)

include h

theorem contains (e : Entity) : contains s e = contains t e := by
  rw [contains_eq h.left, contains_eq h.right, Content.isStored_congr h.mark]

theorem isPrimary (e : Entity) : isPrimary s e = isPrimary t e := by
  rw [isPrimary_eq h.left, isPrimary_eq h.right, Content.isPrimary_congr h.mark]

theorem entities : entities s = entities t := by
  rw [entities_eq h.left, entities_eq h.right, h.order]

theorem degree (e : Entity) : degree s e = degree t e := by
  rw [degree_eq h.left, degree_eq h.right, h.order, Content.isPrimary_congr h.mark]

theorem star (e : Entity) (limit : Option Nat) : star s e limit = star t e limit := by
  cases limit with
  | none => rw [star_eq h.left, star_eq h.right, h.order]
  | some n => rw [star_some_eq h.left, star_some_eq h.right, h.order]

theorem counts : counts s = counts t := by
  rw [counts_eq h.left, counts_eq h.right, h.order, Content.counts_congr h.mark]

/-- The edges above an entity are the same, so there are as many that are primary. -/
theorem deepDegree (e : Entity) : deepDegree s e = deepDegree t e := by
  obtain ⟨es, hes, hmem, hdegree⟩ := deepDegree_eq h.left e
  obtain ⟨fs, hfs, hmem', hdegree'⟩ := deepDegree_eq h.right e
  have hperm : es.Perm fs := by
    refine (List.perm_ext_iff_of_nodup hes hfs).2 fun p => ?_
    rw [hmem, hmem', Content.above_congr h.mark]
  rw [hdegree, hdegree', Content.isPrimary_congr h.mark, hperm.countP_eq]

theorem lookupRoot (root : String) : lookupRoot s root = lookupRoot t root := by
  obtain ⟨as, has, hmem, hfound⟩ := lookupRoot_eq h.left root
  obtain ⟨bs, hbs, hmem', hfound'⟩ := lookupRoot_eq h.right root
  rw [hfound, hfound', has.ext hbs fun a => ?_]
  rw [hmem, hmem', Content.isStored_congr h.mark]

theorem lookupAtoms (atoms : List Atom) (root : Option String) :
    lookupAtoms s atoms root = lookupAtoms t atoms root := by
  rw [lookupAtoms_eq h.left, lookupAtoms_eq h.right, h.order]

theorem search (template : Entity) : search s template = search t template := by
  rw [search_eq h.left, search_eq h.right, h.order]

theorem matchPattern (p : Pattern) : matchPattern s p = matchPattern t p := by
  cases p with
  | atom a => simp only [Hypergraph.matchPattern, h.contains]
  | edge template => simp only [Hypergraph.matchPattern, h.entities, h.search]
  | _ => simp only [Hypergraph.matchPattern, all, allAtoms, allEdges, h.entities]

theorem answer (q : Query) (hq : q.readsAttributes = false) : q.answer s = q.answer t := by
  cases q with
  | name => simp only [Query.answer, h.name]
  | contains e => simp only [Query.answer, h.contains]
  | isPrimary e => simp only [Query.answer, h.isPrimary]
  | entities => simp only [Query.answer, h.entities]
  | degree e => simp only [Query.answer, h.degree]
  | star e limit => cases limit <;> simp only [Query.answer, h.star]
  | counts => simp only [Query.answer, h.counts]
  | deepDegree e => simp only [Query.answer, h.deepDegree]
  | lookupRoot root => simp only [Query.answer, h.lookupRoot]
  | lookupAtoms atoms root => simp only [Query.answer, h.lookupAtoms]
  | search template => simp only [Query.answer, h.search]
  | all => simp only [Query.answer, all, h.entities]
  | allAtoms => simp only [Query.answer, allAtoms, h.entities]
  | allEdges => simp only [Query.answer, allEdges, h.entities]
  | matchPattern p => simp only [Query.answer, h.matchPattern]
  | matchText text => simp only [Query.answer, matchText, funext h.matchPattern]
  | ego center => simp only [Query.answer, ego, h.star]
  | atomsWithRoot root => simp only [Query.answer, atomsWithRoot, h.lookupRoot]
  | edgesWithAtoms atoms root => simp only [Query.answer, edgesWithAtoms, h.lookupAtoms]
  | attributeOf e key => cases hq
  | attributes => cases hq
  | textAttribute e key default => cases hq
  | intAttribute e key default => cases hq
  | floatAttribute e key default => cases hq
  | exportBytes => cases hq

end SameStructure

end SemanticHypergraph
