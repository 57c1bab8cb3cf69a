import SemanticHypergraph.Proofs.Store.Capture
import SemanticHypergraph.Proofs.Store.Matching

/-!
# Every query is answered

A lawful store refuses a query only for a text that cannot be read. Its own tables never fail it.
-/
namespace SemanticHypergraph

open SemanticHypergraph.Hypergraph LawfulHypergraph

/-- A text is refused as one that breaks the grammar. -/
theorem Pattern.parse_error {text : String} {e : Error} (h : Pattern.parse text = .error e) :
    ∃ reason position, e = .parse reason position := by
  unfold Pattern.parse Entity.parse at h
  cases hread : Entity.readSized text.utf8ByteSize text.toList with
  | ok entity =>
    rw [hread] at h
    cases h
  | error r =>
    rw [hread] at h
    cases h
    exact ⟨_, _, rfl⟩

variable {σ : Type} [Hypergraph σ] [LawfulHypergraph σ] {s : σ}

theorem Query.answer_eq_ok (hs : Consistent s) (q : Query) :
    (∃ a, q.answer s = .ok a) ∨
      ∃ text e, q = .matchText text ∧ Pattern.parse text = .error e ∧ q.answer s = .error e := by
  cases q with
  | name => exact .inl ⟨_, rfl⟩
  | contains e => exact .inl ⟨_, by rw [answer, contains_eq hs]; rfl⟩
  | isPrimary e => exact .inl ⟨_, by rw [answer, isPrimary_eq hs]; rfl⟩
  | entities => exact .inl ⟨_, by rw [answer, entities_eq hs]; rfl⟩
  | attributeOf e name => exact .inl ⟨_, by rw [answer, attributeOf_eq hs]; rfl⟩
  | degree e => exact .inl ⟨_, by rw [answer, degree_eq hs]; rfl⟩
  | star e limit =>
    cases limit with
    | none => exact .inl ⟨_, by rw [answer, star_eq hs]; rfl⟩
    | some n => exact .inl ⟨_, by rw [answer, star_some_eq hs, star_eq hs]; rfl⟩
  | counts => exact .inl ⟨_, by rw [answer, counts_eq hs]; rfl⟩
  | deepDegree e =>
    obtain ⟨es, _, _, h⟩ := deepDegree_eq hs e
    exact .inl ⟨_, by rw [answer, h]; rfl⟩
  | lookupRoot root =>
    obtain ⟨as, _, _, h⟩ := lookupRoot_eq hs root
    exact .inl ⟨_, by rw [answer, h]; rfl⟩
  | lookupAtoms atoms root => exact .inl ⟨_, by rw [answer, lookupAtoms_eq hs]; rfl⟩
  | search template => exact .inl ⟨_, by rw [answer, search_eq hs]; rfl⟩
  | attributes => exact .inl ⟨_, by rw [answer, attributes_eq hs]; rfl⟩
  | all => exact .inl ⟨_, by rw [answer, Hypergraph.all, entities_eq hs]; rfl⟩
  | allAtoms => exact .inl ⟨_, by rw [answer, Hypergraph.allAtoms, entities_eq hs]; rfl⟩
  | allEdges => exact .inl ⟨_, by rw [answer, Hypergraph.allEdges, entities_eq hs]; rfl⟩
  | matchPattern p =>
    obtain ⟨found, h, _⟩ := matchPattern_eq_filter hs p
    exact .inl ⟨_, by rw [answer, h]; rfl⟩
  | matchText text =>
    cases hp : Pattern.parse text with
    | error e => exact .inr ⟨text, e, rfl, hp, by rw [answer, Hypergraph.matchText, hp]; rfl⟩
    | ok p =>
      obtain ⟨found, h, _⟩ := matchPattern_eq_filter hs p
      exact .inl ⟨_, by rw [answer, Hypergraph.matchText, hp, Except.bind, h]; rfl⟩
  | ego center => exact .inl ⟨_, by rw [answer, Hypergraph.ego, star_eq hs]; rfl⟩
  | atomsWithRoot root =>
    obtain ⟨as, _, _, h⟩ := lookupRoot_eq hs root
    rw [answer, Hypergraph.atomsWithRoot, h]
    split <;> exact .inl ⟨_, rfl⟩
  | edgesWithAtoms atoms root =>
    exact .inl ⟨_, by rw [answer, Hypergraph.edgesWithAtoms, lookupAtoms_eq hs]; rfl⟩
  | textAttribute e name default =>
    exact .inl ⟨_, by rw [answer, Hypergraph.textAttribute, attributeOf_eq hs]; rfl⟩
  | intAttribute e name default =>
    exact .inl ⟨_, by rw [answer, Hypergraph.intAttribute, attributeOf_eq hs]; rfl⟩
  | floatAttribute e name default =>
    exact .inl ⟨_, by rw [answer, Hypergraph.floatAttribute, attributeOf_eq hs]; rfl⟩
  | exportBytes => exact .inl ⟨_, by rw [answer, exportBytes_eq hs]; rfl⟩

/-- A query fails in no other way than by a text that breaks the grammar. -/
theorem Query.answer_error (hs : Consistent s) {q : Query} {e : Error}
    (h : q.answer s = .error e) : ∃ reason position, e = .parse reason position := by
  rcases q.answer_eq_ok hs with ⟨a, ha⟩ | ⟨text, e', _, hparse, he⟩
  · rw [ha] at h
    cases h
  · rw [he] at h
    cases h
    exact Pattern.parse_error hparse

end SemanticHypergraph
