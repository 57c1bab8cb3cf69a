import SemanticHypergraph.Proofs.Entity.Containment
import SemanticHypergraph.Proofs.Store.PatternRemoval

/-!
# Deep removal that spares nothing

The entity goes first and then every edge inside it, held by others or not, so that a parent is always
gone before its children. What the loop takes away is a list of entities, and in a lawful store it does
not matter in what order they go. What is left may dangle; all that is asked about it is answered from
what is left alone.
-/
namespace SemanticHypergraph

open SemanticHypergraph.Hypergraph LawfulHypergraph

/-- A store after entities have gone from it. What is left, in the order of the scan, is what was stored
and has not gone, with its mark and attributes, and every query about edges is answered with those of
them that are left. -/
structure Remains {σ : Type} [Hypergraph σ] (s t : σ) (gone : Entity → Prop) (left : List Entity) :
    Prop where
  entities : entities t = .ok left
  nodup : left.Nodup
  mem_left : ∀ x, x ∈ left ↔ contains s x = .ok true ∧ ¬ gone x
  contains : ∀ x, contains t x = .ok (decide (x ∈ left))
  kept : ∀ x, ¬ gone x → SameAt s t x
  star : ∀ x, star t x none = .ok (left.filter fun p => decide (x ∈ p.children))
  star_some : ∀ x n, Hypergraph.star t x (some n) =
    .ok ((left.filter fun p => decide (x ∈ p.children)).take n)
  degree : ∀ x, ∃ primary : List Entity, primary.Nodup ∧
    (∀ p, p ∈ primary ↔ p ∈ left ∧ x ∈ p.children ∧ isPrimary t p = .ok true) ∧
    degree t x = .ok primary.length
  lookupAtoms : ∀ atoms root, lookupAtoms t atoms root = .ok (left.filter (Entity.joins atoms root))

section Lawful

variable {σ : Type} [Hypergraph σ] [LawfulHypergraph σ] {s : σ}

/-- Whatever the content, the loop takes away the entities of the list. -/
theorem deleteEdges_realizes (es : List Entity) :
    Realizes (deleteEdges false es : Update σ Unit) fun _ c => (.ok (), c.dropAll es) := by
  induction es with
  | nil =>
    have hcontent : (fun c : Content => ((.ok (), c.dropAll []) : Except Error Unit × Content)) =
        (pure () : Update Content Unit) := by
      funext c
      rw [Content.dropAll_nil]
      rfl
    rw [hcontent]
    exact .pure ()
  | cons e es ih =>
    have hloop : (deleteEdges false (e :: es) : Update σ Unit) =
        delete e >>= fun _ => deleteEdges false es := by
      simp [deleteEdges]
    have hcontent : (fun c : Content => ((.ok (), c.dropAll (e :: es)) : Except Error Unit × Content)) =
        Content.delete e >>= fun _ c => (.ok (), c.dropAll es) := by
      funext c
      rw [← Content.dropAll_drop]
      rfl
    rw [hloop, hcontent]
    exact (delete_realizes e).bind fun _ => ih

theorem removeWith_deep_realizes (e : Entity) :
    Realizes (removeWith e .deep : Update σ Bool)
      fun _ c => (.ok (c.isStored e), c.dropAll (e :: e.subedges.drop 1)) := by
  have hcontent : (fun c : Content => ((.ok (c.isStored e), c.dropAll (e :: e.subedges.drop 1)) :
      Except Error Bool × Content)) = Content.delete e >>= fun existed =>
        (fun c => (.ok (), c.dropAll (e.subedges.drop 1)) : Update Content Unit) >>= fun _ =>
          pure existed := by
    funext c
    rw [← Content.dropAll_drop]
    rfl
  rw [hcontent]
  exact (delete_realizes e).bind fun existed => (deleteEdges_realizes _).bind fun _ => .pure existed

theorem remains_of_dropAll {t : σ} {es : List Entity} {gone : Entity → Prop} (hs : Consistent s)
    (ht : Consistent t) (hcontent : content t = (content s).dropAll es)
    (hgone : ∀ x, x ∈ es ↔ gone x) : Remains s t gone (order t) := by
  have hstored (x : Entity) : (content t).isStored x ↔ (content s).isStored x ∧ ¬ gone x := by
    rw [hcontent, Content.isStored, Content.dropAll, ← hgone x]
    by_cases hx : x ∈ es <;> simp [hx, Content.isStored]
  refine ⟨entities_eq ht, nodup_order ht, fun x => ?_, fun x => ?_, fun x hx => ?_, star_eq ht,
    star_some_eq ht, fun x => ?_, lookupAtoms_eq ht⟩
  · rw [mem_order ht, hstored, contains_eq_true_iff hs]
  · rw [contains_eq ht]
    simp [mem_order ht]
  · refine .of_content hs ht ?_
    rw [hcontent, Content.dropAll, if_neg fun h => hx ((hgone x).1 h)]
  · refine ⟨((order t).filter fun p => decide (x ∈ p.children)).filter (content t).isPrimary,
      ((nodup_order ht).filter _).filter _, fun p => ?_, ?_⟩
    · simp only [List.mem_filter, decide_eq_true_eq, isPrimary_eq_true_iff ht, and_assoc]
    · rw [degree_eq ht, List.countP_eq_length_filter]

end Lawful

/-- Deep removal answers whether the entity was there and takes away the entity and all edges inside it,
whoever else holds them, but no other atom. -/
theorem Store.Reachable.removeWith_deep {s : Store} (h : s.Reachable) (e : Entity) :
    ∃ found t left, contains s e = .ok found ∧ removeWith e .deep s = (.ok found, t) ∧
      Remains s t (fun x => x = e ∨ x.isEdge ∧ x.Inside e) left ∧
      ∀ a : Atom, .atom a ≠ e → SameAt s t (.atom a) := by
  have hs := h.consistent
  obtain ⟨t, hrun, ht, _, _, hcontent⟩ := (removeWith_deep_realizes e).yields hs rfl
  have hremains : Remains s t (fun x => x = e ∨ x.isEdge ∧ x.Inside e) (order t) := by
    refine remains_of_dropAll hs ht hcontent fun x => ?_
    rw [List.mem_cons, Entity.mem_drop_subedges]
  refine ⟨_, t, _, contains_eq hs e, hrun, hremains, fun a ha => hremains.kept _ ?_⟩
  rintro (heq | ⟨hedge, _⟩)
  · exact ha heq
  · cases hedge

/-- An edge that is not stored is removed deeply: the edge inside it goes all the same, and the edge
that holds that one too is left and still found from it. -/
theorem removeWith_deep_dangling :
    let a : Entity := .atom { root := "a" }
    let b : Entity := .atom { root := "b" }
    let inner : Entity := .edge [a, b]
    let s := Operation.run [.add (.edge [b, inner])] (Store.empty .file "test" .preserve)
    ∃ t, removeWith (.edge [a, inner]) .deep s = (.ok false, t) ∧
      contains s inner = .ok true ∧ contains t inner = .ok false ∧
      star t inner none = .ok [.edge [b, inner]] ∧ star t a none = .ok [] := by
  intro a b inner s
  have hs : s.Reachable := (Store.Reachable.empty .file "test" .preserve).run _
  obtain ⟨found, t, left, hfound, hrun, hremains, _⟩ := hs.removeWith_deep (.edge [a, inner])
  have hnone : contains s (.edge [a, inner]) = .ok false := by decide +kernel
  have ht : t = (removeWith (.edge [a, inner]) .deep s).2 := by rw [hrun]
  cases hnone.symm.trans hfound
  have hleft : left = [b, a, .edge [b, inner]] := by
    have hscan : entities (removeWith (.edge [a, inner]) .deep s).2 =
        .ok [b, a, .edge [b, inner]] := by decide +kernel
    rw [← ht, hremains.entities] at hscan
    exact Except.ok.inj hscan
  subst hleft
  refine ⟨t, hrun, by decide +kernel, ?_, ?_, ?_⟩
  · rw [hremains.contains]
    decide
  · rw [hremains.star]
    decide
  · rw [hremains.star]
    decide

end SemanticHypergraph
