import SemanticHypergraph.Proofs.Entity.Containment
import SemanticHypergraph.Proofs.Store.Reachable

/-!
# Deep removal of what is not shared

The edges inside an entity are gone through once, in preorder, and each is judged by the store as it
is at that moment. An edge may be kept because of another that goes later on; but then it is a child
of that edge, so it comes again after it. In the end exactly those edges are left that some stored
edge holds.
-/
namespace SemanticHypergraph

open SemanticHypergraph.Hypergraph LawfulHypergraph

/-- What is left of a content when those of the listed edges that nothing holds have gone. -/
structure Pruned (es : List Entity) (c d : Content) : Prop where
  kept : ∀ x, d x = c x ∨ (x ∈ es ∧ d x = none)
  held : ∀ x ∈ es, d.isStored x → ∃ p, d.Holds x p
  unheld : ∀ x, c.isStored x → d x = none → ∀ p, ¬ d.Holds x p

section Pruned

variable {es : List Entity} {c d : Content} {x e p : Entity}

theorem Pruned.eq_of_isStored (h : Pruned es c d) (hx : d.isStored x) : d x = c x := by
  rcases h.kept x with heq | ⟨_, hnone⟩
  · exact heq
  · exact absurd hx (Content.not_isStored_of_eq_none hnone)

theorem Pruned.holds (h : Pruned es c d) (hx : d.Holds x p) : c.Holds x p := by
  refine ⟨?_, hx.2⟩
  rw [Content.isStored, ← h.eq_of_isStored hx.1]
  exact hx.1

theorem pruned_nil (c : Content) : Pruned [] c c where
  kept _ := .inl rfl
  held _ hx := nomatch hx
  unheld _ hx hnone := absurd hx (Content.not_isStored_of_eq_none hnone)

/-- An edge that something holds may stay for now. -/
theorem Pruned.cons_held (h : Pruned es c d) (hfollow : Entity.ChildrenFollow es)
    (he : e.isEdge) (hp : c.Holds e p) : Pruned (e :: es) c d where
  kept x := (h.kept x).imp_right fun hx => ⟨List.mem_cons_of_mem e hx.1, hx.2⟩
  held x hx hstored := by
    rcases List.mem_cons.1 hx with rfl | hx
    · rcases h.kept p with heq | ⟨hmem, _⟩
      · refine ⟨p, ?_, hp.2⟩
        rw [Content.isStored, heq]
        exact hp.1
      · -- what holds the edge goes later, and the edge comes again after it
        exact h.held x (hfollow.mem hmem hp.2 he) hstored
    · exact h.held x hx hstored
  unheld := h.unheld

/-- An edge that nothing holds is gone for good. -/
theorem Pruned.cons_unheld (h : Pruned es (c.drop e) d) (hp : ∀ p, ¬ c.Holds e p) :
    Pruned (e :: es) c d := by
  have hgone : d e = none := by
    rcases h.kept e with heq | ⟨_, hnone⟩
    · rw [heq, Content.drop_self]
    · exact hnone
  refine ⟨fun x => ?_, fun x hx hstored => ?_, fun x hx hnone p hholds => ?_⟩
  · by_cases hxe : x = e
    · subst hxe
      exact .inr ⟨List.mem_cons_self, hgone⟩
    · refine (h.kept x).imp ?_ fun hx => ⟨List.mem_cons_of_mem e hx.1, hx.2⟩
      intro heq
      rw [heq, Content.drop_of_ne hxe]
  · rcases List.mem_cons.1 hx with rfl | hx
    · exact absurd hstored (Content.not_isStored_of_eq_none hgone)
    · exact h.held x hx hstored
  · by_cases hxe : x = e
    · subst hxe
      have hdrop := h.holds hholds
      exact hp p ⟨(Content.isStored_drop.1 hdrop.1).2, hdrop.2⟩
    · exact h.unheld x (Content.isStored_drop.2 ⟨hxe, hx⟩) hnone p hholds

end Pruned

section Lawful

variable {σ : Type} [Hypergraph σ] [LawfulHypergraph σ] {s : σ}

/-- A single edge of the star tells whether anything holds the entity. -/
theorem star_one (hs : Consistent s) (e : Entity) : ∃ found, star s e (some 1) = .ok found ∧
    (found = [] ↔ ∀ p, ¬ (content s).Holds e p) := by
  refine ⟨_, star_some_eq hs e 1, ?_⟩
  rw [List.take_eq_nil_iff, or_iff_right Nat.one_ne_zero, List.filter_eq_nil_iff]
  refine forall_congr' fun p => ?_
  rw [mem_order hs, decide_eq_true_iff, Content.Holds, not_and]

/-- What follows a deletion goes on in the store without the entity. -/
theorem delete_bind {α : Type} (hs : Consistent s) (e : Entity) (f : Bool → Update σ α) :
    ∃ t, (delete e >>= f) s = f ((content s).isStored e) t ∧ Consistent t ∧
      content t = (content s).drop e := by
  have hrealizes := delete_realizes (σ := σ) e
  refine ⟨(delete e s).2, ?_, hrealizes.consistent hs, hrealizes.content hs⟩
  rw [Update.bind_apply, hrealizes.result hs]
  rfl

omit [LawfulHypergraph σ] in
theorem deleteEdges_cons {e : Entity} {es found : List Entity}
    (hfound : star s e (some 1) = .ok found) : deleteEdges true (e :: es) s =
      if found = [] then (delete e >>= fun _ => deleteEdges true es) s
      else deleteEdges true es s := by
  have hask : Update.ask (fun s => (star s e (some 1)).map fun found => !found.isEmpty) s =
      (.ok (!found.isEmpty), s) := by
    rw [Update.ask, hfound]
    rfl
  rw [deleteEdges, if_pos rfl, Update.bind_apply, hask]
  cases found <;> rfl

/-- The loop of a deep removal that spares what is shared. -/
theorem deleteEdges_pruned {es : List Entity} (hs : Consistent s)
    (hfollow : Entity.ChildrenFollow es) (hedges : ∀ x ∈ es, x.isEdge) : ∃ t,
    deleteEdges true es s = (.ok (), t) ∧ Consistent t ∧ Pruned es (content s) (content t) := by
  induction es generalizing s with
  | nil => exact ⟨s, rfl, hs, pruned_nil _⟩
  | cons e es ih =>
    have hedges' : ∀ x ∈ es, x.isEdge := fun x hx => hedges x (List.mem_cons_of_mem e hx)
    obtain ⟨found, hfound, hempty⟩ := star_one hs e
    rw [deleteEdges_cons hfound]
    split
    · next hnone =>
      obtain ⟨t, hdelete, ht, hcontent⟩ := delete_bind hs e fun _ => deleteEdges true es
      obtain ⟨u, hrun, hu, hpruned⟩ := ih ht hfollow.2 hedges'
      rw [hcontent] at hpruned
      exact ⟨u, hdelete.trans hrun, hu, hpruned.cons_unheld (hempty.1 hnone)⟩
    · next hsome =>
      have hheld : ∃ p, (content s).Holds e p := by
        by_contra hnot
        exact hsome (hempty.2 fun p hp => hnot ⟨p, hp⟩)
      obtain ⟨p, hp⟩ := hheld
      obtain ⟨u, hrun, hu, hpruned⟩ := ih hs hfollow.2 hedges'
      exact ⟨u, hrun, hu, hpruned.cons_held hfollow.2 (hedges e List.mem_cons_self) hp⟩

theorem removeWith_pruned (hs : Consistent s) (e : Entity) : ∃ t,
    removeWith e .deepUnshared s = (.ok ((content s).isStored e), t) ∧ Consistent t ∧
      Pruned (e.subedges.drop 1) ((content s).drop e) (content t) := by
  have hfollow : Entity.ChildrenFollow (e.subedges.drop 1) := by
    rw [Entity.drop_subedges]
    exact Entity.childrenFollow_preorderAll e.children
  have hedges : ∀ x ∈ e.subedges.drop 1, x.isEdge :=
    fun x hx => (Entity.mem_drop_subedges.1 hx).1
  obtain ⟨t, hdelete, ht, hcontent⟩ := delete_bind hs e fun existed => do
    deleteEdges true (e.subedges.drop 1)
    return existed
  obtain ⟨u, hrun, hu, hpruned⟩ := deleteEdges_pruned ht hfollow hedges
  rw [hcontent] at hpruned
  refine ⟨u, hdelete.trans ?_, hu, hpruned⟩
  rw [Update.bind_apply, hrun]
  rfl

end Lawful

/-- After deep removal of an entity it is gone, an edge inside it is left if and only if some edge
that is left holds it, and all else is as it was; what is left keeps its mark and its attributes. -/
theorem Store.Reachable.removeWith_deepUnshared {s : Store} (h : s.Reachable) (e : Entity) : ∃ t,
    removeWith e .deepUnshared s = (.ok ((content s).isStored e), t) ∧
      ¬ (content t).isStored e ∧
      (∀ x, x.isEdge → x.Inside e → (content s).isStored x →
        ((content t).isStored x ↔ ∃ p, (content t).Holds x p)) ∧
      (∀ x, x ≠ e → ¬ (x.isEdge ∧ x.Inside e) →
        ((content t).isStored x ↔ (content s).isStored x)) ∧
      ∀ x, (content t).isStored x → content t x = content s x := by
  obtain ⟨t, hrun, _, hpruned⟩ := removeWith_pruned h.consistent e
  have hgone : ¬ (content t).isStored e := by
    intro hstored
    have heq := hpruned.eq_of_isStored hstored
    rw [Content.drop_self] at heq
    exact Content.not_isStored_of_eq_none heq hstored
  refine ⟨t, hrun, hgone, fun x hx hin hstored => ⟨fun hleft => ?_, ?_⟩, fun x hxe hout => ?_,
    fun x hleft => ?_⟩
  · exact hpruned.held x (Entity.mem_drop_subedges.2 ⟨hx, hin⟩) hleft
  · rintro ⟨p, hp⟩
    have hxe : x ≠ e := by
      rintro rfl
      exact Entity.not_inside_self x hin
    by_contra hnot
    have hnone : content t x = none := by simpa [Content.isStored] using hnot
    exact hpruned.unheld x (Content.isStored_drop.2 ⟨hxe, hstored⟩) hnone p hp
  · rcases hpruned.kept x with heq | ⟨hmem, _⟩
    · rw [Content.isStored, heq, Content.drop_of_ne hxe]
      rfl
    · exact absurd (Entity.mem_drop_subedges.1 hmem) hout
  · have hxe : x ≠ e := by
      rintro rfl
      exact hgone hleft
    rw [hpruned.eq_of_isStored hleft, Content.drop_of_ne hxe]

/-- A shared edge survives the removal of one of the two that hold it. -/
theorem removeWith_deepUnshared_shared :
    let a : Entity := .atom { root := "a" }
    let b : Entity := .atom { root := "b" }
    let shared : Entity := .edge [a, b]
    let s := ((Operation.add (.edge [b, shared])).perform
      ((Operation.add (.edge [a, shared])).perform (Store.empty .file "test" .preserve)).2).2
    ∃ t, removeWith (.edge [a, shared]) .deepUnshared s = (.ok true, t) ∧
      (content t).isStored shared := by
  intro a b shared s
  have hs : s.Reachable := .perform _ (.perform _ (.empty .file "test" .preserve))
  obtain ⟨t, hrun, _, hinside, houtside, _⟩ := hs.removeWith_deepUnshared (.edge [a, shared])
  have hother : (content t).isStored (.edge [b, shared]) := by
    refine (houtside _ (by decide) ?_).2 (by rfl)
    rintro ⟨_, hin⟩
    exact Nat.lt_irrefl _ hin.weight_lt
  refine ⟨t, hrun, (hinside shared rfl (.single ?_) (by rfl)).2 ⟨_, hother, ?_⟩⟩
  · exact List.mem_cons_of_mem _ List.mem_cons_self
  · exact List.mem_cons_of_mem _ List.mem_cons_self

end SemanticHypergraph
