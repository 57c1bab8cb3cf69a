import SemanticHypergraph.Proofs.Store.Numbered
import SemanticHypergraph.Proofs.Store.Ordered
import SemanticHypergraph.Store.Basic

/-!
# A store of either kind is lawful

It is looked at as the store that it is.
-/
namespace SemanticHypergraph.Store

instance : StoreView Store where
  Consistent
    | ordered s => s.Consistent
    | numbered s => s.Consistent
  policy := policy
  content
    | ordered s => s.content
    | numbered s => s.content
  order
    | ordered s => s.entities
    | numbered s => s.entities

theorem consistent_empty (backend : BackendKind) (name : String) (policy : PrimaryPolicy) :
    Consistent (empty backend name policy) := by
  cases backend with
  | memory => exact OrderedStore.consistent_empty name policy
  | file => exact NumberedStore.consistent_empty name policy

theorem content_empty (backend : BackendKind) (name : String) (policy : PrimaryPolicy) :
    content (empty backend name policy) = Content.empty := by
  cases backend with
  | memory => exact OrderedStore.content_empty name policy
  | file => exact NumberedStore.content_empty name policy

/-- What both kinds realize, a store of either kind does. -/
theorem realizes_change {α : Type} {u : Update OrderedStore α} {v : Update NumberedStore α}
    {w : PrimaryPolicy → Update Content α} (hu : Realizes u w) (hv : Realizes v w) :
    Realizes (change u v) w := by
  refine .intro fun s hs => ?_
  cases s with
  | ordered s =>
    exact ⟨_, _, rfl, Prod.ext (hu.result hs).symm (hu.content hs).symm, hu.consistent hs,
      hu.name hs, hu.policy hs⟩
  | numbered s =>
    exact ⟨_, _, rfl, Prod.ext (hv.result hs).symm (hv.content hs).symm, hv.consistent hs,
      hv.name hs, hv.policy hs⟩

open LawfulHypergraph in
instance : LawfulHypergraph Store where
  nodup_order {s} hs := by
    cases s with
    | ordered s => exact nodup_order (s := s) hs
    | numbered s => exact nodup_order (s := s) hs
  mem_order {s} hs := by
    cases s with
    | ordered s => exact mem_order (s := s) hs
    | numbered s => exact mem_order (s := s) hs
  contains_eq {s} hs e := by
    cases s with
    | ordered s => exact contains_eq (s := s) hs e
    | numbered s => exact contains_eq (s := s) hs e
  isPrimary_eq {s} hs e := by
    cases s with
    | ordered s => exact isPrimary_eq (s := s) hs e
    | numbered s => exact isPrimary_eq (s := s) hs e
  entities_eq {s} hs := by
    cases s with
    | ordered s => exact entities_eq (s := s) hs
    | numbered s => exact entities_eq (s := s) hs
  attributeOf_eq {s} hs e name := by
    cases s with
    | ordered s => exact attributeOf_eq (s := s) hs e name
    | numbered s => exact attributeOf_eq (s := s) hs e name
  degree_eq {s} hs e := by
    cases s with
    | ordered s => exact degree_eq (s := s) hs e
    | numbered s => exact degree_eq (s := s) hs e
  star_eq {s} hs e := by
    cases s with
    | ordered s => exact star_eq (s := s) hs e
    | numbered s => exact star_eq (s := s) hs e
  star_some_eq {s} hs e n := by
    cases s with
    | ordered s => exact star_some_eq (s := s) hs e n
    | numbered s => exact star_some_eq (s := s) hs e n
  counts_eq {s} hs := by
    cases s with
    | ordered s => exact counts_eq (s := s) hs
    | numbered s => exact counts_eq (s := s) hs
  deepDegree_eq {s} hs e := by
    cases s with
    | ordered s => exact deepDegree_eq (s := s) hs e
    | numbered s => exact deepDegree_eq (s := s) hs e
  lookupRoot_eq {s} hs root := by
    cases s with
    | ordered s => exact lookupRoot_eq (s := s) hs root
    | numbered s => exact lookupRoot_eq (s := s) hs root
  lookupAtoms_eq {s} hs atoms root := by
    cases s with
    | ordered s => exact lookupAtoms_eq (s := s) hs atoms root
    | numbered s => exact lookupAtoms_eq (s := s) hs atoms root
  search_eq {s} hs template := by
    cases s with
    | ordered s => exact search_eq (s := s) hs template
    | numbered s => exact search_eq (s := s) hs template
  attributes_eq {s} hs := by
    cases s with
    | ordered s => exact attributes_eq (s := s) hs
    | numbered s => exact attributes_eq (s := s) hs
  insert_realizes e isPrimary := realizes_change (insert_realizes e isPrimary)
    (insert_realizes e isPrimary)
  delete_realizes e := realizes_change (delete_realizes e) (delete_realizes e)
  setPrimary_realizes e isPrimary := realizes_change (setPrimary_realizes e isPrimary)
    (setPrimary_realizes e isPrimary)
  setAttribute_realizes e name value := realizes_change (setAttribute_realizes e name value)
    (setAttribute_realizes e name value)
  stepAttribute_realizes e name step := realizes_change (stepAttribute_realizes e name step)
    (stepAttribute_realizes e name step)
  destroy_realizes := realizes_change destroy_realizes destroy_realizes
  close_realizes := realizes_change close_realizes close_realizes

end SemanticHypergraph.Store
