import SemanticHypergraph.Store.Operations
import SemanticHypergraph.Store.Ordered

/-!
# A store with the least contract

It answers only what every store must and refuses the look-ups that need an index. An entity can be
left pending in it: the next deletion, whether or not it finds anything, adds that entity before it
answers.
-/
namespace SemanticHypergraph

structure PendingStore where
  inner : OrderedStore
  pending : Option Entity

namespace PendingStore

/-- Carries out a change of the inner store. -/
def lift {α : Type} (update : Update OrderedStore α) : Update PendingStore α := fun s =>
  let (result, inner) := update s.inner
  (result, { s with inner := inner })

/-- Adds the entity that was left pending, which then is so no more. -/
def addPending : Update PendingStore Unit := fun s =>
  match s.pending with
  | none => (.ok (), s)
  | some e => (do let _ ← lift (Hypergraph.add e); pure ()) { s with pending := none }

instance : Hypergraph PendingStore where
  name s := s.inner.name
  contains s e := .ok (s.inner.contains e)
  insert e isPrimary := lift (Hypergraph.insert e isPrimary)
  delete e := do
    let found ← lift (Hypergraph.delete e)
    addPending
    return found
  isPrimary s e := .ok (s.inner.isPrimary e)
  setPrimary e isPrimary := lift (Hypergraph.setPrimary e isPrimary)
  entities s := .ok s.inner.entities
  attributeOf s e name := .ok (s.inner.attributeOf e name)
  setAttribute e name value := lift (Hypergraph.setAttribute e name value)
  stepAttribute e name step := lift (Hypergraph.stepAttribute e name step)
  degree s e := .ok (s.inner.degree e)
  star s e limit := .ok (s.inner.star e limit)
  counts s := .ok s.inner.counts
  destroy := lift Hypergraph.destroy

end PendingStore

end SemanticHypergraph
