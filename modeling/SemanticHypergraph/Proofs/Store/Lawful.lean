import SemanticHypergraph.Proofs.Store.Content
import SemanticHypergraph.Proofs.Store.Table

/-!
# Lawful stores

A store is lawful if, as long as it is consistent, every change does to its content what the
contract says and every query is answered from the content and the order of the scan alone. What is
built on the contract need only be studied once, for all lawful stores.
-/
namespace SemanticHypergraph

open SemanticHypergraph.Hypergraph

/-- The second update goes on from where the first one left, unless that failed. -/
theorem Update.bind_apply {σ α β : Type} (u : Update σ α) (f : α → Update σ β) (s : σ) :
    (u >>= f) s = match (u s).1 with
      | .ok a => f a (u s).2
      | .error e => (.error e, (u s).2) := by
  change ExceptT.bindCont f (u s).1 (u s).2 = _
  cases (u s).1 <;> rfl

/-- What is made of the answer does not matter to the state. -/
theorem Update.state_map {σ α β : Type} (u : Update σ α) (f : α → β) (s : σ) :
    ((do return f (← u) : Update σ β) s).2 = (u s).2 := by
  rw [Update.bind_apply]
  cases (u s).1 <;> rfl

/-- How a store is looked at: its invariant, its policy, its content and the order of its scan. -/
class StoreView (σ : Type) where
  Consistent : σ → Prop
  policy : σ → PrimaryPolicy
  content : σ → Content
  order : σ → List Entity

export StoreView (Consistent content order)

section Realizes

variable {σ α : Type} [Hypergraph σ] [StoreView σ]

/-- In a consistent store the update answers and changes the content as given for its policy, and
keeps the rest. -/
structure Realizes (u : Update σ α) (v : PrimaryPolicy → Update Content α) : Prop where
  consistent : ∀ {s}, Consistent s → Consistent (u s).2
  name : ∀ {s}, Consistent s → Hypergraph.name (u s).2 = Hypergraph.name s
  policy : ∀ {s}, Consistent s → StoreView.policy (u s).2 = StoreView.policy s
  result : ∀ {s}, Consistent s → (u s).1 = (v (StoreView.policy s) (content s)).1
  content : ∀ {s}, Consistent s → content (u s).2 = (v (StoreView.policy s) (content s)).2

/-- The answer and the store after it, given for every consistent store. -/
theorem Realizes.intro {u : Update σ α} {v : PrimaryPolicy → Update Content α}
    (h : ∀ s, Consistent s → ∃ r t, u s = (r, t) ∧
      v (StoreView.policy s) (SemanticHypergraph.content s) = (r, SemanticHypergraph.content t) ∧
      Consistent t ∧ Hypergraph.name t = Hypergraph.name s ∧
      StoreView.policy t = StoreView.policy s) : Realizes u v := by
  constructor <;> intro s hs <;> obtain ⟨r, t, hu, hv, ht, hname, hpolicy⟩ := h s hs <;>
    rw [hu]
  · exact ht
  · exact hname
  · exact hpolicy
  · rw [hv]
  · rw [hv]

theorem Realizes.pure (a : α) : Realizes (pure a : Update σ α) fun _ => pure a :=
  .intro fun s hs => ⟨.ok a, s, rfl, rfl, hs, rfl, rfl⟩

theorem Realizes.bind {β : Type} {u : Update σ α} {v : PrimaryPolicy → Update Content α}
    {f : α → Update σ β} {g : α → PrimaryPolicy → Update Content β} (h : Realizes u v)
    (hf : ∀ a, Realizes (f a) (g a)) : Realizes (u >>= f) fun p => v p >>= fun a => g a p := by
  refine .intro fun s hs => ?_
  have ht := h.consistent hs
  rw [Update.bind_apply, Update.bind_apply, ← h.result hs, ← h.content hs]
  cases (u s).1 with
  | error e => exact ⟨_, _, rfl, rfl, ht, h.name hs, h.policy hs⟩
  | ok a =>
    have hresult := (hf a).result ht
    have hcontent := (hf a).content ht
    rw [h.policy hs] at hresult hcontent
    refine ⟨_, _, rfl, Prod.ext hresult.symm hcontent.symm, (hf a).consistent ht, ?_, ?_⟩
    · rw [(hf a).name ht, h.name hs]
    · rw [(hf a).policy ht, h.policy hs]

end Realizes

class LawfulHypergraph (σ : Type) [Hypergraph σ] extends StoreView σ where
  nodup_order {s : σ} (hs : Consistent s) : (order s).Nodup
  mem_order {s : σ} (hs : Consistent s) {e : Entity} : e ∈ order s ↔ (content s).isStored e
  contains_eq {s : σ} (hs : Consistent s) (e : Entity) :
    contains s e = .ok ((content s).isStored e)
  isPrimary_eq {s : σ} (hs : Consistent s) (e : Entity) :
    isPrimary s e = .ok ((content s).isPrimary e)
  entities_eq {s : σ} (hs : Consistent s) : entities s = .ok (order s)
  attributeOf_eq {s : σ} (hs : Consistent s) (e : Entity) (name : String) :
    attributeOf s e name = .ok ((content s).attributesOf e)[name]?
  degree_eq {s : σ} (hs : Consistent s) (e : Entity) : degree s e =
    .ok (((order s).filter fun p => decide (e ∈ p.children)).countP (content s).isPrimary)
  star_eq {s : σ} (hs : Consistent s) (e : Entity) :
    star s e none = .ok ((order s).filter fun p => decide (e ∈ p.children))
  star_some_eq {s : σ} (hs : Consistent s) (e : Entity) (n : Nat) :
    star s e (some n) = .ok (((order s).filter fun p => decide (e ∈ p.children)).take n)
  counts_eq {s : σ} (hs : Consistent s) : counts s = .ok ((content s).counts (order s))
  /-- Every edge above is counted once. -/
  deepDegree_eq {s : σ} (hs : Consistent s) (e : Entity) : ∃ es : List Entity,
    es.Nodup ∧ (∀ p, p ∈ es ↔ (content s).Above e p) ∧
      deepDegree s e = .ok (es.countP (content s).isPrimary)
  lookupRoot_eq {s : σ} (hs : Consistent s) (root : String) : ∃ as : List Atom,
    Ascending as ∧ (∀ a, a ∈ as ↔ (content s).isStored (.atom a) ∧ a.root = root) ∧
      lookupRoot s root = .ok as
  lookupAtoms_eq {s : σ} (hs : Consistent s) (atoms : List Atom) (root : Option String) :
    lookupAtoms s atoms root = .ok ((order s).filter (Entity.joins atoms root))
  search_eq {s : σ} (hs : Consistent s) (template : Entity) :
    search s template = .ok ((order s).filter template.isCandidate)
  attributes_eq {s : σ} (hs : Consistent s) :
    attributes s = .ok ((content s).attributeRows (order s))
  insert_realizes (e : Entity) (isPrimary : Bool) :
    Realizes (insert e isPrimary : Update σ Unit) (Content.insert e isPrimary)
  delete_realizes (e : Entity) : Realizes (delete e : Update σ Bool) fun _ => Content.delete e
  setPrimary_realizes (e : Entity) (isPrimary : Bool) :
    Realizes (setPrimary e isPrimary : Update σ Unit) fun _ => Content.setPrimary e isPrimary
  setAttribute_realizes (e : Entity) (name : String) (value : Value) :
    Realizes (setAttribute e name value : Update σ Bool) fun _ => Content.setAttribute e name value
  stepAttribute_realizes (e : Entity) (name : String) (step : Step) :
    Realizes (stepAttribute e name step : Update σ (Option Value))
      fun _ => Content.stepAttribute e name step
  destroy_realizes : Realizes (destroy : Update σ Unit) fun _ => Content.destroy
  close_realizes : Realizes (close : Update σ Unit) fun _ => pure ()

section Lawful

variable {σ : Type} [Hypergraph σ] [LawfulHypergraph σ] {s : σ}

open LawfulHypergraph

theorem contains_eq_true_iff (hs : Consistent s) {e : Entity} :
    contains s e = .ok true ↔ (content s).isStored e := by
  rw [contains_eq hs]
  simp

theorem isPrimary_eq_true_iff (hs : Consistent s) {e : Entity} :
    isPrimary s e = .ok true ↔ (content s).isPrimary e := by
  rw [isPrimary_eq hs]
  simp

theorem isPrimary_of_content {r : Record} {e : Entity} (hs : Consistent s)
    (he : content s e = some r) : isPrimary s e = .ok r.isPrimary := by
  rw [isPrimary_eq hs, Content.isPrimary, he]
  rfl

theorem attributeOf_of_content {r : Record} {e : Entity} (hs : Consistent s)
    (he : content s e = some r) (key : String) : attributeOf s e key = .ok r.attributes[key]? := by
  rw [attributeOf_eq hs, Content.attributesOf, he]
  rfl

theorem attributeOf_of_absent {e : Entity} (hs : Consistent s) (he : content s e = none)
    (key : String) : attributeOf s e key = .ok none := by
  rw [attributeOf_eq hs, Content.attributesOf, he]
  rfl

end Lawful

end SemanticHypergraph
