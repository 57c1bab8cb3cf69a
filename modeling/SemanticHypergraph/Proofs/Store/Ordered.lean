import SemanticHypergraph.Proofs.Store.Lawful

/-!
# The ordered store is lawful

Its two indexes hold a row for each child of each stored edge and for the root of each stored atom,
and no others. So every look-up is a scan of the sorted entities.
-/
namespace SemanticHypergraph.OrderedStore

/-- The indexes say of the stored entities what is to be said and nothing else. -/
structure Consistent (s : OrderedStore) : Prop where
  mem_parents {c p : Entity} : p ∈ s.parents.membersOf c ↔ p ∈ s.records ∧ c ∈ p.children
  mem_roots {root : String} {a : Atom} :
    a ∈ s.roots.membersOf root ↔ .atom a ∈ s.records ∧ a.root = root

def content (s : OrderedStore) : Content := fun e => s.records[e]?

instance : StoreView OrderedStore where
  Consistent := Consistent
  policy := policy
  content := content
  order := entities

variable {s : OrderedStore} {e : Entity}

theorem getElem?_records (s : OrderedStore) (e : Entity) : s.records[e]? = s.content e := rfl

theorem mem_records : e ∈ s.records ↔ s.content.isStored e :=
  Std.ExtTreeMap.mem_iff_isSome_getElem?

theorem contains_eq_isStored (s : OrderedStore) (e : Entity) :
    s.contains e = s.content.isStored e := Std.ExtTreeMap.contains_eq_isSome_getElem?

theorem mem_entities : e ∈ s.entities ↔ s.content.isStored e := by
  rw [entities, Std.ExtTreeMap.mem_keys, mem_records]

theorem ascending_entities (s : OrderedStore) : Ascending s.entities := ascending_keys s.records

theorem consistent_empty (name : String) (policy : PrimaryPolicy) :
    Consistent (empty name policy) where
  mem_parents := by simp [empty]
  mem_roots := by simp [empty]

theorem content_empty (name : String) (policy : PrimaryPolicy) :
    (empty name policy).content = Content.empty := by
  funext e
  simp [content, empty, Content.empty]

/-! ## Queries -/

theorem get_parents (hs : s.Consistent) (e : Entity) :
    s.parents.get e = s.entities.filter fun p => decide (e ∈ p.children) := by
  refine (s.parents.ascending_get e).ext ((ascending_entities s).filter _) fun p => ?_
  rw [Index.mem_get, hs.mem_parents, List.mem_filter, mem_entities, mem_records]
  simp

theorem attributeOf_eq_content (s : OrderedStore) (e : Entity) (name : String) :
    s.attributeOf e name = (s.content.attributesOf e)[name]? := by
  unfold attributeOf Content.attributesOf content
  cases s.records[e]? <;> simp

/-- A count over the records is a count over the entities. -/
theorem countWhere_eq_content (s : OrderedStore) (keep : Entity → Record → Bool) :
    s.countWhere keep = s.content.countWhere keep s.entities := by
  rw [countWhere, Content.countWhere, entities, ← Std.ExtTreeMap.map_fst_toList_eq_keys,
    List.countP_map]
  refine List.countP_congr fun p hp => ?_
  simp [content, getElem?_of_mem_toList hp]

theorem counts_eq_content (s : OrderedStore) : s.counts = s.content.counts s.entities := by
  simp [counts, Content.counts, countWhere_eq_content]

theorem attributes_eq_content (s : OrderedStore) :
    s.attributes = s.content.attributeRows s.entities := by
  rw [attributes, Content.attributeRows, entities, ← Std.ExtTreeMap.map_fst_toList_eq_keys,
    List.map_map]
  congr 1
  refine List.map_congr_left fun p hp => ?_
  simp [content, Content.attributesOf, getElem?_of_mem_toList hp]

/-- One row up the index is one step up a chain. -/
theorem mem_above_parents (hs : s.Consistent) {p : Entity} :
    p ∈ s.parents.above e ↔ s.content.Above e p := by
  have hrow : (fun c p => p ∈ s.parents.membersOf c) = s.content.Holds := by
    funext c p
    rw [hs.mem_parents, mem_records, Content.Holds]
  rw [Index.mem_above, hrow, Content.Above]

theorem lookupAtoms_eq_filter (hs : s.Consistent) (atoms : List Atom) (root : Option String) :
    s.lookupAtoms atoms root = s.entities.filter (Entity.joins atoms root) := by
  cases atoms with
  | nil => simp [lookupAtoms, Entity.joins]
  | cons a rest =>
    simp only [lookupAtoms]
    rw [get_parents hs, List.filter_filter]
    refine List.filter_congr fun p hp => ?_
    have hstored : p ∈ s.records := mem_records.2 (mem_entities.1 hp)
    have hall : (rest.all fun b => (s.parents.membersOf (.atom b)).contains p) =
        rest.all fun b => decide (.atom b ∈ p.children) := by
      congr 1
      funext b
      rw [Bool.eq_iff_iff, Std.ExtTreeSet.contains_iff_mem, hs.mem_parents]
      simp [hstored]
    rw [hall]
    simp [Entity.joins, Bool.and_comm, Bool.and_left_comm]

theorem search_eq_filter (hs : s.Consistent) (template : Entity) :
    s.search template = s.entities.filter template.isCandidate := by
  unfold search
  split
  · next anchor h =>
    rw [get_parents hs]
    exact List.filter_congr fun p _ => by simp [Entity.isCandidate, h]
  · next h => exact List.filter_congr fun p _ => by simp [Entity.isCandidate, h]

/-! ## Changes -/

theorem content_setRecord (s : OrderedStore) (e : Entity) (r : Record) :
    (s.setRecord e r).content = s.content.put e r := by
  funext x
  simp only [content, setRecord, Std.ExtTreeMap.getElem?_insert, Std.compare_eq_iff_eq]
  by_cases h : e = x
  · subst h
    simp
  · rw [if_neg h, Content.put_of_ne (Ne.symm h)]
    rfl

theorem missingChild?_eq_content (s : OrderedStore) (e : Entity) :
    s.missingChild? e = s.content.missingChild? e := by
  simp [missingChild?, Content.missingChild?, contains_eq_isStored]

theorem records_link (s : OrderedStore) (e : Entity) : (s.link e).records = s.records := by
  cases e <;> rfl

theorem content_link (s : OrderedStore) (e : Entity) : (s.link e).content = s.content := by
  cases e <;> rfl

theorem name_link (s : OrderedStore) (e : Entity) : (s.link e).name = s.name := by
  cases e <;> rfl

theorem policy_link (s : OrderedStore) (e : Entity) : (s.link e).policy = s.policy := by
  cases e <;> rfl

theorem name_unlink (s : OrderedStore) (e : Entity) : (s.unlink e).name = s.name := by
  cases e <;> rfl

theorem policy_unlink (s : OrderedStore) (e : Entity) : (s.unlink e).policy = s.policy := by
  cases e <;> rfl

theorem mem_parents_link {c p : Entity} : p ∈ (s.link e).parents.membersOf c ↔
    p ∈ s.parents.membersOf c ∨ (c ∈ e.children ∧ p = e) := by
  cases e with
  | atom a => simp [link]
  | edge cs => exact Index.mem_foldl_add

theorem mem_roots_link {root : String} {a : Atom} : a ∈ (s.link e).roots.membersOf root ↔
    a ∈ s.roots.membersOf root ∨ (.atom a = e ∧ a.root = root) := by
  cases e with
  | atom b =>
    simp only [link, Index.mem_add, Entity.atom.injEq]
    grind
  | edge cs => simp [link]

theorem mem_parents_unlink {c p : Entity} : p ∈ (s.unlink e).parents.membersOf c ↔
    p ∈ s.parents.membersOf c ∧ ¬ (c ∈ e.children ∧ p = e) := by
  cases e with
  | atom a => simp [unlink]
  | edge cs => exact Index.mem_foldl_remove

theorem mem_roots_unlink {root : String} {a : Atom} : a ∈ (s.unlink e).roots.membersOf root ↔
    a ∈ s.roots.membersOf root ∧ ¬ (.atom a = e ∧ a.root = root) := by
  cases e with
  | atom b =>
    simp only [unlink, Index.mem_remove, Entity.atom.injEq]
    grind
  | edge cs => simp [unlink]

theorem mem_setRecord {r : Record} {x : Entity} :
    x ∈ (s.setRecord e r).records ↔ x = e ∨ x ∈ s.records := by
  rw [setRecord, Std.ExtTreeMap.mem_insert, Std.compare_eq_iff_eq, eq_comm]

/-- A new record of an entity that is stored changes no row. -/
theorem Consistent.setRecord (hs : s.Consistent) (he : e ∈ s.records) (r : Record) :
    (s.setRecord e r).Consistent where
  mem_parents {c p} := by
    rw [mem_setRecord, OrderedStore.setRecord, hs.mem_parents]
    grind
  mem_roots {root a} := by
    rw [mem_setRecord, OrderedStore.setRecord, hs.mem_roots]
    grind

theorem Consistent.link_setRecord (hs : s.Consistent) (e : Entity) (r : Record) :
    ((s.link e).setRecord e r).Consistent where
  mem_parents {c p} := by
    rw [mem_setRecord, records_link, OrderedStore.setRecord, mem_parents_link, hs.mem_parents]
    grind
  mem_roots {root a} := by
    rw [mem_setRecord, records_link, OrderedStore.setRecord, mem_roots_link, hs.mem_roots]
    grind

theorem Consistent.unlink_erase (hs : s.Consistent) (e : Entity) :
    Consistent { s.unlink e with records := s.records.erase e } where
  mem_parents {c p} := by
    rw [mem_parents_unlink, hs.mem_parents, Std.ExtTreeMap.mem_erase, Ne, Std.compare_eq_iff_eq]
    grind
  mem_roots {root a} := by
    rw [mem_roots_unlink, hs.mem_roots, Std.ExtTreeMap.mem_erase, Ne, Std.compare_eq_iff_eq]
    grind

theorem content_unlink_erase (s : OrderedStore) (e : Entity) :
    content { s.unlink e with records := s.records.erase e } = s.content.drop e := by
  funext x
  simp only [content, Std.ExtTreeMap.getElem?_erase, Std.compare_eq_iff_eq]
  by_cases h : e = x
  · subst h
    simp
  · rw [if_neg h, Content.drop_of_ne (Ne.symm h)]
    rfl

section Realizes

variable {α : Type}

theorem realizes_of {u : Update OrderedStore α} {v : PrimaryPolicy → Update Content α}
    (h : ∀ s : OrderedStore, s.Consistent → ∃ r t, u s = (r, t) ∧
      v s.policy s.content = (r, t.content) ∧ t.Consistent ∧ t.name = s.name ∧
      t.policy = s.policy) : Realizes u v := .intro h

theorem insert_realizes (e : Entity) (isPrimary : Bool) :
    Realizes (Hypergraph.insert e isPrimary : Update OrderedStore Unit)
      (Content.insert e isPrimary) := by
  refine realizes_of fun s hs => ?_
  simp only [Hypergraph.insert, OrderedStore.insert, getElem?_records, missingChild?_eq_content]
  cases h : s.content e with
  | some r =>
    rw [Content.insert_of_some h, ← content_setRecord]
    exact ⟨_, _, rfl, rfl, hs.setRecord (mem_records.2 (Content.isStored_of_eq_some h)) _, rfl, rfl⟩
  | none =>
    cases hm : s.content.missingChild? e with
    | some child =>
      rw [Content.insert_of_missing h hm]
      exact ⟨_, _, rfl, rfl, hs, rfl, rfl⟩
    | none =>
      rw [Content.insert_of_none h hm, ← content_link, ← content_setRecord]
      exact ⟨_, _, rfl, rfl, hs.link_setRecord e _, name_link s e, policy_link s e⟩

theorem delete_realizes (e : Entity) :
    Realizes (Hypergraph.delete e : Update OrderedStore Bool) fun _ => Content.delete e := by
  refine realizes_of fun s hs => ?_
  simp only [Hypergraph.delete, OrderedStore.delete, contains_eq_isStored, Content.delete]
  cases h : s.content.isStored e with
  | true =>
    rw [← content_unlink_erase]
    exact ⟨_, _, rfl, rfl, hs.unlink_erase e, name_unlink s e, policy_unlink s e⟩
  | false =>
    rw [Content.drop_of_none (by simpa [Content.isStored] using h)]
    exact ⟨_, _, rfl, rfl, hs, rfl, rfl⟩

theorem setPrimary_realizes (e : Entity) (isPrimary : Bool) :
    Realizes (Hypergraph.setPrimary e isPrimary : Update OrderedStore Unit)
      fun _ => Content.setPrimary e isPrimary := by
  refine realizes_of fun s hs => ?_
  simp only [Hypergraph.setPrimary, OrderedStore.setPrimary, getElem?_records]
  cases h : s.content e with
  | some r =>
    rw [Content.setPrimary_of_some h, ← content_setRecord]
    exact ⟨_, _, rfl, rfl, hs.setRecord (mem_records.2 (Content.isStored_of_eq_some h)) _, rfl, rfl⟩
  | none =>
    rw [Content.setPrimary_of_none h]
    exact ⟨_, _, rfl, rfl, hs, rfl, rfl⟩

theorem setAttribute_realizes (e : Entity) (name : String) (value : Value) :
    Realizes (Hypergraph.setAttribute e name value : Update OrderedStore Bool)
      fun _ => Content.setAttribute e name value := by
  refine realizes_of fun s hs => ?_
  simp only [Hypergraph.setAttribute, OrderedStore.setAttribute, getElem?_records]
  cases h : s.content e with
  | some r =>
    rw [Content.setAttribute_of_some h, ← content_setRecord]
    exact ⟨_, _, rfl, rfl, hs.setRecord (mem_records.2 (Content.isStored_of_eq_some h)) _, rfl, rfl⟩
  | none =>
    rw [Content.setAttribute_of_none h]
    exact ⟨_, _, rfl, rfl, hs, rfl, rfl⟩

theorem stepAttribute_realizes (e : Entity) (name : String) (step : Step) :
    Realizes (Hypergraph.stepAttribute e name step : Update OrderedStore (Option Value))
      fun _ => Content.stepAttribute e name step := by
  refine realizes_of fun s hs => ?_
  simp only [Hypergraph.stepAttribute, OrderedStore.stepAttribute, getElem?_records]
  cases h : s.content e with
  | some r =>
    cases hv : Value.stepped r.attributes[name]? name step with
    | ok value =>
      simp only [hv]
      rw [Content.stepAttribute_of_ok h hv, ← content_setRecord]
      exact ⟨_, _, rfl, rfl, hs.setRecord (mem_records.2 (Content.isStored_of_eq_some h)) _, rfl,
        rfl⟩
    | error error =>
      simp only [hv]
      rw [Content.stepAttribute_of_error h hv]
      exact ⟨_, _, rfl, rfl, hs, rfl, rfl⟩
  | none =>
    rw [Content.stepAttribute_of_none h]
    exact ⟨_, _, rfl, rfl, hs, rfl, rfl⟩

theorem destroy_realizes :
    Realizes (Hypergraph.destroy : Update OrderedStore Unit) fun _ => Content.destroy := by
  refine realizes_of fun s hs => ⟨_, _, rfl, ?_, consistent_empty s.name s.policy, rfl, rfl⟩
  rw [destroy, content_empty]
  rfl

theorem close_realizes :
    Realizes (Hypergraph.close : Update OrderedStore Unit) fun _ => pure () :=
  realizes_of fun _ hs => ⟨_, _, rfl, rfl, hs, rfl, rfl⟩

end Realizes

instance : LawfulHypergraph OrderedStore where
  nodup_order _ := (ascending_entities _).nodup
  mem_order _ := mem_entities
  contains_eq _ e := congrArg _ (contains_eq_isStored _ e)
  isPrimary_eq _ _ := rfl
  entities_eq _ := rfl
  attributeOf_eq _ e name := congrArg _ (attributeOf_eq_content _ e name)
  degree_eq hs e := congrArg (fun ps => Except.ok (List.countP _ ps)) (get_parents hs e)
  star_eq hs e := congrArg _ (get_parents hs e)
  star_some_eq hs e n := congrArg (fun ps => Except.ok (List.take n ps)) (get_parents hs e)
  counts_eq _ := congrArg _ (counts_eq_content _)
  deepDegree_eq {s} hs e :=
    ⟨s.parents.above e, (s.parents.ascending_above e).nodup, fun _ => mem_above_parents hs, rfl⟩
  lookupRoot_eq {s} hs root :=
    ⟨s.roots.get root, s.roots.ascending_get root, fun a => by
      rw [Index.mem_get, hs.mem_roots, mem_records]; rfl, rfl⟩
  lookupAtoms_eq hs atoms root := congrArg _ (lookupAtoms_eq_filter hs atoms root)
  search_eq hs template := congrArg _ (search_eq_filter hs template)
  attributes_eq _ := congrArg _ (attributes_eq_content _)
  insert_realizes := insert_realizes
  delete_realizes := delete_realizes
  setPrimary_realizes := setPrimary_realizes
  setAttribute_realizes := setAttribute_realizes
  stepAttribute_realizes := stepAttribute_realizes
  destroy_realizes := destroy_realizes
  close_realizes := close_realizes

end SemanticHypergraph.OrderedStore
