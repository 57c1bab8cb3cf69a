import SemanticHypergraph.Proofs.Entity.Containment
import SemanticHypergraph.Proofs.Store.AddingOrder
import SemanticHypergraph.Proofs.Store.Structure

/-!
# An entity that is deleted and inserted again

Rows that name the entity as a child belong to the edges that hold it and stay while it is away; its own
rows go and come back; a numbered store remembers its number. So after both calls every table is what it
was, but for the attributes of the entity.
-/
namespace SemanticHypergraph

open SemanticHypergraph.Hypergraph LawfulHypergraph

/-- The content without the attributes of an entity. -/
def Content.withoutAttributes (c : Content) (e : Entity) : Content := fun x =>
  if x = e then (c e).map fun r => { r with attributes := ∅ } else c x

namespace Content

variable {c : Content} {e : Entity}

theorem withoutAttributes_of_some {r : Record} (h : c e = some r) :
    c.withoutAttributes e = c.put e { r with attributes := ∅ } := by
  funext x
  by_cases hx : x = e
  · subst hx
    simp [withoutAttributes, h]
  · simp [withoutAttributes, hx]

theorem mark?_withoutAttributes (c : Content) (e : Entity) :
    (c.withoutAttributes e).mark? = c.mark? := by
  funext x
  by_cases hx : x = e
  · subst hx
    cases h : c x <;> simp [mark?, withoutAttributes, h]
  · simp [mark?, withoutAttributes, hx]

theorem attributesOf_withoutAttributes (c : Content) (e x : Entity) :
    (c.withoutAttributes e).attributesOf x = if x = e then ∅ else c.attributesOf x := by
  by_cases hx : x = e
  · subst hx
    cases h : c x <;> simp [attributesOf, withoutAttributes, h]
  · simp [attributesOf, withoutAttributes, hx]

/-- The rows of the others stay. -/
theorem attributeRows_withoutAttributes (c : Content) (e : Entity) (es : List Entity) :
    (c.withoutAttributes e).attributeRows es =
      (c.attributeRows es).filter fun row => decide (row.1 ≠ e) := by
  simp only [attributeRows, List.filter_map, List.filter_filter]
  rw [List.filter_congr fun x _ => ?_]
  · refine List.map_congr_left fun x hx => ?_
    obtain ⟨hne, -⟩ : x ≠ e ∧ ¬ c.attributesOf x = ∅ := by simpa using (List.mem_filter.1 hx).2
    simp [attributesOf_withoutAttributes, hne]
  · by_cases hx : x = e <;> simp [attributesOf_withoutAttributes, hx]

theorem put_drop (c : Content) (e : Entity) (r : Record) : (c.drop e).put e r = c.put e r :=
  Function.update_idem _ _ _

/-- No entity is its own child, so its children stay when it goes. -/
theorem missingChild?_drop (h : ∀ x ∈ e.children, c.isStored x) :
    (c.drop e).missingChild? e = none := by
  refine missingChild?_eq_none.2 fun x hx => isStored_drop.2 ⟨?_, h x hx⟩
  rintro rfl
  exact Entity.not_inside_self x (.single hx)

end Content

/-- Between the two calls the children are all there and the entity is not, so it is put in as new. -/
theorem insert_realizes_deleted {σ : Type} [Hypergraph σ] [LawfulHypergraph σ] {s : σ} {e : Entity}
    {r : Record} (hs : Consistent s) (he : content s e = some r)
    (hchildren : ∀ x ∈ e.children, (content s).isStored x) : ∃ t u,
      delete e s = (.ok true, t) ∧ insert e r.isPrimary t = (.ok (), u) ∧ Consistent u ∧
        name u = name s ∧ StoreView.policy u = StoreView.policy s ∧
        content u = (content s).withoutAttributes e := by
  have hdelete : Content.delete e (content s) = (.ok true, (content s).drop e) := by
    rw [Content.delete, Content.isStored_of_eq_some he]
  obtain ⟨t, hrun, ht, hname, hpolicy, hcontent⟩ := (delete_realizes e).yields hs hdelete
  have hmissing : (content t).missingChild? e = none := by
    rw [hcontent]
    exact Content.missingChild?_drop hchildren
  have hnone : content t e = none := by rw [hcontent, Content.drop_self]
  obtain ⟨u, hrun', hu, hname', hpolicy', hcontent'⟩ := (insert_realizes e r.isPrimary).yields ht
    (Content.insert_of_none hnone hmissing r.isPrimary _)
  refine ⟨t, u, hrun, hrun', hu, hname'.trans hname, hpolicy'.trans hpolicy, ?_⟩
  rw [hcontent', hcontent, Content.put_drop, Content.withoutAttributes_of_some he]

/-! ## The ordered store -/

namespace OrderedStore

variable {s : OrderedStore} {e : Entity}

def withoutAttributes (s : OrderedStore) (e : Entity) : OrderedStore :=
  { s with records := s.records.modify e fun r => { r with attributes := ∅ } }

theorem content_withoutAttributes (s : OrderedStore) (e : Entity) :
    (s.withoutAttributes e).content = s.content.withoutAttributes e := by
  funext x
  simp only [content, withoutAttributes, Std.ExtTreeMap.getElem?_modify, Std.compare_eq_iff_eq,
    Content.withoutAttributes, eq_comm (a := e)]

theorem mem_records_withoutAttributes {x : Entity} :
    x ∈ (s.withoutAttributes e).records ↔ x ∈ s.records := Std.ExtTreeMap.mem_modify

theorem Consistent.withoutAttributes (hs : s.Consistent) (e : Entity) :
    (s.withoutAttributes e).Consistent where
  mem_parents {c p} := by
    rw [mem_records_withoutAttributes]
    exact hs.mem_parents
  mem_roots {root a} := by
    rw [mem_records_withoutAttributes]
    exact hs.mem_roots

theorem entities_withoutAttributes (s : OrderedStore) (e : Entity) :
    (s.withoutAttributes e).entities = s.entities := by
  refine (ascending_entities _).ext (ascending_entities s) fun x => ?_
  rw [entities, entities, Std.ExtTreeMap.mem_keys, Std.ExtTreeMap.mem_keys,
    mem_records_withoutAttributes]

/-- Both indexes come out as they were, since they are determined by what is stored. -/
theorem insert_delete (hs : s.Consistent) (htight : s.Tight) {r : Record}
    (he : s.content e = some r) (hchildren : ∀ x ∈ e.children, s.content.isStored x) : ∃ t,
      Hypergraph.delete e s = (.ok true, t) ∧
        Hypergraph.insert e r.isPrimary t = (.ok (), s.withoutAttributes e) := by
  obtain ⟨t, u, hdelete, hinsert, hu, hname, hpolicy, hcontent⟩ :=
    insert_realizes_deleted (σ := OrderedStore) hs he hchildren
  have ht : t.Tight := by
    have hstep := htight.delete (e := e)
    rwa [hdelete] at hstep
  have hu' : u.Tight := by
    have hstep := ht.insert (e := e) r.isPrimary
    rwa [hinsert] at hstep
  have heq : u = s.withoutAttributes e :=
    hu'.ext (htight.withRecords _) hu (hs.withoutAttributes e) hname hpolicy
      (hcontent.trans (s.content_withoutAttributes e).symm)
  exact ⟨t, hdelete, heq ▸ hinsert⟩

end OrderedStore

/-! ## The numbered store -/

namespace NumberedStore

variable {s : NumberedStore} {e : Entity} {n : Nat} {mark : Bool}

/-- Neither index keeps a key without members. -/
structure Tight (s : NumberedStore) : Prop where
  parents : s.parents.Tight
  roots : s.roots.Tight

theorem tight_empty (name : String) (policy : PrimaryPolicy) : (empty name policy).Tight :=
  ⟨Index.tight_empty, Index.tight_empty⟩

theorem Tight.link (h : s.Tight) (n : Nat) (e : Entity) : (s.link n e).Tight := by
  cases e with
  | atom a => exact ⟨h.parents, h.roots.add a.root n⟩
  | edge cs => exact ⟨h.parents.foldl_add _ n, h.roots⟩

theorem Tight.unlink (h : s.Tight) (n : Nat) (e : Entity) : (s.unlink n e).Tight := by
  cases e with
  | atom a => exact ⟨h.parents, h.roots.remove a.root n⟩
  | edge cs => exact ⟨h.parents.foldl_remove _ n, h.roots⟩

theorem Tight.clear (h : s.Tight) (n : Nat) (e : Entity) : (s.clear n e).Tight :=
  ⟨(h.unlink n e).parents, (h.unlink n e).roots⟩

theorem Tight.assign (h : s.Tight) (e : Entity) : (s.assign e).2.Tight := by
  cases he : s.numbers[e]? with
  | some n =>
    rw [assign_of_some he]
    exact h
  | none =>
    rw [assign_of_none he]
    exact ⟨h.parents, h.roots⟩

theorem Tight.insert (h : s.Tight) (isPrimary : Bool) :
    (Hypergraph.insert e isPrimary s).2.Tight := by
  simp only [Hypergraph.insert, NumberedStore.insert]
  cases s.record? e with
  | some r => exact ⟨h.parents, h.roots⟩
  | none =>
    cases s.missingChild? e with
    | some child => exact h
    | none =>
      have hlink := (h.assign e).link (s.assign e).1 e
      exact ⟨hlink.parents, hlink.roots⟩

theorem Tight.delete (h : s.Tight) : (Hypergraph.delete e s).2.Tight := by
  simp only [Hypergraph.delete, NumberedStore.delete]
  cases s.liveNumber? e with
  | some n => exact h.clear n e
  | none => exact h

/-- The step: every change keeps the indexes tight. -/
theorem Tight.perform (h : s.Tight) (c : Change) : (c.perform s).2.Tight := by
  cases c with
  | insert e isPrimary =>
    rw [Change.state_insert]
    exact h.insert isPrimary
  | delete e =>
    rw [Change.state_delete]
    exact h.delete
  | setPrimary e isPrimary =>
    rw [Change.state_setPrimary]
    simp only [Hypergraph.setPrimary, NumberedStore.setPrimary]
    cases s.record? e <;> exact ⟨h.parents, h.roots⟩
  | setAttribute e name value =>
    rw [Change.state_setAttribute]
    simp only [Hypergraph.setAttribute, NumberedStore.setAttribute]
    cases s.liveNumber? e <;> exact ⟨h.parents, h.roots⟩
  | stepAttribute e name step =>
    rw [Change.state_stepAttribute]
    simp only [Hypergraph.stepAttribute, NumberedStore.stepAttribute]
    cases s.liveNumber? e with
    | none => exact h
    | some n =>
      simp only
      cases Value.stepped (s.attributesAt n)[name]? name step <;> exact ⟨h.parents, h.roots⟩
  | destroy =>
    rw [Change.state_destroy]
    exact tight_empty s.name s.policy
  | close => exact h

/-- The run, by induction on the changes. -/
theorem Tight.run (h : s.Tight) (cs : List Change) : (Change.run cs s).Tight := by
  induction cs generalizing s with
  | nil => exact h
  | cons c cs ih => exact ih (h.perform c)

def withoutAttributes (s : NumberedStore) (e : Entity) : NumberedStore :=
  match s.numberOf? e with
  | some n => { s with attributeRows := s.attributeRows.erase n }
  | none => s

theorem entities_withoutAttributes (s : NumberedStore) (e : Entity) :
    (s.withoutAttributes e).entities = s.entities := by
  unfold withoutAttributes
  cases s.numberOf? e <;> rfl

/-- What is taken away and put in is there if it was there before. -/
theorem and_not_or_iff_of_imp {p q : Prop} (h : q → p) : (p ∧ ¬ q) ∨ q ↔ p :=
  ⟨fun hpq => hpq.elim And.left h, fun hp => (Classical.em q).elim .inr fun hq => .inl ⟨hp, hq⟩⟩

/-- What was taken away under a number is put back under it. -/
theorem clear_link_setRecord (hs : s.Consistent) (htight : s.Tight)
    (h : s.records[n]? = some (e, mark)) :
    ((s.clear n e).link n e).setRecord n e mark =
      { s with attributeRows := s.attributeRows.erase n } := by
  have hrecords : (s.records.erase n).insert n (e, mark) = s.records := by
    refine Std.ExtTreeMap.ext_getElem? fun {k} => ?_
    simp only [Std.ExtTreeMap.getElem?_insert, Std.ExtTreeMap.getElem?_erase,
      Std.compare_eq_iff_eq]
    split
    · next hk => rw [← hk, h]
    · rfl
  have htight' := (htight.clear n e).link n e
  have hparents : ((s.clear n e).link n e).parents = s.parents := by
    refine htight'.parents.ext htight.parents fun i j => ?_
    have hunlink : j ∈ (s.clear n e).parents.membersOf i ↔ _ := mem_parents_unlink
    rw [mem_parents_link, numbers_clear, hunlink]
    refine and_not_or_iff_of_imp ?_
    rintro ⟨hchild, rfl⟩
    exact hs.mem_parents.2 ⟨_, h, hchild⟩
  have hroots : ((s.clear n e).link n e).roots = s.roots := by
    refine htight'.roots.ext htight.roots fun root k => ?_
    have hunlink : k ∈ (s.clear n e).roots.membersOf root ↔ _ := mem_roots_unlink
    rw [mem_roots_link, hunlink]
    refine and_not_or_iff_of_imp ?_
    rintro ⟨hroot, rfl⟩
    exact hs.mem_roots.2 ⟨_, h, hroot⟩
  rw [link_eq, hparents, hroots, setRecord, clear, unlink_eq]
  exact congrArg (fun records => { s with
    records := records, attributeRows := s.attributeRows.erase n }) hrecords

/-- The number is still there when the entity comes back. -/
theorem insert_delete (hs : s.Consistent) (htight : s.Tight) {r : Record}
    (he : s.content e = some r) (hchildren : ∀ x ∈ e.children, s.content.isStored x) : ∃ t,
      Hypergraph.delete e s = (.ok true, t) ∧
        Hypergraph.insert e r.isPrimary t = (.ok (), s.withoutAttributes e) := by
  obtain ⟨⟨n, mark⟩, hrecord, rfl⟩ := Option.map_eq_some_iff.1 he
  have hrow : s.records[n]? = some (e, mark) := (record_eq_iff hs).1 hrecord
  have hn : s.numbers[e]? = some n := hs.record_number hrow
  have hdelete : Hypergraph.delete e s = (.ok true, s.clear n e) := by
    simp only [Hypergraph.delete, NumberedStore.delete, liveNumber?_eq, hrecord]
    rfl
  have hcontent := content_clear hs hrow
  have hnone : (s.clear n e).record? e = none := by
    have habsent : (s.clear n e).content e = none := by rw [hcontent, Content.drop_self]
    simpa [content] using habsent
  have hmissing : (s.clear n e).missingChild? e = none := by
    rw [missingChild?_eq_content, hcontent]
    exact Content.missingChild?_drop hchildren
  have hassign : (s.clear n e).assign e = (n, s.clear n e) :=
    assign_of_some (by rw [numbers_clear, hn])
  refine ⟨s.clear n e, hdelete, ?_⟩
  simp only [Hypergraph.insert, NumberedStore.insert, hnone, hmissing, hassign, withoutAttributes,
    numberOf?, hn, clear_link_setRecord hs htight hrow]

end NumberedStore

/-! ## Stores of either kind -/

namespace Store

theorem perform_numbered (c : Change) (s : NumberedStore) :
    (c.perform (numbered s)).2 = numbered (c.perform s).2 := by
  cases c <;> simp <;> rfl

theorem run_numbered (cs : List Change) (s : NumberedStore) :
    Change.run cs (numbered s) = numbered (Change.run cs s) := by
  induction cs generalizing s with
  | nil => rfl
  | cons c cs ih =>
    rw [Change.run, List.foldl_cons, perform_numbered]
    exact ih _

theorem Reachable.tight_numbered {s : NumberedStore} (h : (numbered s).Reachable) : s.Tight := by
  generalize ht : numbered s = t at h
  induction h generalizing s with
  | empty backend name policy =>
    cases backend with
    | memory => cases ht
    | file =>
      cases ht
      exact NumberedStore.tight_empty name policy
  | @perform t op _ ih =>
    obtain ⟨cs, hcs⟩ := op.exists_run t
    cases t with
    | numbered t =>
      rw [hcs, run_numbered] at ht
      cases ht
      exact (ih rfl).run cs
    | ordered t =>
      have hbackend := backend_perform op (ordered t)
      rw [← ht] at hbackend
      cases hbackend
  | reopened name policy _ ih =>
    cases ht
    exact ⟨(ih rfl).parents, (ih rfl).roots⟩

/-- The store with all that it holds but the attributes of one entity. -/
def withoutAttributes (s : Store) (e : Entity) : Store :=
  match s with
  | ordered s => ordered (s.withoutAttributes e)
  | numbered s => numbered (s.withoutAttributes e)

theorem order_withoutAttributes (s : Store) (e : Entity) :
    order (s.withoutAttributes e) = order s := by
  cases s with
  | ordered s => exact s.entities_withoutAttributes e
  | numbered s => exact s.entities_withoutAttributes e

theorem change_ordered {α : Type} {u : Update OrderedStore α} {v : Update NumberedStore α}
    {s t : OrderedStore} {x : Except Error α} (h : u s = (x, t)) :
    change u v (ordered s) = (x, ordered t) := by
  rw [change, h]

theorem change_numbered {α : Type} {u : Update OrderedStore α} {v : Update NumberedStore α}
    {s t : NumberedStore} {x : Except Error α} (h : v s = (x, t)) :
    change u v (numbered s) = (x, numbered t) := by
  rw [change, h]

theorem Reachable.insert_delete {s : Store} (h : s.Reachable) {e : Entity} {r : Record}
    (he : content s e = some r) (hchildren : ∀ x ∈ e.children, (content s).isStored x) : ∃ t,
      delete e s = (.ok true, t) ∧ insert e r.isPrimary t = (.ok (), s.withoutAttributes e) := by
  cases s with
  | ordered s =>
    obtain ⟨t, hdelete, hinsert⟩ := OrderedStore.insert_delete h.consistent h.tight he hchildren
    exact ⟨ordered t, change_ordered hdelete, change_ordered hinsert⟩
  | numbered s =>
    obtain ⟨t, hdelete, hinsert⟩ :=
      NumberedStore.insert_delete h.consistent h.tight_numbered he hchildren
    exact ⟨numbered t, change_numbered hdelete, change_numbered hinsert⟩

/-- An entity whose children are all stored is deleted and inserted again with the mark that it had. Then
the store is what it was, table by table, but for the attributes of the entity: all queries that read no
attribute are answered as before, and what is listed comes in the same order. -/
theorem Reachable.inserted_again {s : Store} (h : s.Reachable) {c : Entity} {p : Bool}
    (hstored : contains s c = .ok true) (hmark : isPrimary s c = .ok p)
    (hchildren : ∀ x ∈ c.children, contains s x = .ok true) : ∃ t,
      delete c s = (.ok true, t) ∧ insert c p t = (.ok (), s.withoutAttributes c) ∧
      (∀ q : Query, q.readsAttributes = false → q.answer (s.withoutAttributes c) = q.answer s) ∧
      (∀ e key, attributeOf (s.withoutAttributes c) e key =
        if e = c then .ok none else attributeOf s e key) ∧
      ∃ rows, attributes s = .ok rows ∧
        attributes (s.withoutAttributes c) = .ok (rows.filter fun row => decide (row.1 ≠ c)) := by
  have hs := h.consistent
  obtain ⟨r, he⟩ := Option.isSome_iff_exists.1 ((contains_eq_true_iff hs).1 hstored)
  have hp : p = r.isPrimary := by
    rw [isPrimary_of_content hs he] at hmark
    exact (Except.ok.inj hmark).symm
  have hpresent : ∀ x ∈ c.children, (content s).isStored x :=
    fun x hx => (contains_eq_true_iff hs).1 (hchildren x hx)
  obtain ⟨t, hdelete, hinsert⟩ := h.insert_delete he hpresent
  obtain ⟨t', u, hdelete', hinsert', hu, hname, _, hcontent⟩ :=
    insert_realizes_deleted hs he hpresent
  -- both calls were followed twice, through the tables and through the content
  cases hdelete.symm.trans hdelete'
  cases hinsert.symm.trans hinsert'
  have hsame : SameStructure (s.withoutAttributes c) s := by
    refine ⟨hu, hs, hname, s.order_withoutAttributes c, ?_⟩
    rw [hcontent, Content.mark?_withoutAttributes]
  refine ⟨t, hdelete, hp ▸ hinsert, hsame.answer, fun e key => ?_, _, attributes_eq hs, ?_⟩
  · rw [attributeOf_eq hu, attributeOf_eq hs, hcontent, Content.attributesOf_withoutAttributes]
    split
    · simp
    · rfl
  · rw [attributes_eq hu, s.order_withoutAttributes c, hcontent,
      Content.attributeRows_withoutAttributes]

/-- An edge with the same child twice, itself held by another edge, loses its attribute and nothing
else. -/
theorem inserted_again_held :
    let x : Entity := .atom { root := "x" }
    let c : Entity := .edge [x, x]
    let above : Entity := .edge [.atom { root := "f" }, c]
    let s := Operation.run [.add above, .change (.setAttribute c "k" (.int 1))]
      (empty .file "test" .preserve)
    ∃ t, delete c s = (.ok true, t) ∧ insert c false t = (.ok (), s.withoutAttributes c) ∧
      (Query.star c none).answer (s.withoutAttributes c) = .ok (.scan [above]) ∧
      attributeOf s c "k" = .ok (some (.int 1)) ∧
      attributeOf (s.withoutAttributes c) c "k" = .ok none := by
  intro x c above s
  have hs : s.Reachable := (Reachable.empty .file "test" .preserve).run _
  have hchildren : ∀ y ∈ c.children, contains s y = .ok true := by decide +kernel
  obtain ⟨t, hdelete, hinsert, hanswer, hattribute, _⟩ :=
    hs.inserted_again (c := c) (p := false) (by decide +kernel) (by decide +kernel) hchildren
  have hstar : star s c none = .ok [above] := by decide +kernel
  refine ⟨t, hdelete, hinsert, ?_, by decide +kernel, hattribute c "k"⟩
  rw [hanswer _ rfl, Query.answer, hstar]
  rfl

end Store

end SemanticHypergraph
