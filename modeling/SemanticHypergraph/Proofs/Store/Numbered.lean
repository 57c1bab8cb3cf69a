import Mathlib.Data.List.Nodup
import Mathlib.Logic.Relation
import SemanticHypergraph.Proofs.Store.Numbering

/-!
# The numbered store is lawful

A look-up goes from numbers to numbers and then to their records, all of which are there. Rows come
in the order of their numbers, as records do, so what is found is a filtered scan.
-/
namespace SemanticHypergraph.NumberedStore

variable {s : NumberedStore} {e f : Entity} {n : Nat}

/-! ## From numbers to records -/

/-- A number with its record. -/
def IsRow (s : NumberedStore) (r : Nat × Entity × Bool) : Prop := s.records[r.1]? = some r.2

/-- The rows of the stored entities that pass, in the order of their numbers. -/
def rowsWhere (s : NumberedStore) (keep : Entity → Bool) : List (Nat × Entity × Bool) :=
  s.records.toList.filter fun r => keep r.2.1

theorem mem_rowsWhere {keep : Entity → Bool} {r : Nat × Entity × Bool} :
    r ∈ s.rowsWhere keep ↔ s.IsRow r ∧ keep r.2.1 := by
  obtain ⟨k, v⟩ := r
  rw [rowsWhere, List.mem_filter, Std.ExtTreeMap.mem_toList_iff_getElem?_eq_some, IsRow]

theorem map_rowsWhere (s : NumberedStore) (keep : Entity → Bool) :
    (s.rowsWhere keep).map (fun r => r.2.1) = s.entities.filter keep := by
  rw [rowsWhere, entities, List.filter_map]
  rfl

theorem ascending_rowsWhere (s : NumberedStore) (keep : Entity → Bool) :
    Ascending ((s.rowsWhere keep).map Prod.fst) := by
  have hsub : ((s.rowsWhere keep).map Prod.fst).Sublist s.records.keys := by
    rw [← Std.ExtTreeMap.map_fst_toList_eq_keys]
    exact List.filter_sublist.map _
  exact (ascending_keys s.records).sublist hsub

/-- An ascending list of numbers is given by what it says of their records. -/
theorem eq_rowsWhere {ns : List Nat} {keep : Entity → Bool} (hns : Ascending ns)
    (h : ∀ k, k ∈ ns ↔ ∃ r, s.records[k]? = some r ∧ keep r.1) :
    ns = (s.rowsWhere keep).map Prod.fst := by
  refine hns.ext (ascending_rowsWhere s keep) fun k => ?_
  rw [h, List.mem_map]
  constructor
  · rintro ⟨r, hr, hk⟩
    exact ⟨(k, r), mem_rowsWhere.2 ⟨hr, hk⟩, rfl⟩
  · rintro ⟨⟨k, r⟩, hr, rfl⟩
    obtain ⟨hr, hk⟩ := mem_rowsWhere.1 hr
    exact ⟨r, hr, hk⟩

theorem requireRecord_eq {r : Nat × Entity × Bool} (h : s.IsRow r) :
    s.requireRecord r.1 = .ok r.2 := by
  have hrow : s.records[r.1]? = some r.2 := h
  simp [requireRecord, hrow]

theorem mapM_requireRecord {rows : List (Nat × Entity × Bool)} (h : ∀ r ∈ rows, s.IsRow r) :
    (rows.map Prod.fst).mapM s.requireRecord = .ok (rows.map Prod.snd) := by
  rw [List.mapM_map]
  exact mapM_eq_ok fun r hr => requireRecord_eq (h r hr)

theorem requireEntities_rows {rows : List (Nat × Entity × Bool)} (h : ∀ r ∈ rows, s.IsRow r) :
    s.requireEntities (rows.map Prod.fst) = .ok (rows.map fun r => r.2.1) := by
  rw [requireEntities, List.mapM_map]
  refine mapM_eq_ok fun r hr => ?_
  rw [Function.comp_apply, requireRecord_eq (h r hr)]
  rfl

theorem countPrimary_rows (hs : s.Consistent) {rows : List (Nat × Entity × Bool)}
    (h : ∀ r ∈ rows, s.IsRow r) : s.countPrimary (rows.map Prod.fst) =
      .ok ((rows.map fun r => r.2.1).countP s.content.isPrimary) := by
  have hcount : (rows.map Prod.snd).countP Prod.snd =
      (rows.map fun r => r.2.1).countP s.content.isPrimary := by
    rw [List.countP_map, List.countP_map]
    refine List.countP_congr fun r hr => ?_
    have hrow : s.records[r.1]? = some (r.2.1, r.2.2) := h r hr
    simp [Content.isPrimary, content_of_row hs hrow]
  rw [countPrimary, mapM_requireRecord h, ← hcount]
  rfl

/-- Numbers that all have a record are the numbers of rows. -/
theorem exists_rows {ns : List Nat} (h : ∀ k ∈ ns, ∃ r, s.records[k]? = some r) :
    ∃ rows : List (Nat × Entity × Bool), rows.map Prod.fst = ns ∧ ∀ r ∈ rows, s.IsRow r := by
  induction ns with
  | nil => exact ⟨[], rfl, by simp⟩
  | cons k ns ih =>
    obtain ⟨rows, hmap, hrows⟩ := ih fun m hm => h m (List.mem_cons_of_mem k hm)
    obtain ⟨r, hr⟩ := h k List.mem_cons_self
    refine ⟨(k, r) :: rows, by rw [List.map_cons, hmap], ?_⟩
    intro x hx
    rcases List.mem_cons.1 hx with rfl | hx
    · exact hr
    · exact hrows x hx

/-- Rows with different numbers have different entities. -/
theorem nodup_entities_of_rows (hs : s.Consistent) {rows : List (Nat × Entity × Bool)}
    (h : ∀ r ∈ rows, s.IsRow r) (hn : (rows.map Prod.fst).Nodup) :
    (rows.map fun r => r.2.1).Nodup := by
  refine List.Nodup.map_on ?_ hn.of_map
  intro r hr t ht heq
  have hnr := hs.record_number (h r hr)
  have hnt := hs.record_number (h t ht)
  have hnum : r.1 = t.1 := by
    rw [heq, hnt] at hnr
    exact (Option.some.inj hnr).symm
  have hrec : some r.2 = some t.2 := by
    rw [← h r hr, ← h t ht, hnum]
  exact Prod.ext hnum (Option.some.inj hrec)

/-! ## Queries -/

theorem entities_eq_map (s : NumberedStore) :
    s.entities = (s.rowsWhere fun _ => true).map fun r => r.2.1 := by
  rw [map_rowsWhere, List.filter_true]

theorem isRow_of_mem {keep : Entity → Bool} : ∀ r ∈ s.rowsWhere keep, s.IsRow r :=
  fun _ hr => (mem_rowsWhere.1 hr).1

theorem mem_entities (hs : s.Consistent) : e ∈ s.entities ↔ s.content.isStored e := by
  rw [isStored_iff_row hs, entities_eq_map, List.mem_map]
  constructor
  · rintro ⟨r, hr, rfl⟩
    exact ⟨r.1, r.2.2, isRow_of_mem r hr⟩
  · rintro ⟨k, p, h⟩
    exact ⟨(k, e, p), mem_rowsWhere.2 ⟨h, rfl⟩, rfl⟩

theorem nodup_entities (hs : s.Consistent) : s.entities.Nodup := by
  rw [entities_eq_map]
  exact nodup_entities_of_rows hs isRow_of_mem (ascending_rowsWhere s _).nodup

theorem isPrimary_eq_content (s : NumberedStore) (e : Entity) :
    s.isPrimary e = s.content.isPrimary e := by
  rw [isPrimary, Content.isPrimary, content, Option.any_map]

theorem attributeOf_eq_content (s : NumberedStore) (e : Entity) (name : String) :
    s.attributeOf e name = (s.content.attributesOf e)[name]? := by
  rw [attributeOf, liveNumber?_eq, Content.attributesOf, content]
  cases s.record? e <;> simp

theorem parentNumbers_eq (hs : s.Consistent) (e : Entity) : s.parentNumbers e =
    (s.rowsWhere fun p => decide (e ∈ p.children)).map Prod.fst := by
  unfold parentNumbers numberOf?
  cases hn : s.numbers[e]? with
  | some n =>
    refine eq_rowsWhere (s.parents.ascending_get n) fun k => ?_
    refine Index.mem_get.trans (hs.mem_parents.trans ⟨?_, ?_⟩)
    · rintro ⟨r, hr, c, hc, hcn⟩
      rw [hs.number_inj hcn hn] at hc
      exact ⟨r, hr, by simpa using hc⟩
    · rintro ⟨r, hr, he⟩
      exact ⟨r, hr, e, by simpa using he, hn⟩
  | none =>
    refine eq_rowsWhere List.Pairwise.nil fun k => ?_
    refine iff_of_false List.not_mem_nil ?_
    rintro ⟨r, hr, he⟩
    obtain ⟨m, hm⟩ := hs.child_number (c := e) hr (by simpa using he)
    rw [hn] at hm
    cases hm

theorem star_none (hs : s.Consistent) (e : Entity) :
    s.star e none = .ok (s.entities.filter fun p => decide (e ∈ p.children)) := by
  rw [star, parentNumbers_eq hs, requireEntities_rows isRow_of_mem, map_rowsWhere]

theorem star_some (hs : s.Consistent) (e : Entity) (k : Nat) : s.star e (some k) =
    .ok ((s.entities.filter fun p => decide (e ∈ p.children)).take k) := by
  rw [star, parentNumbers_eq hs, ← List.map_take,
    requireEntities_rows fun r hr => isRow_of_mem r (List.mem_of_mem_take hr), List.map_take,
    map_rowsWhere]

theorem degree_eq_countP (hs : s.Consistent) (e : Entity) : s.degree e =
    .ok ((s.entities.filter fun p => decide (e ∈ p.children)).countP s.content.isPrimary) := by
  rw [degree, parentNumbers_eq hs, countPrimary_rows hs isRow_of_mem, map_rowsWhere]

theorem countWhere_eq_content (hs : s.Consistent) (keep : Entity → Record → Bool)
    (mark : Entity → Bool → Bool) (h : ∀ f r, keep f r = mark f r.isPrimary) :
    s.countWhere mark = s.content.countWhere keep s.entities := by
  rw [countWhere, Content.countWhere, entities, List.countP_map]
  refine List.countP_congr fun r hr => ?_
  have hrow : s.records[r.1]? = some (r.2.1, r.2.2) := getElem?_of_mem_toList hr
  simp [content_of_row hs hrow, h]

theorem counts_eq_content (hs : s.Consistent) : s.counts = s.content.counts s.entities := by
  simp only [counts, Content.counts]
  congr 1 <;> exact countWhere_eq_content hs _ _ fun _ _ => rfl

theorem search_eq_filter (hs : s.Consistent) (template : Entity) :
    s.search template = .ok (s.entities.filter template.isCandidate) := by
  unfold search
  split
  · next anchor h =>
    rw [star_none hs]
    exact congrArg _ (List.filter_congr fun p _ => by simp [Entity.isCandidate, h])
  · next h => exact congrArg _ (List.filter_congr fun p _ => by simp [Entity.isCandidate, h])

/-! ## Climbing the index -/

/-- A chain of rows ends at the record of an edge that a chain of edges leads to. -/
theorem above_of_rows (hs : s.Consistent) (hn : s.numbers[e]? = some n) {k : Nat}
    (h : Relation.TransGen (fun i j => j ∈ s.parents.membersOf i) n k) :
    ∃ r, s.records[k]? = some r ∧ s.content.Above e r.1 := by
  have step : ∀ {i j : Nat} {f : Entity}, s.numbers[f]? = some i → j ∈ s.parents.membersOf i →
      ∃ r, s.records[j]? = some r ∧ s.content.Holds f r.1 := by
    intro i j f hf hj
    obtain ⟨r, hr, c, hc, hcn⟩ := hs.mem_parents.1 hj
    rw [hs.number_inj hcn hf] at hc
    exact ⟨r, hr, (isStored_iff_row hs).2 ⟨j, r.2, hr⟩, hc⟩
  induction h with
  | single h =>
    obtain ⟨r, hr, hh⟩ := step hn h
    exact ⟨r, hr, .single hh⟩
  | tail _ h ih =>
    obtain ⟨r, hr, habove⟩ := ih
    obtain ⟨t, ht, hh⟩ := step (hs.record_number hr) h
    exact ⟨t, ht, habove.tail hh⟩

/-- A chain of edges is a chain of rows. -/
theorem rows_of_above (hs : s.Consistent) (hn : s.numbers[e]? = some n)
    (h : s.content.Above e f) : ∃ k mark, s.records[k]? = some (f, mark) ∧
      Relation.TransGen (fun i j => j ∈ s.parents.membersOf i) n k := by
  have step : ∀ {i : Nat} {a b : Entity}, s.numbers[a]? = some i → s.content.Holds a b →
      ∃ k mark, s.records[k]? = some (b, mark) ∧ k ∈ s.parents.membersOf i := by
    intro i a b ha hab
    obtain ⟨k, mark, hk⟩ := (isStored_iff_row hs).1 hab.1
    exact ⟨k, mark, hk, hs.mem_parents.2 ⟨_, hk, a, hab.2, ha⟩⟩
  induction h with
  | single h =>
    obtain ⟨k, mark, hk, hmem⟩ := step hn h
    exact ⟨k, mark, hk, .single hmem⟩
  | tail _ h ih =>
    obtain ⟨i, _, hi, hchain⟩ := ih
    obtain ⟨k, mark, hk, hmem⟩ := step (hs.record_number hi) h
    exact ⟨k, mark, hk, hchain.tail hmem⟩

theorem not_above_of_numbers_eq_none (hs : s.Consistent) (hn : s.numbers[e]? = none) :
    ¬ s.content.Above e f := by
  intro h
  obtain ⟨b, ⟨hb, hmem⟩, _⟩ := Relation.TransGen.head'_iff.1 h
  obtain ⟨k, mark, hk⟩ := (isStored_iff_row hs).1 hb
  obtain ⟨m, hm⟩ := hs.child_number hk hmem
  rw [hn] at hm
  cases hm

theorem deepDegree_eq_countP (hs : s.Consistent) (e : Entity) : ∃ es : List Entity, es.Nodup ∧
    (∀ p, p ∈ es ↔ s.content.Above e p) ∧
      s.deepDegree e = .ok (es.countP s.content.isPrimary) := by
  unfold deepDegree numberOf?
  cases hn : s.numbers[e]? with
  | none =>
    refine ⟨[], List.nodup_nil, fun p => ?_, rfl⟩
    exact iff_of_false List.not_mem_nil (not_above_of_numbers_eq_none hs hn)
  | some n =>
    have hrow : ∀ k ∈ s.parents.above n, ∃ r, s.records[k]? = some r := by
      intro k hk
      obtain ⟨r, hr, _⟩ := above_of_rows hs hn (Index.mem_above.1 hk)
      exact ⟨r, hr⟩
    obtain ⟨rows, hmap, hrows⟩ := exists_rows hrow
    refine ⟨rows.map fun r => r.2.1, ?_, fun p => ?_, ?_⟩
    · refine nodup_entities_of_rows hs hrows ?_
      rw [hmap]
      exact (s.parents.ascending_above n).nodup
    · rw [List.mem_map]
      constructor
      · rintro ⟨r, hr, rfl⟩
        have hmem : r.1 ∈ s.parents.above n := hmap ▸ List.mem_map_of_mem hr
        obtain ⟨t, ht, habove⟩ := above_of_rows hs hn (Index.mem_above.1 hmem)
        have hrow : s.records[r.1]? = some r.2 := hrows r hr
        rw [hrow] at ht
        cases ht
        exact habove
      · intro h
        obtain ⟨k, mark, hk, hchain⟩ := rows_of_above hs hn h
        have hmem : k ∈ rows.map Prod.fst := hmap ▸ Index.mem_above.2 hchain
        obtain ⟨r, hr, rfl⟩ := List.mem_map.1 hmem
        have hrow : s.records[r.1]? = some r.2 := hrows r hr
        rw [hrow] at hk
        refine ⟨r, hr, ?_⟩
        rw [Option.some.inj hk]
    · simp only
      rw [← hmap, countPrimary_rows hs hrows]

/-! ## Look-ups by root and by atoms -/

theorem lookupRoot_eq_sorted (hs : s.Consistent) (root : String) : ∃ as : List Atom,
    Ascending as ∧ (∀ a, a ∈ as ↔ s.content.isStored (.atom a) ∧ a.root = root) ∧
      s.lookupRoot root = .ok as := by
  have hrow : ∀ k ∈ s.roots.get root, ∃ r, s.records[k]? = some r := by
    intro k hk
    obtain ⟨r, hr, _⟩ := hs.mem_roots.1 (Index.mem_get.1 hk)
    exact ⟨r, hr⟩
  obtain ⟨rows, hmap, hrows⟩ := exists_rows hrow
  have hnodup : (rows.map fun r => r.2.1).Nodup := by
    refine nodup_entities_of_rows hs hrows ?_
    rw [hmap]
    exact (s.roots.ascending_get root).nodup
  refine ⟨((rows.map fun r => r.2.1).filterMap Entity.asAtom).mergeSort
    fun a b => (compare a b).isLE, ascending_mergeSort ?_, fun a => ?_, ?_⟩
  · refine hnodup.filterMap fun x y a hx hy => ?_
    cases x <;> cases y <;> simp_all [Entity.asAtom]
  · rw [List.mem_mergeSort, List.mem_filterMap]
    constructor
    · rintro ⟨x, hx, ha⟩
      obtain ⟨r, hr, rfl⟩ := List.mem_map.1 hx
      have hrow : s.records[r.1]? = some r.2 := hrows r hr
      have hmem : r.1 ∈ s.roots.get root := hmap ▸ List.mem_map_of_mem hr
      obtain ⟨t, ht, b, hb, hroot⟩ := hs.mem_roots.1 (Index.mem_get.1 hmem)
      rw [hrow] at ht
      cases ht
      rw [hb] at ha
      cases ha
      refine ⟨(isStored_iff_row hs).2 ⟨r.1, r.2.2, ?_⟩, hroot⟩
      rw [hrow, ← hb]
    · rintro ⟨hstored, hroot⟩
      obtain ⟨k, mark, hk⟩ := (isStored_iff_row hs).1 hstored
      have hmem : k ∈ rows.map Prod.fst :=
        hmap ▸ Index.mem_get.2 (hs.mem_roots.2 ⟨_, hk, a, rfl, hroot⟩)
      obtain ⟨r, hr, rfl⟩ := List.mem_map.1 hmem
      have hrow : s.records[r.1]? = some r.2 := hrows r hr
      rw [hrow] at hk
      refine ⟨.atom a, List.mem_map.2 ⟨r, hr, ?_⟩, rfl⟩
      rw [Option.some.inj hk]
  · rw [lookupRoot, ← hmap, requireEntities_rows hrows]
    rfl

theorem mem_parents_of_number (hs : s.Consistent) (hn : s.numbers[e]? = some n) {k : Nat} :
    k ∈ s.parents.membersOf n ↔ ∃ r, s.records[k]? = some r ∧ e ∈ r.1.children := by
  rw [hs.mem_parents]
  constructor
  · rintro ⟨r, hr, c, hc, hcn⟩
    exact ⟨r, hr, hs.number_inj hcn hn ▸ hc⟩
  · rintro ⟨r, hr, he⟩
    exact ⟨r, hr, e, he, hn⟩

/-- The row is in all the index rows of the atoms if its edge holds them all. -/
theorem forall_mem_parents (hs : s.Consistent) {atoms : List Atom} {ns : List Nat}
    (hns : List.Forall₂ (fun a k => s.numbers[Entity.atom a]? = some k) atoms ns) {k : Nat}
    {r : Entity × Bool} (hr : s.records[k]? = some r) :
    (∀ m ∈ ns, k ∈ s.parents.membersOf m) ↔ ∀ a ∈ atoms, .atom a ∈ r.1.children := by
  induction hns with
  | nil => simp
  | cons ha _ ih =>
    rw [List.forall_mem_cons, List.forall_mem_cons, ih, mem_parents_of_number hs ha]
    simp [hr]

theorem mem_commonParents {ns : List Nat} {k : Nat} :
    k ∈ s.commonParents (n :: ns) ↔ ∀ m ∈ n :: ns, k ∈ s.parents.membersOf m := by
  simp [commonParents, Index.mem_get, Std.ExtTreeSet.contains_iff_mem]

theorem commonParents_eq (hs : s.Consistent) {atoms : List Atom} {ns : List Nat}
    (hns : List.Forall₂ (fun a k => s.numbers[Entity.atom a]? = some k) atoms ns) :
    s.commonParents ns = (s.rowsWhere (Entity.joins atoms none)).map Prod.fst := by
  cases hns with
  | nil =>
    refine eq_rowsWhere List.Pairwise.nil fun k => ?_
    simp [commonParents, Entity.joins]
  | @cons a n atoms ns ha hns =>
    refine eq_rowsWhere ((s.parents.ascending_get n).filter _) fun k => ?_
    refine mem_commonParents.trans ⟨fun h => ?_, ?_⟩
    · obtain ⟨r, hr, _⟩ := (mem_parents_of_number hs ha).1 (h n List.mem_cons_self)
      have hall := (forall_mem_parents hs (.cons ha hns) hr).1 h
      exact ⟨r, hr, by simpa [Entity.joins, Entity.hasChildWithRoot] using hall⟩
    · rintro ⟨r, hr, hjoin⟩
      refine (forall_mem_parents hs (.cons ha hns) hr).2 ?_
      simpa [Entity.joins, Entity.hasChildWithRoot] using hjoin

/-- Either every atom has a number, or one of them has none. -/
theorem mapM_numberOf? (s : NumberedStore) (atoms : List Atom) :
    (∃ ns, atoms.mapM (fun a => s.numberOf? (.atom a)) = some ns ∧
      List.Forall₂ (fun a k => s.numbers[Entity.atom a]? = some k) atoms ns) ∨
    (atoms.mapM (fun a => s.numberOf? (.atom a)) = none ∧
      ∃ a ∈ atoms, s.numbers[Entity.atom a]? = none) := by
  induction atoms with
  | nil => exact .inl ⟨[], rfl, .nil⟩
  | cons a atoms ih =>
    cases ha : s.numbers[Entity.atom a]? with
    | none =>
      refine .inr ⟨?_, a, List.mem_cons_self, ha⟩
      rw [List.mapM_cons, numberOf?, ha]
      rfl
    | some n =>
      rcases ih with ⟨ns, hmap, hns⟩ | ⟨hmap, b, hb, hnone⟩
      · refine .inl ⟨n :: ns, ?_, .cons ha hns⟩
        rw [List.mapM_cons, hmap, numberOf?, ha]
        rfl
      · refine .inr ⟨?_, b, List.mem_cons_of_mem a hb, hnone⟩
        rw [List.mapM_cons, hmap, numberOf?, ha]
        rfl

theorem lookupAtoms_eq_filter (hs : s.Consistent) (atoms : List Atom) (root : Option String) :
    s.lookupAtoms atoms root = .ok (s.entities.filter (Entity.joins atoms root)) := by
  unfold lookupAtoms
  rcases s.mapM_numberOf? atoms with ⟨ns, hmap, hns⟩ | ⟨hmap, a, ha, hnone⟩
  · rw [hmap]
    simp only
    rw [commonParents_eq hs hns, requireEntities_rows isRow_of_mem, map_rowsWhere]
    refine congrArg Except.ok ?_
    rw [List.filter_filter]
    refine List.filter_congr fun p _ => ?_
    simp only [Entity.joins, Entity.hasChildWithRoot, Bool.and_true]
    rw [Bool.and_comm]
  · -- an atom without a number is a child of no stored edge
    rw [hmap]
    refine congrArg Except.ok (List.filter_eq_nil_iff.2 fun p hp hjoin => ?_).symm
    obtain ⟨k, mark, hk⟩ := (isStored_iff_row hs).1 ((mem_entities hs).1 hp)
    simp only [Entity.joins, Bool.and_eq_true, List.all_eq_true, decide_eq_true_eq] at hjoin
    obtain ⟨m, hm⟩ := hs.child_number hk (hjoin.1.2 a ha)
    rw [hnone] at hm
    cases hm

/-- The rows of the attributes are those of the records that have some. -/
theorem attributeRows_eq (hs : s.Consistent) :
    s.attributeRows.toList.filter (fun p => !p.2.isEmpty) =
      (s.records.toList.map fun r => (r.1, s.attributesAt r.1)).filter fun p => !p.2.isEmpty := by
  refine eq_of_ascending_map Prod.fst ?_ ?_ fun p => ?_
  · refine (ascending_keys s.attributeRows).sublist ?_
    rw [← Std.ExtTreeMap.map_fst_toList_eq_keys]
    exact List.filter_sublist.map _
  · refine (ascending_keys s.records).sublist ?_
    rw [← Std.ExtTreeMap.map_fst_toList_eq_keys, List.filter_map, List.map_map]
    exact List.filter_sublist.map _
  · obtain ⟨k, values⟩ := p
    rw [List.mem_filter, List.mem_filter, Std.ExtTreeMap.mem_toList_iff_getElem?_eq_some,
      List.mem_map]
    constructor
    · rintro ⟨hk, hne⟩
      obtain ⟨r, hr⟩ := hs.attribute_row hk
      refine ⟨⟨(k, r), Std.ExtTreeMap.mem_toList_iff_getElem?_eq_some.2 hr, ?_⟩, hne⟩
      simp [attributesAt, hk]
    · rintro ⟨⟨r, hr, heq⟩, hne⟩
      cases heq
      refine ⟨?_, hne⟩
      unfold attributesAt at hne ⊢
      cases hv : s.attributeRows[r.1]? with
      | some values => rfl
      | none => simp [hv] at hne

theorem attributes_eq_content (hs : s.Consistent) :
    s.attributes = .ok (s.content.attributeRows s.entities) := by
  have hrow : ∀ r ∈ s.records.toList, s.content.attributesOf r.2.1 = s.attributesAt r.1 := by
    intro r hr
    have hr' : s.records[r.1]? = some (r.2.1, r.2.2) := getElem?_of_mem_toList hr
    simp [Content.attributesOf, content_of_row hs hr']
  have hmap : (s.entities.map fun f => (f, s.content.attributesOf f)) =
      s.records.toList.map fun r => (r.2.1, s.attributesAt r.1) := by
    rw [entities, List.map_map]
    refine List.map_congr_left fun r hr => ?_
    rw [Function.comp_apply, hrow r hr]
  rw [attributes, attributeRows_eq hs, Content.attributeRows, hmap, List.filter_map,
    List.filter_map, List.mapM_map]
  refine mapM_eq_ok fun r hr => ?_
  have hr' : s.IsRow r := getElem?_of_mem_toList (List.mem_of_mem_filter hr)
  rw [Function.comp_apply, requireRecord_eq hr']
  rfl

/-! ## Changes -/

theorem missingChild?_eq_content (s : NumberedStore) (e : Entity) :
    s.missingChild? e = s.content.missingChild? e := by
  simp [missingChild?, Content.missingChild?, contains_eq_isStored]

/-- A new entity whose children are stored, put under the number it is given. -/
theorem insert_new (hs : s.Consistent) (hr : s.record? e = none)
    (hm : s.content.missingChild? e = none) (isPrimary : Bool) {t : NumberedStore}
    (ht : t = ((s.assign e).2.link (s.assign e).1 e).setRecord (s.assign e).1 e isPrimary) :
    t.Consistent ∧ t.content = s.content.put e ⟨isPrimary, ∅⟩ := by
  have hassign := hs.assign e
  have hn := numbers_assign_self s e
  have hfree : (s.assign e).2.records[(s.assign e).1]? = none := by
    rw [records_assign]
    exact record_assign_eq_none hs hr
  have hc : ∀ c ∈ e.children, ∃ m, (s.assign e).2.numbers[c]? = some m := by
    intro c hc
    obtain ⟨m, hm⟩ := number_of_isStored (Content.missingChild?_eq_none.1 hm c hc)
    exact ⟨m, numbers_assign_of_some hm⟩
  subst ht
  refine ⟨hassign.link_setRecord hn hfree hc isPrimary, ?_⟩
  -- nothing was left under the number, so the new entity begins without attributes
  have hempty := attributesAt_eq_empty hassign hfree
  have hlink : ((s.assign e).2.link (s.assign e).1 e).attributesAt (s.assign e).1 = ∅ := by
    rw [link_eq]
    exact hempty
  rw [content_setRecord ?_, content_link, content_assign hs, hlink]
  rw [link_eq]
  exact hassign.number_iff hn

theorem name_assign (s : NumberedStore) (e : Entity) : (s.assign e).2.name = s.name := by
  unfold assign
  cases s.numberOf? e <;> rfl

theorem policy_assign (s : NumberedStore) (e : Entity) : (s.assign e).2.policy = s.policy := by
  unfold assign
  cases s.numberOf? e <;> rfl

section Realizes

variable {α : Type}

theorem realizes_of {u : Update NumberedStore α} {v : PrimaryPolicy → Update Content α}
    (h : ∀ s : NumberedStore, s.Consistent → ∃ r t, u s = (r, t) ∧
      v s.policy s.content = (r, t.content) ∧ t.Consistent ∧ t.name = s.name ∧
      t.policy = s.policy) : Realizes u v := .intro h

theorem insert_realizes (e : Entity) (isPrimary : Bool) :
    Realizes (Hypergraph.insert e isPrimary : Update NumberedStore Unit)
      (Content.insert e isPrimary) := by
  refine realizes_of fun s hs => ?_
  simp only [Hypergraph.insert, NumberedStore.insert, missingChild?_eq_content]
  cases h : s.record? e with
  | some r =>
    obtain ⟨n, mark⟩ := r
    have hrow := (record_eq_iff hs).1 h
    rw [Content.insert_of_some (content_of_record h),
      ← content_setRecord (hs.number_iff (hs.record_number hrow))]
    exact ⟨_, _, rfl, rfl, hs.setRecord hrow _, rfl, rfl⟩
  | none =>
    cases hm : s.content.missingChild? e with
    | some child =>
      rw [Content.insert_of_missing (content_eq_none h) hm]
      exact ⟨_, _, rfl, rfl, hs, rfl, rfl⟩
    | none =>
      obtain ⟨ht, hcontent⟩ := insert_new hs h hm isPrimary rfl
      rw [Content.insert_of_none (content_eq_none h) hm, ← hcontent]
      refine ⟨_, _, rfl, rfl, ht, ?_, ?_⟩
      · rw [link_eq]
        exact name_assign s e
      · rw [link_eq]
        exact policy_assign s e

theorem delete_realizes (e : Entity) :
    Realizes (Hypergraph.delete e : Update NumberedStore Bool) fun _ => Content.delete e := by
  refine realizes_of fun s hs => ?_
  simp only [Hypergraph.delete, NumberedStore.delete, liveNumber?_eq, Content.delete]
  cases h : s.record? e with
  | some r =>
    obtain ⟨n, mark⟩ := r
    have hrow := (record_eq_iff hs).1 h
    rw [Content.isStored_of_eq_some (content_of_record h), ← content_clear hs hrow]
    refine ⟨_, s.clear n e, rfl, rfl, hs.clear hrow, ?_, ?_⟩ <;> rw [clear, unlink_eq]
  | none =>
    have hnone := content_eq_none h
    rw [Content.drop_of_none hnone, Content.isStored, hnone]
    exact ⟨_, _, rfl, rfl, hs, rfl, rfl⟩

theorem setPrimary_realizes (e : Entity) (isPrimary : Bool) :
    Realizes (Hypergraph.setPrimary e isPrimary : Update NumberedStore Unit)
      fun _ => Content.setPrimary e isPrimary := by
  refine realizes_of fun s hs => ?_
  simp only [Hypergraph.setPrimary, NumberedStore.setPrimary]
  cases h : s.record? e with
  | some r =>
    obtain ⟨n, mark⟩ := r
    have hrow := (record_eq_iff hs).1 h
    rw [Content.setPrimary_of_some (content_of_record h),
      ← content_setRecord (hs.number_iff (hs.record_number hrow))]
    exact ⟨_, _, rfl, rfl, hs.setRecord hrow _, rfl, rfl⟩
  | none =>
    rw [Content.setPrimary_of_none (content_eq_none h)]
    exact ⟨_, _, rfl, rfl, hs, rfl, rfl⟩

theorem setAttribute_realizes (e : Entity) (name : String) (value : Value) :
    Realizes (Hypergraph.setAttribute e name value : Update NumberedStore Bool)
      fun _ => Content.setAttribute e name value := by
  refine realizes_of fun s hs => ?_
  simp only [Hypergraph.setAttribute, NumberedStore.setAttribute, liveNumber?_eq]
  cases h : s.record? e with
  | some r =>
    obtain ⟨n, mark⟩ := r
    have hrow := (record_eq_iff hs).1 h
    rw [Content.setAttribute_of_some (content_of_record h), ← content_setAttributeAt hs hrow]
    exact ⟨_, _, rfl, rfl, hs.setAttributeAt hrow name value, rfl, rfl⟩
  | none =>
    rw [Content.setAttribute_of_none (content_eq_none h)]
    exact ⟨_, _, rfl, rfl, hs, rfl, rfl⟩

theorem stepAttribute_realizes (e : Entity) (name : String) (step : Step) :
    Realizes (Hypergraph.stepAttribute e name step : Update NumberedStore (Option Value))
      fun _ => Content.stepAttribute e name step := by
  refine realizes_of fun s hs => ?_
  simp only [Hypergraph.stepAttribute, NumberedStore.stepAttribute, liveNumber?_eq]
  cases h : s.record? e with
  | some r =>
    obtain ⟨n, mark⟩ := r
    have hrow := (record_eq_iff hs).1 h
    have hcontent := content_of_record h
    simp only [Option.map_some]
    cases hv : Value.stepped (s.attributesAt n)[name]? name step with
    | ok value =>
      rw [Content.stepAttribute_of_ok hcontent hv, ← content_setAttributeAt hs hrow]
      exact ⟨_, _, rfl, rfl, hs.setAttributeAt hrow name value, rfl, rfl⟩
    | error error =>
      rw [Content.stepAttribute_of_error hcontent hv]
      exact ⟨_, _, rfl, rfl, hs, rfl, rfl⟩
  | none =>
    rw [Content.stepAttribute_of_none (content_eq_none h)]
    exact ⟨_, _, rfl, rfl, hs, rfl, rfl⟩

theorem destroy_realizes :
    Realizes (Hypergraph.destroy : Update NumberedStore Unit) fun _ => Content.destroy := by
  refine realizes_of fun s hs => ⟨_, _, rfl, ?_, consistent_empty s.name s.policy, rfl, rfl⟩
  rw [destroy, content_empty]
  rfl

theorem close_realizes :
    Realizes (Hypergraph.close : Update NumberedStore Unit) fun _ => pure () :=
  realizes_of fun _ hs => ⟨_, _, rfl, rfl, hs, rfl, rfl⟩

end Realizes

instance : LawfulHypergraph NumberedStore where
  nodup_order hs := nodup_entities hs
  mem_order hs := mem_entities hs
  contains_eq _ e := congrArg _ (contains_eq_isStored _ e)
  isPrimary_eq _ e := congrArg _ (isPrimary_eq_content _ e)
  entities_eq _ := rfl
  attributeOf_eq _ e name := congrArg _ (attributeOf_eq_content _ e name)
  degree_eq hs e := degree_eq_countP hs e
  star_eq hs e := star_none hs e
  star_some_eq hs e n := star_some hs e n
  counts_eq hs := congrArg _ (counts_eq_content hs)
  deepDegree_eq hs e := deepDegree_eq_countP hs e
  lookupRoot_eq hs root := lookupRoot_eq_sorted hs root
  lookupAtoms_eq hs atoms root := lookupAtoms_eq_filter hs atoms root
  search_eq hs template := search_eq_filter hs template
  attributes_eq hs := attributes_eq_content hs
  insert_realizes := insert_realizes
  delete_realizes := delete_realizes
  setPrimary_realizes := setPrimary_realizes
  setAttribute_realizes := setAttribute_realizes
  stepAttribute_realizes := stepAttribute_realizes
  destroy_realizes := destroy_realizes
  close_realizes := close_realizes

end SemanticHypergraph.NumberedStore
