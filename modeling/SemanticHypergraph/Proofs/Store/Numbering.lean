import SemanticHypergraph.Proofs.Store.Lawful
import SemanticHypergraph.Store.Numbered

/-!
# The tables of the numbered store

No two entities share a number, a record lies under the number of its own entity, and the indexes
say of the records what is to be said and nothing else. A child of a stored edge has a number even
if it is not stored itself, so a row that names it stays right until the edge goes.
-/
namespace SemanticHypergraph.NumberedStore

structure Consistent (s : NumberedStore) : Prop where
  number_lt {e : Entity} {n : Nat} : s.numbers[e]? = some n → n < s.next
  number_inj {e f : Entity} {n : Nat} :
    s.numbers[e]? = some n → s.numbers[f]? = some n → e = f
  record_number {n : Nat} {r : Entity × Bool} :
    s.records[n]? = some r → s.numbers[r.1]? = some n
  /-- A child of a stored edge was stored once. -/
  child_number {n : Nat} {r : Entity × Bool} {c : Entity} :
    s.records[n]? = some r → c ∈ r.1.children → ∃ m, s.numbers[c]? = some m
  /-- A row goes from the number of a child, stored or not, to that of a stored edge. -/
  mem_parents {i j : Nat} : j ∈ s.parents.membersOf i ↔
    ∃ r, s.records[j]? = some r ∧ ∃ c ∈ r.1.children, s.numbers[c]? = some i
  /-- A row of the other index goes from a root to the number of a stored atom. -/
  mem_roots {root : String} {n : Nat} : n ∈ s.roots.membersOf root ↔
    ∃ r, s.records[n]? = some r ∧ ∃ a, r.1 = .atom a ∧ a.root = root
  /-- Only what is stored has attributes. -/
  attribute_row {n : Nat} {values : Attributes} :
    s.attributeRows[n]? = some values → ∃ r, s.records[n]? = some r

def content (s : NumberedStore) : Content :=
  fun e => (s.record? e).map fun r => ⟨r.2, s.attributesAt r.1⟩

instance : StoreView NumberedStore where
  Consistent := Consistent
  policy := policy
  content := content
  order := entities

variable {s : NumberedStore} {e f : Entity} {n m : Nat} {isPrimary : Bool}

theorem consistent_empty (name : String) (policy : PrimaryPolicy) :
    Consistent (empty name policy) := by
  constructor <;> simp [empty]

theorem content_empty (name : String) (policy : PrimaryPolicy) :
    (empty name policy).content = Content.empty := by
  funext e
  simp [content, record?, numberOf?, empty, Content.empty]

/-! ## Records -/

theorem record?_eq_some : s.record? e = some (n, isPrimary) ↔
    s.numbers[e]? = some n ∧ ∃ f, s.records[n]? = some (f, isPrimary) := by
  simp only [record?, numberOf?, Option.bind_eq_bind, Option.bind_eq_some_iff, Option.pure_def,
    Option.some.injEq, Prod.mk.injEq]
  constructor
  · rintro ⟨k, hk, r, hr, rfl, rfl⟩
    exact ⟨hk, r.1, hr⟩
  · rintro ⟨hn, f, hf⟩
    exact ⟨n, hn, (f, isPrimary), hf, rfl, rfl⟩

theorem record_eq_iff (hs : s.Consistent) :
    s.record? e = some (n, isPrimary) ↔ s.records[n]? = some (e, isPrimary) := by
  rw [record?_eq_some]
  constructor
  · rintro ⟨hn, f, hf⟩
    rw [hs.number_inj hn (hs.record_number hf)]
    exact hf
  · intro h
    exact ⟨hs.record_number h, e, h⟩

theorem record?_eq_none : s.record? e = none ↔
    ∀ n, s.numbers[e]? = some n → s.records[n]? = none := by
  simp only [record?, numberOf?, Option.bind_eq_bind, Option.bind_eq_none_iff, Option.pure_def,
    reduceCtorEq, imp_false]
  grind

/-- The number of a stored entity is the one of its record. -/
theorem liveNumber?_eq (s : NumberedStore) (e : Entity) :
    s.liveNumber? e = (s.record? e).map Prod.fst := by
  unfold liveNumber? record?
  cases s.numberOf? e with
  | none => rfl
  | some n =>
    rw [Option.filter_some, Std.ExtTreeMap.contains_eq_isSome_getElem?]
    cases h : s.records[n]? <;> simp [h]

theorem content_of_record (h : s.record? e = some (n, isPrimary)) :
    s.content e = some ⟨isPrimary, s.attributesAt n⟩ := by
  simp [content, h]

theorem content_of_row (hs : s.Consistent) (h : s.records[n]? = some (e, isPrimary)) :
    s.content e = some ⟨isPrimary, s.attributesAt n⟩ :=
  content_of_record ((record_eq_iff hs).2 h)

theorem content_eq_none (h : s.record? e = none) : s.content e = none := by
  simp [content, h]

/-- The content at an entity depends on its number and on what lies under that alone. -/
theorem content_congr {t : NumberedStore} (hnumber : t.numbers[e]? = s.numbers[e]?)
    (h : ∀ k, s.numbers[e]? = some k →
      t.records[k]? = s.records[k]? ∧ t.attributesAt k = s.attributesAt k) :
    t.content e = s.content e := by
  simp only [content, record?, numberOf?, hnumber]
  cases hk : s.numbers[e]? with
  | none => rfl
  | some k =>
    obtain ⟨hrecord, hattributes⟩ := h k hk
    simp only [Option.bind_eq_bind, Option.bind_some, hrecord]
    cases s.records[k]? with
    | none => rfl
    | some r => simp [hattributes]

theorem isStored_iff_row (hs : s.Consistent) :
    s.content.isStored e ↔ ∃ (n : Nat) (mark : Bool), s.records[n]? = some (e, mark) := by
  rw [Content.isStored, content, Option.isSome_map, Option.isSome_iff_exists]
  constructor
  · rintro ⟨⟨n, p⟩, h⟩
    exact ⟨n, p, (record_eq_iff hs).1 h⟩
  · rintro ⟨n, p, h⟩
    exact ⟨(n, p), (record_eq_iff hs).2 h⟩

theorem number_of_isStored (h : s.content.isStored e) : ∃ n, s.numbers[e]? = some n := by
  rw [Content.isStored, content, Option.isSome_map, Option.isSome_iff_exists] at h
  obtain ⟨⟨n, p⟩, h⟩ := h
  exact ⟨n, (record?_eq_some.1 h).1⟩

theorem contains_eq_isStored (s : NumberedStore) (e : Entity) :
    s.contains e = s.content.isStored e := by
  simp [contains, liveNumber?_eq, Content.isStored, content]

/-- What is not stored and has no record under its number has no attributes there either. -/
theorem attributesAt_eq_empty (hs : s.Consistent) (h : s.records[n]? = none) :
    s.attributesAt n = ∅ := by
  unfold attributesAt
  cases hv : s.attributeRows[n]? with
  | none => rfl
  | some values =>
    obtain ⟨r, hr⟩ := hs.attribute_row hv
    rw [h] at hr
    cases hr

theorem Consistent.number_iff (hs : s.Consistent) (hn : s.numbers[e]? = some n) (x : Entity) :
    s.numbers[x]? = some n ↔ x = e :=
  ⟨fun hx => hs.number_inj hx hn, fun hx => hx ▸ hn⟩

/-! ## Writing one record -/

/-- The number need only be the entity's own. -/
theorem content_setRecord (hn : ∀ x, s.numbers[x]? = some n ↔ x = e) (isPrimary : Bool) :
    (s.setRecord n e isPrimary).content = s.content.put e ⟨isPrimary, s.attributesAt n⟩ := by
  funext x
  by_cases hx : x = e
  · subst hx
    rw [Content.put_self]
    refine content_of_record (n := n) (record?_eq_some.2 ⟨(hn x).2 rfl, x, ?_⟩)
    simp [setRecord]
  · rw [Content.put_of_ne hx]
    refine content_congr rfl fun k hk => ⟨?_, rfl⟩
    have hne : n ≠ k := fun heq => hx ((hn x).1 (heq ▸ hk))
    simp [setRecord, Std.ExtTreeMap.getElem?_insert, hne]

theorem row_setRecord {k : Nat} {r : Entity × Bool} :
    (s.setRecord n e isPrimary).records[k]? = some r ↔
      (k = n ∧ r = (e, isPrimary)) ∨ (k ≠ n ∧ s.records[k]? = some r) := by
  simp only [setRecord, Std.ExtTreeMap.getElem?_insert, Std.compare_eq_iff_eq]
  by_cases h : n = k
  · subst h
    simp [eq_comm]
  · simp [h, Ne.symm h]

/-- A new mark leaves a row with the same entity. -/
theorem exists_row_setRecord (h : s.records[n]? = some (e, isPrimary)) (mark : Bool)
    (P : Entity → Prop) {k : Nat} :
    (∃ r, (s.setRecord n e mark).records[k]? = some r ∧ P r.1) ↔
      ∃ r, s.records[k]? = some r ∧ P r.1 := by
  constructor
  · rintro ⟨r, hr, hp⟩
    rcases row_setRecord.1 hr with ⟨rfl, rfl⟩ | ⟨_, hr⟩
    · exact ⟨_, h, hp⟩
    · exact ⟨r, hr, hp⟩
  · rintro ⟨r, hr, hp⟩
    by_cases hk : k = n
    · subst hk
      rw [h] at hr
      cases hr
      exact ⟨_, row_setRecord.2 (.inl ⟨rfl, rfl⟩), hp⟩
    · exact ⟨r, row_setRecord.2 (.inr ⟨hk, hr⟩), hp⟩

/-- A new mark of a stored entity changes no row of an index. -/
theorem Consistent.setRecord (hs : s.Consistent) (h : s.records[n]? = some (e, isPrimary))
    (mark : Bool) : (s.setRecord n e mark).Consistent where
  number_lt := hs.number_lt
  number_inj := hs.number_inj
  record_number {k r} hk := by
    rcases row_setRecord.1 hk with ⟨rfl, rfl⟩ | ⟨_, hk⟩
    · have hn : s.numbers[e]? = some k := hs.record_number h
      exact hn
    · exact hs.record_number hk
  child_number {k r c} hk hc := by
    rcases row_setRecord.1 hk with ⟨rfl, rfl⟩ | ⟨_, hk⟩
    · exact hs.child_number h hc
    · exact hs.child_number hk hc
  mem_parents {i _} := hs.mem_parents.trans
    (exists_row_setRecord h mark fun f => ∃ c ∈ f.children, s.numbers[c]? = some i).symm
  mem_roots {root _} := hs.mem_roots.trans
    (exists_row_setRecord h mark fun f => ∃ a, f = .atom a ∧ a.root = root).symm
  attribute_row {k values} hk := by
    obtain ⟨r, hr⟩ := hs.attribute_row hk
    obtain ⟨r', hr', _⟩ := (exists_row_setRecord h mark fun _ => True).2 ⟨r, hr, trivial⟩
    exact ⟨r', hr'⟩

/-! ## A number for a new entity -/

section Assign

theorem assign_of_some (h : s.numbers[e]? = some n) : s.assign e = (n, s) := by
  simp [assign, numberOf?, h]

theorem assign_of_none (h : s.numbers[e]? = none) : s.assign e =
    (s.next, { s with numbers := s.numbers.insert e s.next, next := s.next + 1 }) := by
  simp [assign, numberOf?, h]

theorem numbers_assign_self (s : NumberedStore) (e : Entity) :
    (s.assign e).2.numbers[e]? = some (s.assign e).1 := by
  cases h : s.numbers[e]? with
  | some n => rw [assign_of_some h, h]
  | none =>
    rw [assign_of_none h]
    simp

theorem numbers_assign_of_ne (h : f ≠ e) : (s.assign e).2.numbers[f]? = s.numbers[f]? := by
  cases he : s.numbers[e]? with
  | some n => rw [assign_of_some he]
  | none =>
    rw [assign_of_none he]
    simp [Std.ExtTreeMap.getElem?_insert, Ne.symm h]

/-- No number is taken back. -/
theorem numbers_assign_of_some (h : s.numbers[f]? = some n) :
    (s.assign e).2.numbers[f]? = some n := by
  by_cases hf : f = e
  · subst hf
    rw [assign_of_some h, h]
  · rw [numbers_assign_of_ne hf, h]

theorem records_assign (s : NumberedStore) (e : Entity) : (s.assign e).2.records = s.records := by
  cases h : s.numbers[e]? with
  | some n => rw [assign_of_some h]
  | none => rw [assign_of_none h]

/-- No record lies under the number that a missing entity is given. -/
theorem record_assign_eq_none (hs : s.Consistent) (h : s.record? e = none) :
    s.records[(s.assign e).1]? = none := by
  cases he : s.numbers[e]? with
  | some n =>
    rw [assign_of_some he]
    exact record?_eq_none.1 h n he
  | none =>
    rw [assign_of_none he]
    by_contra hsome
    obtain ⟨r, hr⟩ := Option.ne_none_iff_exists'.1 hsome
    exact absurd (hs.number_lt (hs.record_number hr)) (Nat.lt_irrefl _)

theorem Consistent.assign (hs : s.Consistent) (e : Entity) : (s.assign e).2.Consistent := by
  cases he : s.numbers[e]? with
  | some n =>
    rw [assign_of_some he]
    exact hs
  | none =>
    have hkeep : ∀ {f n}, s.numbers[f]? = some n → (s.assign e).2.numbers[f]? = some n :=
      numbers_assign_of_some
    have hnew : ∀ {f n}, (s.assign e).2.numbers[f]? = some n →
        (f = e ∧ n = s.next) ∨ s.numbers[f]? = some n := by
      intro f n h
      by_cases hf : f = e
      · subst hf
        rw [assign_of_none he] at h
        simp at h
        exact .inl ⟨rfl, h.symm⟩
      · rw [numbers_assign_of_ne hf] at h
        exact .inr h
    rw [assign_of_none he] at hkeep hnew ⊢
    constructor
    · intro f n h
      rcases hnew h with ⟨_, rfl⟩ | h
      · exact Nat.lt_succ_self _
      · exact Nat.lt_succ_of_lt (hs.number_lt h)
    · intro f g n hf hg
      rcases hnew hf with ⟨hfe, hfn⟩ | hf'
      · rcases hnew hg with ⟨hge, _⟩ | hg'
        · rw [hfe, hge]
        · exact absurd (hs.number_lt hg') (by omega)
      · rcases hnew hg with ⟨_, hgn⟩ | hg'
        · exact absurd (hs.number_lt hf') (by omega)
        · exact hs.number_inj hf' hg'
    · intro n r h
      exact hkeep (hs.record_number h)
    · intro n r c h hc
      obtain ⟨m, hm⟩ := hs.child_number h hc
      exact ⟨m, hkeep hm⟩
    · intro i j
      refine hs.mem_parents.trans ⟨?_, ?_⟩
      · rintro ⟨r, hr, c, hc, hi⟩
        exact ⟨r, hr, c, hc, hkeep hi⟩
      · rintro ⟨r, hr, c, hc, hi⟩
        refine ⟨r, hr, c, hc, ?_⟩
        rcases hnew hi with ⟨rfl, _⟩ | hi
        · -- a child of a stored edge had a number before
          obtain ⟨m, hm⟩ := hs.child_number hr hc
          rw [he] at hm
          cases hm
        · exact hi
    · exact hs.mem_roots
    · exact hs.attribute_row

theorem attributesAt_assign (s : NumberedStore) (e : Entity) (n : Nat) :
    (s.assign e).2.attributesAt n = s.attributesAt n := by
  cases h : s.numbers[e]? with
  | some m => rw [assign_of_some h]
  | none =>
    rw [assign_of_none h]
    rfl

/-- A number alone stores nothing. -/
theorem content_assign (hs : s.Consistent) (e : Entity) : (s.assign e).2.content = s.content := by
  cases he : s.numbers[e]? with
  | some n => rw [assign_of_some he]
  | none =>
    have hrecord : s.record? e = none := record?_eq_none.2 fun n hn => by
      rw [he] at hn
      cases hn
    funext x
    by_cases hx : x = e
    · subst hx
      rw [content_eq_none hrecord]
      refine content_eq_none (record?_eq_none.2 fun n hn => ?_)
      rw [numbers_assign_self] at hn
      cases hn
      rw [records_assign]
      exact record_assign_eq_none hs hrecord
    · refine content_congr (numbers_assign_of_ne hx) fun k _ => ⟨?_, attributesAt_assign s e k⟩
      rw [records_assign]

end Assign

/-! ## The rows of a new entity -/

theorem mem_filterMap_numberOf? {cs : List Entity} {i : Nat} :
    i ∈ cs.filterMap s.numberOf? ↔ ∃ c ∈ cs, s.numbers[c]? = some i := by
  simp [numberOf?]

theorem mem_parents_link {i j : Nat} : j ∈ (s.link n e).parents.membersOf i ↔
    j ∈ s.parents.membersOf i ∨ ((∃ c ∈ e.children, s.numbers[c]? = some i) ∧ j = n) := by
  cases e with
  | atom a => simp [link]
  | edge cs =>
    rw [Entity.children_edge, ← mem_filterMap_numberOf?]
    exact Index.mem_foldl_add

theorem mem_roots_link {root : String} {k : Nat} : k ∈ (s.link n e).roots.membersOf root ↔
    k ∈ s.roots.membersOf root ∨ ((∃ a, e = .atom a ∧ a.root = root) ∧ k = n) := by
  cases e with
  | atom a =>
    simp only [link, Index.mem_add, Entity.atom.injEq]
    grind
  | edge cs => simp [link]

theorem mem_parents_unlink {i j : Nat} : j ∈ (s.unlink n e).parents.membersOf i ↔
    j ∈ s.parents.membersOf i ∧ ¬ ((∃ c ∈ e.children, s.numbers[c]? = some i) ∧ j = n) := by
  cases e with
  | atom a => simp [unlink]
  | edge cs =>
    rw [Entity.children_edge, ← mem_filterMap_numberOf?]
    exact Index.mem_foldl_remove

theorem mem_roots_unlink {root : String} {k : Nat} : k ∈ (s.unlink n e).roots.membersOf root ↔
    k ∈ s.roots.membersOf root ∧ ¬ ((∃ a, e = .atom a ∧ a.root = root) ∧ k = n) := by
  cases e with
  | atom a =>
    simp only [unlink, Index.mem_remove, Entity.atom.injEq]
    grind
  | edge cs => simp [unlink]

/-- Linking touches the indexes alone. -/
theorem link_eq (s : NumberedStore) (n : Nat) (e : Entity) :
    s.link n e = { s with parents := (s.link n e).parents, roots := (s.link n e).roots } := by
  cases e <;> rfl

theorem unlink_eq (s : NumberedStore) (n : Nat) (e : Entity) :
    s.unlink n e = { s with parents := (s.unlink n e).parents, roots := (s.unlink n e).roots } := by
  cases e <;> rfl

theorem content_link (s : NumberedStore) (n : Nat) (e : Entity) :
    (s.link n e).content = s.content := by
  rw [link_eq]
  rfl

theorem row_link_setRecord (hfree : s.records[n]? = none) {k : Nat} {r : Entity × Bool} :
    ((s.link n e).setRecord n e isPrimary).records[k]? = some r ↔
      (k = n ∧ r = (e, isPrimary)) ∨ s.records[k]? = some r := by
  rw [row_setRecord, link_eq]
  refine or_congr_right ⟨And.right, fun h => ⟨?_, h⟩⟩
  rintro rfl
  rw [hfree] at h
  cases h

theorem exists_row_link_setRecord (hfree : s.records[n]? = none) (P : Entity → Prop) {k : Nat} :
    (∃ r, ((s.link n e).setRecord n e isPrimary).records[k]? = some r ∧ P r.1) ↔
      (∃ r, s.records[k]? = some r ∧ P r.1) ∨ (P e ∧ k = n) := by
  simp only [row_link_setRecord hfree]
  constructor
  · rintro ⟨r, ⟨rfl, rfl⟩ | hr, hp⟩
    · exact .inr ⟨hp, rfl⟩
    · exact .inl ⟨r, hr, hp⟩
  · rintro (⟨r, hr, hp⟩ | ⟨hp, rfl⟩)
    · exact ⟨r, .inr hr, hp⟩
    · exact ⟨_, .inl ⟨rfl, rfl⟩, hp⟩

/-- An entity whose children have numbers may be stored under its own. -/
theorem Consistent.link_setRecord (hs : s.Consistent) (hn : s.numbers[e]? = some n)
    (hfree : s.records[n]? = none) (hc : ∀ c ∈ e.children, ∃ m, s.numbers[c]? = some m)
    (isPrimary : Bool) : ((s.link n e).setRecord n e isPrimary).Consistent := by
  have hnumbers : ((s.link n e).setRecord n e isPrimary).numbers = s.numbers := by
    rw [link_eq]
    rfl
  constructor
  · rw [hnumbers, link_eq]
    exact hs.number_lt
  · rw [hnumbers]
    exact hs.number_inj
  · intro k r hk
    rw [hnumbers]
    rcases (row_link_setRecord hfree).1 hk with ⟨rfl, rfl⟩ | hk
    · exact hn
    · exact hs.record_number hk
  · intro k r c hk hmem
    rw [hnumbers]
    rcases (row_link_setRecord hfree).1 hk with ⟨rfl, rfl⟩ | hk
    · exact hc c hmem
    · exact hs.child_number hk hmem
  · intro i j
    rw [hnumbers, exists_row_link_setRecord hfree fun f => ∃ c ∈ f.children, s.numbers[c]? = some i,
      ← hs.mem_parents]
    exact mem_parents_link
  · intro root k
    rw [exists_row_link_setRecord hfree fun f => ∃ a, f = .atom a ∧ a.root = root, ← hs.mem_roots]
    exact mem_roots_link
  · intro k values hk
    rw [link_eq] at hk
    obtain ⟨r, hr⟩ := hs.attribute_row hk
    exact ⟨r, (row_link_setRecord hfree).2 (.inr hr)⟩

/-! ## Deletion -/

/-- The store without the record of a number and without what belongs to it. -/
def clear (s : NumberedStore) (n : Nat) (e : Entity) : NumberedStore :=
  { s.unlink n e with
    records := s.records.erase n
    attributeRows := s.attributeRows.erase n }

theorem numbers_clear (s : NumberedStore) (n : Nat) (e : Entity) :
    (s.clear n e).numbers = s.numbers := by
  rw [clear, unlink_eq]

theorem row_clear {k : Nat} {r : Entity × Bool} :
    (s.clear n e).records[k]? = some r ↔ k ≠ n ∧ s.records[k]? = some r := by
  simp only [clear, Std.ExtTreeMap.getElem?_erase, Std.compare_eq_iff_eq]
  by_cases h : n = k
  · subst h
    simp
  · simp [h, Ne.symm h]

theorem attributesAt_clear {k : Nat} (h : k ≠ n) :
    (s.clear n e).attributesAt k = s.attributesAt k := by
  simp [clear, attributesAt, Std.ExtTreeMap.getElem?_erase, Ne.symm h]

theorem exists_row_clear (h : s.records[n]? = some (e, isPrimary)) (P : Entity → Prop) {k : Nat} :
    (∃ r, (s.clear n e).records[k]? = some r ∧ P r.1) ↔
      (∃ r, s.records[k]? = some r ∧ P r.1) ∧ ¬ (P e ∧ k = n) := by
  simp only [row_clear]
  constructor
  · rintro ⟨r, ⟨hk, hr⟩, hp⟩
    exact ⟨⟨r, hr, hp⟩, fun h => hk h.2⟩
  · rintro ⟨⟨r, hr, hp⟩, hnot⟩
    refine ⟨r, ⟨?_, hr⟩, hp⟩
    rintro rfl
    rw [h] at hr
    cases hr
    exact hnot ⟨hp, rfl⟩

theorem Consistent.clear (hs : s.Consistent) (h : s.records[n]? = some (e, isPrimary)) :
    (s.clear n e).Consistent := by
  constructor
  · rw [numbers_clear, NumberedStore.clear, unlink_eq]
    exact hs.number_lt
  · rw [numbers_clear]
    exact hs.number_inj
  · intro k r hk
    rw [numbers_clear]
    exact hs.record_number (row_clear.1 hk).2
  · intro k r c hk hmem
    rw [numbers_clear]
    exact hs.child_number (row_clear.1 hk).2 hmem
  · intro i j
    rw [numbers_clear, exists_row_clear h fun f => ∃ c ∈ f.children, s.numbers[c]? = some i,
      ← hs.mem_parents]
    exact mem_parents_unlink
  · intro root k
    rw [exists_row_clear h fun f => ∃ a, f = .atom a ∧ a.root = root, ← hs.mem_roots]
    exact mem_roots_unlink
  · intro k values hk
    simp only [NumberedStore.clear, Std.ExtTreeMap.getElem?_erase, Std.compare_eq_iff_eq] at hk
    split at hk
    · cases hk
    · next hne =>
      obtain ⟨r, hr⟩ := hs.attribute_row hk
      exact ⟨r, row_clear.2 ⟨Ne.symm hne, hr⟩⟩

theorem content_clear (hs : s.Consistent) (h : s.records[n]? = some (e, isPrimary)) :
    (s.clear n e).content = s.content.drop e := by
  have hn : s.numbers[e]? = some n := hs.record_number h
  funext x
  by_cases hx : x = e
  · subst hx
    rw [Content.drop_self]
    refine content_eq_none (record?_eq_none.2 fun k hk => ?_)
    rw [numbers_clear, hn] at hk
    cases hk
    simp [NumberedStore.clear]
  · rw [Content.drop_of_ne hx]
    refine content_congr (by rw [numbers_clear]) fun k hk => ?_
    have hne : k ≠ n := fun heq => hx ((hs.number_iff hn x).1 (heq ▸ hk))
    refine ⟨?_, attributesAt_clear hne⟩
    simp [NumberedStore.clear, Std.ExtTreeMap.getElem?_erase, Ne.symm hne]

/-! ## Attributes -/

theorem Consistent.setAttributeAt (hs : s.Consistent) (h : s.records[n]? = some (e, isPrimary))
    (name : String) (value : Value) : (s.setAttributeAt n name value).Consistent where
  number_lt := hs.number_lt
  number_inj := hs.number_inj
  record_number := hs.record_number
  child_number := hs.child_number
  mem_parents := hs.mem_parents
  mem_roots := hs.mem_roots
  attribute_row {k values} hk := by
    simp only [NumberedStore.setAttributeAt, Std.ExtTreeMap.getElem?_insert,
      Std.compare_eq_iff_eq] at hk
    split at hk
    · next hne =>
      subst hne
      exact ⟨_, h⟩
    · exact hs.attribute_row hk

theorem content_setAttributeAt (hs : s.Consistent) (h : s.records[n]? = some (e, isPrimary))
    (name : String) (value : Value) : (s.setAttributeAt n name value).content =
      s.content.put e ⟨isPrimary, (s.attributesAt n).insert name value⟩ := by
  funext x
  by_cases hx : x = e
  · subst hx
    rw [Content.put_self, content_of_row (hs.setAttributeAt h name value) h]
    simp [attributesAt, setAttributeAt]
  · rw [Content.put_of_ne hx]
    refine content_congr rfl fun k hk => ⟨rfl, ?_⟩
    have hne : n ≠ k := fun heq => hx ((hs.number_iff (hs.record_number h) x).1 (heq ▸ hk))
    simp [attributesAt, setAttributeAt, Std.ExtTreeMap.getElem?_insert, hne]

end SemanticHypergraph.NumberedStore
