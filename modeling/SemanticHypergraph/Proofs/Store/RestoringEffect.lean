import SemanticHypergraph.Proofs.Store.AddingEffect
import SemanticHypergraph.Proofs.Store.Restoring

/-!
# The whole effect of restoring

The entries of a snapshot are written over what a store holds, and then what is lacking below them
is filled in. Which entry comes first does not show in that, since a filler never stands in the way
of an entry and the mark of an entry is written whatever the policy. Restoring the same snapshot
once more finds everything as it would leave it and changes nothing.
-/
namespace SemanticHypergraph

open SemanticHypergraph.Hypergraph LawfulHypergraph

namespace Snapshot

variable {entries entries' : List Entry} {entry : Entry} {x : Entity}

/-- Of the entries for different entities at most one is for a given entity. -/
theorem find?_eq_some_iff (hdistinct : (entries.map Entry.entity).Nodup) :
    (entries.find? fun entry => decide (entry.entity = x)) = some entry ↔
      entry ∈ entries ∧ entry.entity = x := by
  constructor
  · intro h
    exact ⟨List.mem_of_find?_eq_some h, by simpa using List.find?_some h⟩
  · rintro ⟨hentry, rfl⟩
    cases hfind : entries.find? fun other => decide (other.entity = entry.entity) with
    | none => simpa using List.find?_eq_none.1 hfind entry hentry
    | some other =>
      have hsame : other.entity = entry.entity := by simpa using List.find?_some hfind
      have hmem := List.mem_of_find?_eq_some hfind
      rw [List.inj_on_of_nodup_map hdistinct hmem hentry hsame]

theorem find?_eq_none_iff :
    (entries.find? fun entry => decide (entry.entity = x)) = none ↔
      x ∉ entries.map Entry.entity := by
  simp

theorem find?_perm (hdistinct : (entries.map Entry.entity).Nodup) (h : entries'.Perm entries) :
    (entries'.find? fun entry => decide (entry.entity = x)) =
      entries.find? fun entry => decide (entry.entity = x) := by
  have hdistinct' : (entries'.map Entry.entity).Nodup :=
    (h.map Entry.entity).nodup_iff.2 hdistinct
  refine Option.ext fun entry => ?_
  rw [find?_eq_some_iff hdistinct, find?_eq_some_iff hdistinct', h.mem_iff]

/-- The children of all entries. -/
def childrenOf (entries : List Entry) : List Entity :=
  entries.flatMap fun entry => entry.entity.children

end Snapshot

namespace Content

open Snapshot (Entry childrenOf)

variable {c : Content} {entries entries' : List Entry} {entry : Entry} {x : Entity}

/-- The content with the entries written over it; their attributes hold before those that were
there. -/
def overlaid (c : Content) (entries : List Entry) : Content := fun x =>
  match entries.find? fun entry => decide (entry.entity = x) with
  | some entry => some ⟨entry.isPrimary, c.attributesOf x ∪ entry.attributes⟩
  | none => c x

theorem overlaid_of_mem (hdistinct : (entries.map Entry.entity).Nodup) (h : entry ∈ entries) :
    c.overlaid entries entry.entity =
      some ⟨entry.isPrimary, c.attributesOf entry.entity ∪ entry.attributes⟩ := by
  rw [overlaid, (Snapshot.find?_eq_some_iff hdistinct).2 ⟨h, rfl⟩]

theorem overlaid_of_not_mem (h : x ∉ entries.map Entry.entity) : c.overlaid entries x = c x := by
  rw [overlaid, Snapshot.find?_eq_none_iff.2 h]

theorem overlaid_eq_none :
    c.overlaid entries x = none ↔ c x = none ∧ x ∉ entries.map Entry.entity := by
  constructor
  · intro h
    have hnot : x ∉ entries.map Entry.entity := by
      rw [← Snapshot.find?_eq_none_iff]
      unfold overlaid at h
      split at h
      · cases h
      · assumption
    rw [overlaid_of_not_mem hnot] at h
    exact ⟨h, hnot⟩
  · rintro ⟨hnone, hnot⟩
    rw [overlaid_of_not_mem hnot, hnone]

theorem isStored_overlaid :
    (c.overlaid entries).isStored x ↔ c.isStored x ∨ x ∈ entries.map Entry.entity := by
  rw [← not_iff_not, Bool.not_eq_true, isStored_eq_false, overlaid_eq_none, ← isStored_eq_false]
  simp

/-- What is filled in under an entry that was absent would be filled in for the entry's own sake. -/
theorem lacks_overlaid (hx : x ∉ entries.map Entry.entity) :
    (c.overlaid entries).Lacks (childrenOf entries) x ↔ c.Lacks (childrenOf entries) x := by
  constructor
  · intro h
    clear hx
    induction h with
    | given hx hnone => exact .given hx (overlaid_eq_none.1 hnone).1
    | child _ hx hnone ih => exact .child ih hx (overlaid_eq_none.1 hnone).1
  · intro h
    induction h with
    | given hmem hnone => exact .given hmem (overlaid_eq_none.2 ⟨hnone, hx⟩)
    | @child e y _ hy hnone ih =>
      by_cases he : e ∈ entries.map Entry.entity
      · obtain ⟨entry, hentry, rfl⟩ := List.mem_map.1 he
        exact .given (List.mem_flatMap.2 ⟨entry, hentry, hy⟩) (overlaid_eq_none.2 ⟨hnone, hx⟩)
      · exact .child (ih he) hy (overlaid_eq_none.2 ⟨hnone, hx⟩)

/-- Restoring writes the entries and then fills in what is lacking below them. -/
theorem restored_eq_fill (hdistinct : (entries.map Entry.entity).Nodup) :
    c.restored entries = (c.overlaid entries).fill (childrenOf entries) := by
  funext x
  by_cases hx : x ∈ entries.map Entry.entity
  · obtain ⟨entry, hentry, rfl⟩ := List.mem_map.1 hx
    rw [fill_of_some (overlaid_of_mem hdistinct hentry), restored,
      (Snapshot.find?_eq_some_iff hdistinct).2 ⟨hentry, rfl⟩]
  · rw [restored, Snapshot.find?_eq_none_iff.2 hx]
    exact fill_eq_fill (lacks_overlaid hx).symm (overlaid_of_not_mem hx).symm

theorem restored_perm (hdistinct : (entries.map Entry.entity).Nodup) (h : entries'.Perm entries) :
    c.restored entries' = c.restored entries := by
  have hfill : c.fill (childrenOf entries') = c.fill (childrenOf entries) :=
    fill_congr fun x => by simp only [childrenOf, List.mem_flatMap, h.mem_iff]
  funext x
  rw [restored, restored, Snapshot.find?_perm hdistinct h]
  cases entries.find? fun entry => decide (entry.entity = x) with
  | some entry => rfl
  | none => exact congrFun hfill x

/-- The entry is there already: its children are stored, and the record has its mark and all its
attributes. -/
structure Covers (c : Content) (entry : Entry) : Prop where
  children : ∀ x ∈ entry.entity.children, c.isStored x
  record : ∃ r, c entry.entity = some r ∧ r.isPrimary = entry.isPrimary ∧
    ∀ row ∈ entry.attributes.toList, r.attributes[row.1]? = some row.2

theorem covers_restored (hdistinct : (entries.map Entry.entity).Nodup) (h : entry ∈ entries) :
    (c.restored entries).Covers entry where
  children x hx := by
    rw [restored_eq_fill hdistinct]
    exact isStored_fill_of_mem (List.mem_flatMap.2 ⟨entry, h, hx⟩)
  record := by
    rw [restored_eq_fill hdistinct, fill_of_some (overlaid_of_mem hdistinct h)]
    refine ⟨_, rfl, rfl, fun row hrow => ?_⟩
    rw [Std.ExtTreeMap.getElem?_union, getElem?_of_mem_toList hrow, Option.some_or]

end Content

/-! ## Where there is nothing to restore -/

namespace OrderedStore

variable {s : OrderedStore} {e : Entity} {r : Record}

theorem setPrimary_settled (h : s.content e = some r) : s.setPrimary e r.isPrimary = s := by
  have hrecord : s.records[e]? = some r := h
  rw [setPrimary, hrecord]
  simp only [setRecord, insert_of_getElem?_eq_some hrecord]

theorem setAttribute_settled (h : s.content e = some r) {name : String} {value : Value}
    (hvalue : r.attributes[name]? = some value) : s.setAttribute e name value = (true, s) := by
  have hrecord : s.records[e]? = some r := h
  rw [setAttribute, hrecord]
  simp only [setRecord, insert_of_getElem?_eq_some hvalue, insert_of_getElem?_eq_some hrecord]

end OrderedStore

namespace NumberedStore

variable {s : NumberedStore} {e : Entity} {r : Record}

theorem exists_record_of_content (h : s.content e = some r) :
    ∃ n, s.record? e = some (n, r.isPrimary) ∧ s.attributesAt n = r.attributes := by
  obtain ⟨⟨n, isPrimary⟩, hrecord, rfl⟩ := Option.map_eq_some_iff.1 h
  exact ⟨n, hrecord, rfl⟩

theorem setPrimary_settled (hs : s.Consistent) (h : s.content e = some r) :
    s.setPrimary e r.isPrimary = s := by
  obtain ⟨n, hrecord, -⟩ := exists_record_of_content h
  have hrow := (record_eq_iff hs).1 hrecord
  rw [setPrimary, hrecord]
  simp only [setRecord, insert_of_getElem?_eq_some hrow]

theorem setAttribute_settled (h : s.content e = some r) {name : String} {value : Value}
    (hvalue : r.attributes[name]? = some value) : s.setAttribute e name value = (true, s) := by
  obtain ⟨n, hrecord, hattributes⟩ := exists_record_of_content h
  have hlive : s.liveNumber? e = some n := by
    rw [liveNumber?_eq, hrecord]
    rfl
  -- What has an attribute has a row.
  have hrow : s.attributeRows[n]? = some r.attributes := by
    unfold attributesAt at hattributes
    cases hfound : s.attributeRows[n]? with
    | some row => simpa [hfound] using hattributes
    | none =>
      rw [← hattributes, hfound] at hvalue
      simp at hvalue
  rw [setAttribute, hlive]
  simp only [setAttributeAt, hattributes, insert_of_getElem?_eq_some hvalue,
    insert_of_getElem?_eq_some hrow]

end NumberedStore

namespace Store

variable {s : Store} {e : Entity} {r : Record}

theorem setPrimary_settled (hs : Consistent s) (h : content s e = some r) :
    setPrimary e r.isPrimary s = (.ok (), s) := by
  cases s with
  | ordered s =>
    change (Except.ok (), ordered (s.setPrimary e r.isPrimary)) = _
    rw [OrderedStore.setPrimary_settled h]
  | numbered s =>
    change (Except.ok (), numbered (s.setPrimary e r.isPrimary)) = _
    rw [NumberedStore.setPrimary_settled hs h]

theorem setAttribute_settled (h : content s e = some r) {name : String} {value : Value}
    (hvalue : r.attributes[name]? = some value) :
    setAttribute e name value s = (.ok true, s) := by
  cases s with
  | ordered s =>
    have hset := OrderedStore.setAttribute_settled h hvalue
    change (Except.ok (s.setAttribute e name value).1, ordered (s.setAttribute e name value).2) = _
    rw [hset]
  | numbered s =>
    have hset := NumberedStore.setAttribute_settled h hvalue
    change (Except.ok (s.setAttribute e name value).1, numbered (s.setAttribute e name value).2) = _
    rw [hset]

end Store

namespace Snapshot

theorem addChildren_of_stored {σ : Type} [Hypergraph σ] {s : σ} {es : List Entity}
    (h : ∀ x ∈ es, contains s x = .ok true) : addChildren es s = (.ok (), s) := by
  induction es with
  | nil => rfl
  | cons x es ih =>
    obtain ⟨hx, hes⟩ := List.forall_mem_cons.1 h
    have hask : (Update.ask (contains · x) : Update σ Bool) s = (.ok true, s) := Prod.ext hx rfl
    rw [addChildren, Update.bind_apply, hask]
    exact ih hes

variable {s : Store} {e : Entity} {r : Record}

theorem setAttributes_settled (h : content s e = some r) {rows : List (String × Value)}
    (hrows : ∀ row ∈ rows, r.attributes[row.1]? = some row.2) :
    setAttributes e rows s = (.ok (), s) := by
  induction rows with
  | nil => rfl
  | cons row rows ih =>
    obtain ⟨hrow, hrest⟩ := List.forall_mem_cons.1 hrows
    rw [setAttributes, Update.bind_apply, Store.setAttribute_settled h hrow]
    exact ih hrest

/-- An entry that is there already is passed over. -/
theorem restoreEntry_of_covers (hs : Consistent s) {entry : Entry}
    (h : (content s).Covers entry) : restoreEntry entry s = (.ok (), s) := by
  obtain ⟨r, hr, hmark, hrows⟩ := h.record
  have hisPrimary : (content s).isPrimary entry.entity = entry.isPrimary := by
    simp [Content.isPrimary, hr, hmark]
  have hchildren : addChildren entry.entity.children s = (.ok (), s) :=
    addChildren_of_stored fun x hx => (contains_eq_true_iff hs).2 (h.children x hx)
  have hinsert : insert entry.entity entry.isPrimary s = (.ok (), s) := by
    refine Store.insert_settled hs (Content.isStored_of_eq_some hr) ?_
    rw [hisPrimary, PrimaryPolicy.resolve_self]
  have hset : setPrimary entry.entity entry.isPrimary s = (.ok (), s) :=
    hmark ▸ Store.setPrimary_settled hs hr
  rw [restoreEntry, Update.bind_apply, hchildren]
  simp only [Update.bind_apply, hinsert, hset]
  exact setAttributes_settled hr hrows

theorem restoreEntries_of_covers (hs : Consistent s) {entries : List Entry}
    (h : ∀ entry ∈ entries, (content s).Covers entry) :
    restoreEntries entries s = (.ok (), s) := by
  induction entries with
  | nil => rfl
  | cons entry entries ih =>
    obtain ⟨hentry, hrest⟩ := List.forall_mem_cons.1 h
    rw [restoreEntries, Update.bind_apply, restoreEntry_of_covers hs hentry]
    exact ih hrest

theorem restore_of_covers (hs : Consistent s) {snapshot : Snapshot}
    (h : ∀ entry ∈ snapshot.entries, (content s).Covers entry) :
    snapshot.restore s = (.ok snapshot.entries.length, s) := by
  have hentries : restoreEntries (byDepth snapshot.entries) s = (.ok (), s) :=
    restoreEntries_of_covers hs fun entry hentry =>
      h entry ((byDepth_perm snapshot.entries).mem_iff.1 hentry)
  rw [restore, Update.bind_apply, ← byDepth, hentries]
  rfl

theorem yields_restore_overlaid (hs : Consistent s) {snapshot : Snapshot}
    (hdistinct : (snapshot.entries.map Entry.entity).Nodup)
    (hplain : ∀ entry ∈ snapshot.entries, entry.entity.isPattern = false) :
    Yields snapshot.restore s snapshot.entries.length
      (((content s).overlaid snapshot.entries).fill (childrenOf snapshot.entries)) := by
  have hperm := byDepth_perm snapshot.entries
  rw [← Content.restored_eq_fill hdistinct, ← Content.restored_perm hdistinct hperm]
  refine yields_restore hs hdistinct (ready_of_forall_not_isPattern fun entry hentry => ?_)
  exact hplain entry (hperm.mem_iff.1 hentry)

end Snapshot

/-- The order of the entries does not show in what is left. -/
theorem Store.Reachable.restore_perm {s t : Store} (hs : s.Reachable) {snapshot other : Snapshot}
    (hdistinct : (snapshot.entries.map Snapshot.Entry.entity).Nodup)
    (hplain : ∀ entry ∈ snapshot.entries, entry.entity.isPattern = false)
    (hperm : other.entries.Perm snapshot.entries) {n : Nat}
    (hrestore : snapshot.restore s = (.ok n, t)) :
    ∃ u, other.restore s = (.ok n, u) ∧
      (∀ q : Query, ResultsAgree Answer.Agrees (q.answer u) (q.answer t)) ∧
      (s.backend = .memory → u = t) := by
  have hdistinct' : (other.entries.map Snapshot.Entry.entity).Nodup :=
    (hperm.map Snapshot.Entry.entity).nodup_iff.2 hdistinct
  obtain ⟨t', hrestore', ht, hname, hpolicy, hcontent⟩ :=
    Snapshot.yields_restore_overlaid hs.consistent hdistinct hplain
  rw [hrestore] at hrestore'
  cases hrestore'
  obtain ⟨u, hother, hu, hname', hpolicy', hcontent'⟩ :=
    Snapshot.yields_restore_overlaid hs.consistent hdistinct' fun entry hentry =>
      hplain entry (hperm.mem_iff.1 hentry)
  rw [hperm.length_eq] at hother
  rw [← Content.restored_eq_fill hdistinct', Content.restored_perm hdistinct hperm,
    Content.restored_eq_fill hdistinct, ← hcontent] at hcontent'
  have halike : Alike u t :=
    ⟨hu, ht, hname'.trans hname.symm, hpolicy'.trans hpolicy.symm, hcontent'⟩
  refine ⟨u, hother, halike.answer, fun hmemory => ?_⟩
  have hafter : ∀ {p : Snapshot} {v : Store} {m : Nat}, p.restore s = (.ok m, v) →
      v.Reachable ∧ v.backend = .memory := by
    intro p v m hp
    have hv : ((Operation.restore p).perform s).2 = v :=
      (Update.state_map _ _ s).trans (congrArg Prod.snd hp)
    rw [← hv]
    exact ⟨hs.perform (.restore p), (backend_perform _ s).trans hmemory⟩
  obtain ⟨hu', humemory⟩ := hafter hother
  obtain ⟨ht', htmemory⟩ := hafter hrestore
  exact hu'.eq_of_content ht' humemory htmemory halike.name halike.policy halike.content

/-! ## The effect -/

open Snapshot (Entry childrenOf) in
/-- A snapshot of different entities without pattern tokens can be restored into every reachable
store. Then just that is stored which was stored before, what the snapshot has, and the least set
that contains what is absent from both of the children of the snapshot's entities and of the
children of its own members. An entity of the snapshot has the mark that the snapshot says, under
any policy, and the attributes that it had before, overridden by those of the snapshot; what was
filled in is non-primary and without attributes, and everything else is as it was. A snapshot with
the same entries in another order leaves a store that answers every query alike, apart from the
order in which a store kept in a file lists what is new, and the same snapshot restored once more
changes nothing at all. -/
theorem Store.Reachable.restore_effect {s : Store} (hs : s.Reachable) {snapshot : Snapshot}
    (hdistinct : (snapshot.entries.map Entry.entity).Nodup)
    (hplain : ∀ entry ∈ snapshot.entries, entry.entity.isPattern = false) :
    let lacking := ((content s).overlaid snapshot.entries).Lacks (childrenOf snapshot.entries)
    ∃ t, snapshot.restore s = (.ok snapshot.entries.length, t) ∧
      (∀ x, contains t x = .ok true ↔
        contains s x = .ok true ∨ x ∈ snapshot.entries.map Entry.entity ∨ lacking x) ∧
      (∀ entry ∈ snapshot.entries, isPrimary t entry.entity = .ok entry.isPrimary ∧
        ∀ key, attributeOf t entry.entity key = match entry.attributes[key]? with
          | some value => .ok (some value)
          | none => attributeOf s entry.entity key) ∧
      (∀ x, lacking x → isPrimary t x = .ok false ∧ ∀ key, attributeOf t x key = .ok none) ∧
      (∀ x, contains s x = .ok true → x ∉ snapshot.entries.map Entry.entity →
        isPrimary t x = isPrimary s x ∧ ∀ key, attributeOf t x key = attributeOf s x key) ∧
      (∀ other : Snapshot, other.entries.Perm snapshot.entries →
        ∃ u, other.restore s = (.ok snapshot.entries.length, u) ∧
          (∀ q : Query, ResultsAgree Answer.Agrees (q.answer u) (q.answer t)) ∧
          (s.backend = .memory → u = t)) ∧
      snapshot.restore t = (.ok snapshot.entries.length, t) := by
  intro lacking
  have hsc := hs.consistent
  obtain ⟨t, hrestore, ht, hname, hpolicy, hcontent⟩ :=
    Snapshot.yields_restore_overlaid hsc hdistinct hplain
  refine ⟨t, hrestore, fun x => ?_, fun entry hentry => ?_, fun x hx => ?_, fun x hx hnot => ?_,
    fun other hperm => ?_, ?_⟩
  · rw [contains_eq_true_iff ht, contains_eq_true_iff hsc, hcontent,
      Content.isStored_fill_iff_lacks, Content.isStored_overlaid, or_assoc]
  · have hrecord : content t entry.entity =
        some ⟨entry.isPrimary, (content s).attributesOf entry.entity ∪ entry.attributes⟩ := by
      rw [hcontent, Content.fill_of_some (Content.overlaid_of_mem hdistinct hentry)]
    refine ⟨isPrimary_of_content ht hrecord, fun key => ?_⟩
    rw [attributeOf_of_content ht hrecord, attributeOf_eq hsc, Std.ExtTreeMap.getElem?_union]
    cases entry.attributes[key]? <;> rfl
  · have hrecord : content t x = some ⟨false, ∅⟩ := by
      rw [hcontent, Content.fill_of_lacks hx]
    refine ⟨isPrimary_of_content ht hrecord, fun key => ?_⟩
    rw [attributeOf_of_content ht hrecord, Std.ExtTreeMap.getElem?_empty]
  · rw [contains_eq_true_iff hsc] at hx
    obtain ⟨r, hr⟩ := Option.isSome_iff_exists.1 hx
    have hrecord : content t x = some r := by
      rw [hcontent]
      exact Content.fill_of_some ((Content.overlaid_of_not_mem hnot).trans hr)
    refine ⟨?_, fun key => ?_⟩
    · rw [isPrimary_of_content ht hrecord, isPrimary_of_content hsc hr]
    · rw [attributeOf_of_content ht hrecord, attributeOf_of_content hsc hr]
  · exact hs.restore_perm hdistinct hplain hperm hrestore
  · apply Snapshot.restore_of_covers ht
    intro entry hentry
    rw [hcontent, ← Content.restored_eq_fill hdistinct]
    exact Content.covers_restored hdistinct hentry

/-- A primary edge loses its mark although the policy preserves marks, and gets the child that it
lacked; what the other edge lacks is filled in around it, whichever of the two is listed first. -/
theorem restore_effect_demoted :
    let p : Entity := .atom { root := "p" }
    let a : Entity := .atom { root := "a" }
    let b : Entity := .atom { root := "b" }
    let known : Entity := .edge [p, a]
    let s := Operation.run [.add known, .remove a] (Store.empty .memory "test" .preserve)
    let entries : List Snapshot.Entry :=
      [⟨.edge [known, .edge [p, b]], true, ∅⟩, ⟨known, false, ∅⟩]
    let snapshot : Snapshot := ⟨"x", 0, entries⟩
    isPrimary s known = .ok true ∧ contains s a = .ok false ∧ ∃ t,
      snapshot.restore s = (.ok 2, t) ∧ isPrimary t known = .ok false ∧ contains t a = .ok true ∧
        contains t b = .ok true ∧ isPrimary t b = .ok false ∧
        (⟨"y", 0, entries.reverse⟩ : Snapshot).restore s = (.ok 2, t) ∧
        snapshot.restore t = (.ok 2, t) := by
  intro p a b known s entries snapshot
  have hs : s.Reachable := (Store.Reachable.empty .memory "test" .preserve).run _
  have hdistinct : (snapshot.entries.map Snapshot.Entry.entity).Nodup := by decide
  have hplain : ∀ entry ∈ snapshot.entries, entry.entity.isPattern = false := by decide
  obtain ⟨t, hrestore, hstored, hentry, hlacking, -, hperm, htwice⟩ :=
    hs.restore_effect hdistinct hplain
  have ha : ((content s).overlaid entries).Lacks (Snapshot.childrenOf entries) a :=
    .given (by decide) (by decide +kernel)
  have hedge : ((content s).overlaid entries).Lacks (Snapshot.childrenOf entries) (.edge [p, b]) :=
    .given (by decide) (by decide +kernel)
  have hb : ((content s).overlaid entries).Lacks (Snapshot.childrenOf entries) b :=
    hedge.child (by decide) (by decide +kernel)
  obtain ⟨u, hother, -, hmemory⟩ := hperm ⟨"y", 0, entries.reverse⟩ (List.reverse_perm entries)
  have hu : u = t := hmemory (by decide +kernel)
  refine ⟨by decide +kernel, by decide +kernel, t, hrestore, (hentry ⟨known, false, ∅⟩ ?_).1,
    (hstored a).2 (.inr (.inr ha)), (hstored b).2 (.inr (.inr hb)), (hlacking b hb).1, hu ▸ hother,
    htwice⟩
  exact List.mem_cons_of_mem _ List.mem_cons_self

end SemanticHypergraph
