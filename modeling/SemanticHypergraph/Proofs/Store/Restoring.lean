import SemanticHypergraph.Proofs.Store.Filling
import SemanticHypergraph.Proofs.Store.Lawful
import SemanticHypergraph.Store.Transfer

/-!
# What adding and restoring leave

In a lawful store an entity is added by filling in what it lacks, and then its own record is written.
A snapshot is restored entry by entry in the same way; what is left does not depend on what was filled
in before an entry had its turn.
-/
namespace SemanticHypergraph

open SemanticHypergraph.Hypergraph LawfulHypergraph

namespace Content

/-- The record of an entity after it is inserted. -/
def addedRecord (c : Content) (policy : PrimaryPolicy) (isPrimary : Bool) (e : Entity) : Record :=
  match c e with
  | some r => { r with isPrimary := policy.resolve r.isPrimary isPrimary }
  | none => ⟨isPrimary, ∅⟩

/-- The content after an entity is added. -/
noncomputable def added (c : Content) (policy : PrimaryPolicy) (isPrimary : Bool) (e : Entity) :
    Content :=
  (c.fill e.children).put e (c.addedRecord policy isPrimary e)

/-- The content after an entry is restored. -/
noncomputable def restoredEntry (c : Content) (entry : Snapshot.Entry) : Content :=
  (c.fill entry.entity.children).put entry.entity
    ⟨entry.isPrimary, c.attributesOf entry.entity ∪ entry.attributes⟩

/-- The content after entries for different entities are restored. -/
noncomputable def restored (c : Content) (entries : List Snapshot.Entry) : Content := fun x =>
  match entries.find? fun entry => decide (entry.entity = x) with
  | some entry => some ⟨entry.isPrimary, c.attributesOf x ∪ entry.attributes⟩
  | none => c.fill (entries.flatMap fun entry => entry.entity.children) x

theorem put_put (c : Content) (e : Entity) (r r' : Record) : (c.put e r).put e r' = c.put e r' :=
  Function.update_idem _ _ _

theorem put_eq_self {c : Content} {e : Entity} {r : Record} (h : c e = some r) : c.put e r = c := by
  rw [put, ← h]
  exact Function.update_eq_self e c

/-- Inserting an entity whose children are filled in writes its record. -/
theorem insert_fill (c : Content) (policy : PrimaryPolicy) (isPrimary : Bool) (e : Entity) :
    insert e isPrimary policy (c.fill e.children) = (.ok (), c.added policy isPrimary e) := by
  have hself : c.fill e.children e = c e := fill_self
  cases he : c e with
  | some r => rw [insert_of_some (hself.trans he), added, addedRecord, he]
  | none =>
    have hmissing : (c.fill e.children).missingChild? e = none :=
      missingChild?_eq_none.2 fun x hx => isStored_fill_of_mem hx
    rw [insert_of_none (hself.trans he) hmissing, added, addedRecord, he]

theorem added_of_none {c : Content} {e : Entity} (h : c e = none) (policy : PrimaryPolicy) :
    c.added policy false e = c.fill [e] := by
  rw [added, addedRecord, h, fill_singleton_of_none h]

theorem attributes_addedRecord (c : Content) (policy : PrimaryPolicy) (isPrimary : Bool)
    (e : Entity) : (c.addedRecord policy isPrimary e).attributes = c.attributesOf e := by
  cases he : c e <;> simp [addedRecord, attributesOf, he]

theorem isStored_restoredEntry {c : Content} {entry : Snapshot.Entry} {x : Entity}
    (h : c.isStored x ∨ x = entry.entity) : (c.restoredEntry entry).isStored x := by
  rw [restoredEntry, isStored_put_iff]
  exact h.symm.imp_right isStored_fill

theorem restored_cons {c : Content} {entry : Snapshot.Entry} {rest : List Snapshot.Entry}
    (hnot : entry.entity ∉ rest.map Snapshot.Entry.entity) :
    (c.restoredEntry entry).restored rest = c.restored (entry :: rest) := by
  funext x
  by_cases hx : entry.entity = x
  · subst hx
    -- No later entry is for the same entity, so its record stays as this entry writes it.
    have hnone : (rest.find? fun other => decide (other.entity = entry.entity)) = none := by
      rw [List.find?_eq_none]
      intro other hother heq
      exact hnot (List.mem_map.2 ⟨other, hother, of_decide_eq_true heq⟩)
    simp only [restored, hnone, List.find?_cons, decide_true]
    exact fill_of_some (put_self _ _ _)
  · have hne : x ≠ entry.entity := fun h => hx h.symm
    have hattributes : (c.restoredEntry entry).attributesOf x = c.attributesOf x := by
      rw [attributesOf, restoredEntry, put_of_ne hne]
      exact attributesOf_fill
    have hfill : (c.restoredEntry entry).fill (rest.flatMap fun other => other.entity.children) x =
        c.fill ((entry :: rest).flatMap fun other => other.entity.children) x := by
      rw [restoredEntry, fill_put (fun y hy => isStored_fill_of_mem hy) hne, fill_fill,
        List.flatMap_cons]
    simp only [restored, List.find?_cons, decide_eq_false hx, hattributes, hfill]

end Content

variable {σ α β : Type} [Hypergraph σ]

section Yields

variable [StoreView σ]

/-- The update answers `a` and leaves a consistent store with content `d`, under the same name and
with the same policy. -/
def Yields (u : Update σ α) (s : σ) (a : α) (d : Content) : Prop :=
  ∃ t, u s = (.ok a, t) ∧ Consistent t ∧ Hypergraph.name t = Hypergraph.name s ∧
    StoreView.policy t = StoreView.policy s ∧ content t = d

theorem Yields.pure {s : σ} (hs : Consistent s) (a : α) :
    Yields (pure a : Update σ α) s a (content s) :=
  ⟨s, rfl, hs, rfl, rfl, rfl⟩

theorem Yields.bind {u : Update σ α} {f : α → Update σ β} {s : σ} {a : α} {b : β} {d d' : Content}
    (h : Yields u s a d)
    (hf : ∀ t, Consistent t → StoreView.policy t = StoreView.policy s → content t = d →
      Yields (f a) t b d') : Yields (u >>= f) s b d' := by
  obtain ⟨t, hu, ht, hname, hpolicy, hcontent⟩ := h
  obtain ⟨t', hu', ht', hname', hpolicy', hcontent'⟩ := hf t ht hpolicy hcontent
  refine ⟨t', ?_, ht', hname'.trans hname, hpolicy'.trans hpolicy, hcontent'⟩
  rw [Update.bind_apply, hu]
  exact hu'

theorem Realizes.yields {u : Update σ α} {v : PrimaryPolicy → Update Content α} {s : σ} {a : α}
    {d : Content} (h : Realizes u v) (hs : Consistent s)
    (hv : v (StoreView.policy s) (SemanticHypergraph.content s) = (.ok a, d)) :
    Yields u s a d := by
  have hresult := h.result hs
  have hcontent := h.content hs
  rw [hv] at hresult hcontent
  exact ⟨(u s).2, Prod.ext hresult rfl, h.consistent hs, h.name hs, h.policy hs, hcontent⟩

end Yields

variable [LawfulHypergraph σ] {s : σ}

theorem yields_contains (hs : Consistent s) (e : Entity) :
    Yields (Update.ask (contains · e)) s ((content s).isStored e) (content s) :=
  ⟨s, Prod.ext (contains_eq hs e) rfl, hs, rfl, rfl, rfl⟩

/-- A step of filling in, which is left out for an entity that is stored. -/
theorem yields_unless_contains {u : Update σ α} {w : Update σ β} {e : Entity} (a : α) {b : β}
    {d : Content} (hs : Consistent s)
    (hu : ∀ t, Consistent t → content t = content s → content s e = none →
      Yields u t a ((content s).fill [e]))
    (hw : ∀ t, Consistent t → content t = (content s).fill [e] → Yields w t b d) :
    Yields (do if ← Update.ask (contains · e) then w else u >>= fun _ => w) s b d := by
  refine (yields_contains hs e).bind fun t ht _ hcontent => ?_
  cases he : content s e with
  | some r =>
    have hstored : (content s).isStored e = true := Content.isStored_of_eq_some he
    rw [hstored]
    exact hw t ht (hcontent.trans (Content.fill_singleton_of_some he).symm)
  | none =>
    have hstored : (content s).isStored e = false := Content.isStored_eq_false.2 he
    rw [hstored]
    exact (hu t ht hcontent he).bind fun v hv _ hfilled => hw v hv hfilled

mutual

theorem yields_addMissing (isPrimary : Bool) : (e : Entity) → {s : σ} → Consistent s →
    Yields (addMissing isPrimary e) s () ((content s).added (StoreView.policy s) isPrimary e)
  | .atom a, s, hs => by
    rw [addMissing]
    apply (insert_realizes (.atom a) isPrimary).yields hs
    have hinsert := (content s).insert_fill (StoreView.policy s) isPrimary (.atom a)
    rwa [Entity.children_atom, Content.fill_nil] at hinsert
  | .edge cs, s, hs => by
    rw [addMissing]
    refine (yields_addMissingAll cs hs).bind fun t ht hpolicy hcontent => ?_
    apply (insert_realizes (.edge cs) isPrimary).yields ht
    rw [hpolicy, hcontent]
    exact (content s).insert_fill (StoreView.policy s) isPrimary (.edge cs)

theorem yields_addMissingAll : (es : List Entity) → {s : σ} → Consistent s →
    Yields (addMissingAll es) s () ((content s).fill es)
  | [], s, hs => by
    rw [addMissingAll, Content.fill_nil]
    exact .pure hs ()
  | e :: es, s, hs => by
    rw [addMissingAll, ← List.singleton_append, ← Content.fill_fill]
    refine yields_unless_contains () hs (fun t ht hcontent he => ?_) fun t ht hcontent => ?_
    · rw [← hcontent] at he ⊢
      rw [← Content.added_of_none he (StoreView.policy t)]
      exact yields_addMissing false e ht
    · rw [← hcontent]
      exact yields_addMissingAll es ht

end

theorem yields_addWith (hs : Consistent s) {e : Entity} (he : e.isPattern = false)
    (isPrimary : Bool) :
    Yields (addWith e isPrimary) s e ((content s).added (StoreView.policy s) isPrimary e) := by
  unfold addWith
  rw [he]
  exact (yields_addMissing isPrimary e hs).bind fun t ht _ hcontent => hcontent ▸ .pure ht e

namespace Snapshot

/-- Children that hold a pattern token have to be there already. -/
theorem yields_addChildren {es : List Entity} (hs : Consistent s)
    (hpattern : ∀ e ∈ es, e.isPattern = true → (content s).isStored e) :
    Yields (addChildren es) s () ((content s).fill es) := by
  induction es generalizing s with
  | nil =>
    rw [addChildren, Content.fill_nil]
    exact .pure hs ()
  | cons e es ih =>
    obtain ⟨hhead, htail⟩ := List.forall_mem_cons.1 hpattern
    rw [addChildren, ← List.singleton_append, ← Content.fill_fill]
    refine yields_unless_contains e hs (fun t ht hcontent he => ?_) fun t ht hcontent => ?_
    · have hplain : e.isPattern = false := by
        rw [Bool.eq_false_iff]
        exact fun h => Content.not_isStored_of_eq_none he (hhead h)
      rw [← hcontent] at he ⊢
      rw [← Content.added_of_none he (StoreView.policy t)]
      exact yields_addWith ht hplain false
    · rw [← hcontent]
      apply ih ht
      intro x hx h
      rw [hcontent]
      exact Content.isStored_fill (htail x hx h)

theorem yields_setAttributes {e : Entity} {r : Record} (rows : List (String × Value))
    (hs : Consistent s) (he : content s e = some r) :
    Yields (setAttributes e rows) s ()
      ((content s).put e
        { r with attributes := rows.foldl (fun all a => all.insert a.1 a.2) r.attributes }) := by
  induction rows generalizing s r with
  | nil =>
    rw [List.foldl_nil, Content.put_eq_self he]
    exact .pure hs ()
  | cons a rows ih =>
    have hset := (setAttribute_realizes e a.1 a.2).yields hs (Content.setAttribute_of_some he a.1 a.2)
    refine hset.bind fun t ht _ hcontent => ?_
    have hrows := ih ht (by rw [hcontent, Content.put_self])
    rwa [hcontent, Content.put_put] at hrows

theorem yields_restoreEntry {entry : Entry} (hs : Consistent s)
    (hpattern : ∀ e ∈ entry.entity.children, e.isPattern = true → (content s).isStored e) :
    Yields (restoreEntry entry) s () ((content s).restoredEntry entry) := by
  unfold restoreEntry
  refine (yields_addChildren hs hpattern).bind fun t ht _ hfilled => ?_
  have hinsert := (content s).insert_fill (StoreView.policy t) entry.isPrimary entry.entity
  rw [← hfilled] at hinsert
  refine ((insert_realizes entry.entity entry.isPrimary).yields ht hinsert).bind
    fun u hu _ hadded => ?_
  have hrecord : content u entry.entity =
      some ((content s).addedRecord (StoreView.policy t) entry.isPrimary entry.entity) := by
    rw [hadded, Content.added, Content.put_self]
  -- An entity that was filled in before its turn may have another mark, and the policy may keep it,
  -- so the mark is written once more.
  refine ((setPrimary_realizes entry.entity entry.isPrimary).yields hu
    (Content.setPrimary_of_some hrecord entry.isPrimary)).bind fun v hv _ hmarked => ?_
  have hattributes := yields_setAttributes entry.attributes.toList hv
    (by rw [hmarked, Content.put_self])
  rw [hmarked, hadded, Content.added, Content.put_put, Content.put_put,
    Content.attributes_addedRecord, foldl_insert_toList] at hattributes
  exact hattributes

/-- Every child that holds a pattern token is known before its edge has its turn. -/
def Ready (known : Entity → Prop) : List Entry → Prop
  | [] => True
  | entry :: rest =>
    (∀ e ∈ entry.entity.children, e.isPattern = true → known e) ∧
      Ready (fun e => known e ∨ e = entry.entity) rest

theorem Ready.mono {known known' : Entity → Prop} {entries : List Entry}
    (h : Ready known entries) (hmono : ∀ e, known e → known' e) : Ready known' entries := by
  induction entries generalizing known known' with
  | nil => trivial
  | cons entry rest ih =>
    obtain ⟨hchildren, hrest⟩ := h
    refine ⟨fun e he hpattern => hmono e (hchildren e he hpattern), ih hrest ?_⟩
    exact fun e he => he.imp_left (hmono e)

theorem ready_of_forall_not_isPattern {known : Entity → Prop} {entries : List Entry}
    (h : ∀ entry ∈ entries, entry.entity.isPattern = false) : Ready known entries := by
  induction entries generalizing known with
  | nil => trivial
  | cons entry rest ih =>
    obtain ⟨hhead, htail⟩ := List.forall_mem_cons.1 h
    refine ⟨?_, ih htail⟩
    intro e he hpattern
    rw [Entity.isPattern_of_mem_children he hhead] at hpattern
    cases hpattern

/-- If all children are among the entries, each is shallower than its edge and has had its turn. -/
theorem ready_of_depth_sorted {known : Entity → Prop} {entries : List Entry}
    (hsorted : entries.Pairwise fun a b => a.entity.depth ≤ b.entity.depth)
    (hchildren : ∀ entry ∈ entries, ∀ e ∈ entry.entity.children,
      known e ∨ e ∈ entries.map Entry.entity) : Ready known entries := by
  induction entries generalizing known with
  | nil => trivial
  | cons entry rest ih =>
    obtain ⟨hdepth, hsorted⟩ := List.pairwise_cons.1 hsorted
    obtain ⟨hhead, htail⟩ := List.forall_mem_cons.1 hchildren
    constructor
    · intro e he _
      have hlt := Entity.depth_lt_of_mem_children he
      rcases hhead e he with hknown | hmem
      · exact hknown
      · obtain ⟨other, hother, rfl⟩ := List.mem_map.1 hmem
        rcases List.mem_cons.1 hother with rfl | hother
        · exact absurd hlt (Nat.lt_irrefl _)
        · exact absurd hlt (Nat.not_lt.2 (hdepth other hother))
    · apply ih hsorted
      intro other hother e he
      rcases htail other hother e he with hknown | hmem
      · exact .inl (.inl hknown)
      · rcases List.mem_cons.1 hmem with rfl | hmem
        · exact .inl (.inr rfl)
        · exact .inr hmem

theorem yields_restoreEntries {entries : List Entry} (hs : Consistent s)
    (hdistinct : (entries.map Entry.entity).Nodup)
    (hready : Ready (fun e => (content s).isStored e) entries) :
    Yields (restoreEntries entries) s () ((content s).restored entries) := by
  induction entries generalizing s with
  | nil =>
    have hnil : (content s).restored [] = content s := (content s).fill_nil
    rw [restoreEntries, hnil]
    exact .pure hs ()
  | cons entry rest ih =>
    obtain ⟨hnot, hdistinct⟩ := List.nodup_cons.1 hdistinct
    obtain ⟨hchildren, hready⟩ := hready
    rw [restoreEntries, ← Content.restored_cons hnot]
    refine (yields_restoreEntry hs hchildren).bind fun t ht _ hcontent => ?_
    rw [← hcontent]
    refine ih ht hdistinct (hready.mono ?_)
    rw [hcontent]
    exact fun e => Content.isStored_restoredEntry

/-- The order in which a snapshot is restored. -/
def byDepth (entries : List Entry) : List Entry :=
  entries.mergeSort fun a b => decide (a.entity.depth ≤ b.entity.depth)

theorem byDepth_perm (entries : List Entry) : (byDepth entries).Perm entries :=
  List.mergeSort_perm _ _

theorem pairwise_byDepth (entries : List Entry) :
    (byDepth entries).Pairwise fun a b => a.entity.depth ≤ b.entity.depth := by
  unfold byDepth
  refine (List.pairwise_mergeSort ?_ ?_ entries).imp of_decide_eq_true
  · intro a b c hab hbc
    simp only [decide_eq_true_eq] at hab hbc ⊢
    exact Nat.le_trans hab hbc
  · intro a b
    simpa using Nat.le_total a.entity.depth b.entity.depth

/-- Entries that are in order stay so. -/
theorem byDepth_eq_self {entries : List Entry}
    (h : entries.Pairwise fun a b => a.entity.depth ≤ b.entity.depth) :
    byDepth entries = entries :=
  List.mergeSort_of_pairwise (h.imp fun hle => decide_eq_true hle)

theorem yields_restore {snapshot : Snapshot} (hs : Consistent s)
    (hdistinct : (snapshot.entries.map Entry.entity).Nodup)
    (hready : Ready (fun e => (content s).isStored e) (byDepth snapshot.entries)) :
    Yields snapshot.restore s snapshot.entries.length
      ((content s).restored (byDepth snapshot.entries)) := by
  have hdistinct : ((byDepth snapshot.entries).map Entry.entity).Nodup :=
    ((byDepth_perm snapshot.entries).map Entry.entity).nodup_iff.2 hdistinct
  refine (yields_restoreEntries hs hdistinct hready).bind fun t ht _ hcontent => ?_
  rw [← hcontent]
  exact .pure ht _

end Snapshot

end SemanticHypergraph
