import SemanticHypergraph.Proofs.Snapshot.Decoding
import SemanticHypergraph.Proofs.Store.Reachable
import SemanticHypergraph.Proofs.Store.Restoring

/-!
# Imports that fail

A file is read and checked as a whole before anything is restored. Restoring then takes one entry
after the other and undoes nothing: it stops at the first entry with an absent child that holds a
pattern token, and what the entries and children before that one left stays.
-/
namespace SemanticHypergraph

open SemanticHypergraph.Hypergraph LawfulHypergraph

namespace Content

/-- Restoring the entries in order stops at the absent child `child` of one of them, which holds a
pattern token, and leaves the content `d`. -/
inductive StopsAt : Content → List Snapshot.Entry → Entity → Content → Prop
  | child {c : Content} {entry : Snapshot.Entry} {rest : List Snapshot.Entry} {child : Entity}
      {xs ys : List Entity} (hchildren : entry.entity.children = xs ++ child :: ys)
      (hbefore : ∀ x ∈ xs, x.isPattern → c.isStored x) (hpattern : child.isPattern)
      (hnone : c child = none) : StopsAt c (entry :: rest) child (c.fill xs)
  | later {c d : Content} {entry : Snapshot.Entry} {rest : List Snapshot.Entry} {child : Entity}
      (hchildren : ∀ x ∈ entry.entity.children, x.isPattern → c.isStored x)
      (h : StopsAt (c.restoredEntry entry) rest child d) : StopsAt c (entry :: rest) child d

variable {c d : Content} {es : List Entity} {e x : Entity}

/-- What is absent below entities without tokens holds none. -/
theorem Lacks.isPattern_eq_false (hes : ∀ x ∈ es, x.isPattern → c.isStored x)
    (h : c.Lacks es x) : x.isPattern = false := by
  induction h with
  | @given x hx hnone =>
    rw [Bool.eq_false_iff]
    exact fun hpattern => not_isStored_of_eq_none hnone (hes x hx hpattern)
  | child _ hx _ ih => exact Entity.isPattern_of_mem_children hx ih

/-- Every child that holds a pattern token is stored, or there is a first one that is not. -/
theorem forall_stored_or_exists_first (c : Content) (es : List Entity) :
    (∀ x ∈ es, x.isPattern → c.isStored x) ∨ ∃ xs x ys, es = xs ++ x :: ys ∧
      (∀ y ∈ xs, y.isPattern → c.isStored y) ∧ x.isPattern ∧ c x = none := by
  cases hfind : es.find? fun x => x.isPattern && !c.isStored x with
  | none =>
    left
    simpa using hfind
  | some x =>
    right
    obtain ⟨hx, xs, ys, heq, hbefore⟩ := List.find?_eq_some_iff_append.1 hfind
    rw [Bool.and_eq_true, Bool.not_eq_true', isStored_eq_false] at hx
    refine ⟨xs, x, ys, heq, fun y hy hpattern => ?_, hx⟩
    have hy' := hbefore y hy
    simpa [hpattern] using hy'

/-- One of the entries at which restoring stops holds a pattern token. -/
theorem StopsAt.exists_isPattern {entries : List Snapshot.Entry} {child : Entity}
    (h : c.StopsAt entries child d) : ∃ entry ∈ entries, entry.entity.isPattern := by
  induction h with
  | @child c entry rest child xs ys hchildren hbefore hpattern hnone =>
    refine ⟨entry, List.mem_cons_self, ?_⟩
    by_contra hplain
    have hmem : child ∈ entry.entity.children := by simp [hchildren]
    rw [Entity.isPattern_of_mem_children hmem (Bool.eq_false_iff.2 hplain)] at hpattern
    cases hpattern
  | later _ _ ih =>
    obtain ⟨entry, hentry, hpattern⟩ := ih
    exact ⟨entry, List.mem_cons_of_mem _ hentry, hpattern⟩

end Content

/-- The error with which adding refuses an entity that holds a pattern token. -/
def tokenError (e : Entity) : Error :=
  .invalidEntity ("pattern syntax cannot be stored: " ++ e.toText)

variable {σ α β : Type} [Hypergraph σ]

section Breaks

variable [StoreView σ]

/-- The update fails with the error and leaves a consistent store with content `d`. -/
def Breaks (u : Update σ α) (s : σ) (e : Error) (d : Content) : Prop :=
  ∃ t, u s = (.error e, t) ∧ Consistent t ∧ content t = d

omit [Hypergraph σ] in
theorem Breaks.bind {u : Update σ α} {s : σ} {e : Error} {d : Content} (h : Breaks u s e d)
    (f : α → Update σ β) : Breaks (u >>= f) s e d := by
  obtain ⟨t, hu, ht, hcontent⟩ := h
  refine ⟨t, ?_, ht, hcontent⟩
  rw [Update.bind_apply, hu]

theorem Yields.bind_breaks {u : Update σ α} {f : α → Update σ β} {s : σ} {a : α} {e : Error}
    {d d' : Content} (h : Yields u s a d)
    (hf : ∀ t, Consistent t → content t = d → Breaks (f a) t e d') : Breaks (u >>= f) s e d' := by
  obtain ⟨t, hu, ht, -, -, hcontent⟩ := h
  obtain ⟨t', hu', ht', hcontent'⟩ := hf t ht hcontent
  refine ⟨t', ?_, ht', hcontent'⟩
  rw [Update.bind_apply, hu]
  exact hu'

end Breaks

theorem Snapshot.addChildren_append (xs ys : List Entity) :
    (addChildren (xs ++ ys) : Update σ Unit) = addChildren xs >>= fun _ => addChildren ys := by
  induction xs with
  | nil => rfl
  | cons x xs ih =>
    rw [List.cons_append, addChildren, addChildren, ih, bind_assoc]
    refine bind_congr fun found => ?_
    cases found with
    | true => rfl
    | false => exact (bind_assoc _ _ _).symm

variable [LawfulHypergraph σ] {s : σ}

theorem breaks_addWith (hs : Consistent s) {e : Entity} (he : e.isPattern = true)
    (isPrimary : Bool) : Breaks (addWith e isPrimary) s (tokenError e) (content s) := by
  rw [addWith_eq_throw he]
  exact ⟨s, rfl, hs, rfl⟩

namespace Snapshot

theorem breaks_addChildren {es xs ys : List Entity} {child : Entity} (hs : Consistent s)
    (hes : es = xs ++ child :: ys) (hbefore : ∀ x ∈ xs, x.isPattern → (content s).isStored x)
    (hpattern : child.isPattern) (hnone : content s child = none) :
    Breaks (addChildren es) s (tokenError child) ((content s).fill xs) := by
  rw [hes, addChildren_append]
  refine (yields_addChildren hs hbefore).bind_breaks fun t ht hcontent => ?_
  -- The children before it add nothing that holds a token, so the child is still absent.
  have habsent : content t child = none := by
    rw [hcontent, Content.fill_eq_none]
    refine ⟨hnone, fun hlacks => ?_⟩
    rw [hlacks.isPattern_eq_false hbefore] at hpattern
    cases hpattern
  rw [addChildren]
  refine (yields_contains ht child).bind_breaks fun u hu hsame => ?_
  rw [Content.isStored_eq_false.2 habsent, ← hcontent, ← hsame]
  exact (breaks_addWith hu hpattern false).bind _

theorem breaks_restoreEntries {c d : Content} {entries : List Entry} {child : Entity}
    (h : c.StopsAt entries child d) (hs : Consistent s) (hcontent : content s = c) :
    Breaks (restoreEntries entries) s (tokenError child) d := by
  induction h generalizing s with
  | @child c entry rest child xs ys hchildren hbefore hpattern hnone =>
    subst hcontent
    exact ((breaks_addChildren hs hchildren hbefore hpattern hnone).bind _).bind _
  | later hchildren _ ih =>
    subst hcontent
    exact (yields_restoreEntry hs hchildren).bind_breaks fun t ht hcontent => ih ht hcontent

/-- Restoring can stop in no other way. -/
theorem restoreEntries_ok_or_stops (entries : List Entry) (hs : Consistent s) :
    (restoreEntries entries s).1 = .ok () ∨ ∃ child d, (content s).StopsAt entries child d := by
  induction entries generalizing s with
  | nil => exact .inl rfl
  | cons entry rest ih =>
    rcases (content s).forall_stored_or_exists_first entry.entity.children with
      hchildren | ⟨xs, child, ys, heq, hbefore, hpattern, hnone⟩
    · obtain ⟨t, hentry, ht, -, -, hcontent⟩ := yields_restoreEntry hs hchildren
      rw [restoreEntries, Update.bind_apply, hentry]
      refine (ih ht).imp_right ?_
      rintro ⟨child, d, hstops⟩
      rw [hcontent] at hstops
      exact ⟨child, d, .later hchildren hstops⟩
    · exact .inr ⟨child, _, .child heq hbefore hpattern hnone⟩

theorem restore_error {snapshot : Snapshot} {e : Error} {t : σ} (hs : Consistent s)
    (h : snapshot.restore s = (.error e, t)) : ∃ child, e = tokenError child ∧
      (content s).StopsAt (byDepth snapshot.entries) child (content t) := by
  rw [restore, Update.bind_apply] at h
  rcases restoreEntries_ok_or_stops (byDepth snapshot.entries) hs with hok | ⟨child, d, hstops⟩
  · rw [byDepth] at hok
    rw [hok] at h
    cases h
  · obtain ⟨t', hbreaks, -, rfl⟩ := breaks_restoreEntries hstops hs rfl
    rw [byDepth] at hbreaks
    rw [hbreaks] at h
    cases h
    exact ⟨child, rfl, hstops⟩

end Snapshot

theorem breaks_importBytes {bs : List UInt8} {snapshot : Snapshot} {child : Entity} {d : Content}
    (hs : Consistent s) (hread : Snapshot.ofBytes bs = .ok snapshot)
    (h : (content s).StopsAt (Snapshot.byDepth snapshot.entries) child d) :
    Breaks (importBytes bs) s (tokenError child) d := by
  rw [importBytes_eq_restore hread]
  exact (Snapshot.breaks_restoreEntries h hs rfl).bind _

/-- An import fails in two ways. A file that cannot be read, or whose checksum is wrong, leaves the
store as it was. Restoring stops at an absent child that holds a pattern token, and what it did
before stays; so a file without tokens is imported as a whole or not at all. -/
theorem Store.Reachable.importBytes_error {s t : Store} (hs : s.Reachable) {bs : List UInt8}
    {e : Error} (h : importBytes bs s = (.error e, t)) :
    ((Snapshot.ofBytes bs = .error e ∧ t = s) ∨
      ∃ snapshot child, Snapshot.ofBytes bs = .ok snapshot ∧ e = tokenError child ∧
        (content s).StopsAt (Snapshot.byDepth snapshot.entries) child (content t)) ∧
    ((∀ snapshot, Snapshot.ofBytes bs = .ok snapshot →
        ∀ entry ∈ snapshot.entries, entry.entity.isPattern = false) → t = s) := by
  cases hread : Snapshot.ofBytes bs with
  | error e' =>
    rw [importBytes_eq_throw hread] at h
    cases h
    exact ⟨.inl ⟨rfl, rfl⟩, fun _ => rfl⟩
  | ok snapshot =>
    rw [importBytes_eq_restore hread] at h
    obtain ⟨child, he, hstops⟩ := Snapshot.restore_error hs.consistent h
    refine ⟨.inr ⟨snapshot, child, rfl, he, hstops⟩, fun hplain => ?_⟩
    obtain ⟨entry, hentry, hpattern⟩ := hstops.exists_isPattern
    have hmem := (Snapshot.byDepth_perm snapshot.entries).mem_iff.1 hentry
    rw [hplain snapshot rfl entry hmem] at hpattern
    cases hpattern

/-- What was filled in before the child that is refused stays. -/
theorem importBytes_error_child :
    let b : Entity := .atom { root := "b" }
    let star : Entity := .atom { root := "*" }
    let entries : List Snapshot.Entry := [⟨.edge [b, star], true, ∅⟩]
    let bytes := (⟨"x", Snapshot.checksumOf entries, entries⟩ : Snapshot).toBytes
    let s := Store.empty .file "test" .overwrite
    ∃ t child, importBytes bytes s = (.error (tokenError child), t) ∧
      (content s).StopsAt (Snapshot.byDepth entries) child (content t) := by
  intro b star entries bytes s
  have hs : s.Reachable := .empty .file "test" .overwrite
  have hread : Snapshot.ofBytes bytes = .ok ⟨"x", Snapshot.checksumOf entries, entries⟩ :=
    Snapshot.ofBytes_toBytes rfl (by decide +kernel)
  have hstops : (content s).StopsAt (Snapshot.byDepth entries) star ((content s).fill [b]) := by
    rw [Snapshot.byDepth_eq_self (List.pairwise_singleton _ _)]
    have hchildren : [b, star] = [b] ++ star :: [] := rfl
    exact .child hchildren (by decide) (by decide) (by decide +kernel)
  obtain ⟨t, himport, -, -⟩ := breaks_importBytes hs.consistent hread hstops
  obtain ⟨⟨herror, -⟩ | ⟨snapshot, child, hsame, he, hstopped⟩, -⟩ := hs.importBytes_error himport
  · rw [hread] at herror
    cases herror
  · rw [hread] at hsame
    cases hsame
    exact ⟨t, child, he ▸ himport, hstopped⟩

/-- The entries before the one that is refused stay in the store. -/
theorem importBytes_error_entry :
    let bytes : List UInt8 :=
      [0x53, 0x4d, 0x48, 0x47, 0x01, 0x01, 0x78, 0xb8, 0xcb, 0xd9, 0xa2, 0x82, 0xa4, 0xdc, 0xff,
       0xd1, 0x01, 0x02, 0x00, 0x01, 0x61, 0x00, 0x00, 0x01, 0x00, 0x01, 0x01, 0x00, 0x01, 0x2a,
       0x00, 0x00, 0x01, 0x00]
    let a : Entity := .atom { root := "a" }
    let s := Store.empty .memory "test" .preserve
    s.Reachable ∧ ∃ e t, importBytes bytes s = (.error e, t) ∧
      contains s a = .ok false ∧ contains t a = .ok true := by
  intro bytes a s
  let star : Entity := .atom { root := "*" }
  let entries : List Snapshot.Entry := [⟨a, true, ∅⟩, ⟨.edge [star], true, ∅⟩]
  let snapshot : Snapshot := ⟨"x", Snapshot.checksumOf entries, entries⟩
  have hs : s.Reachable := .empty .memory "test" .preserve
  have hread : Snapshot.ofBytes bytes = .ok snapshot :=
    Snapshot.ofBytes_of_eq_toBytes (by decide +kernel) rfl (by decide)
  have hstops : (content s).StopsAt (Snapshot.byDepth entries) star
      (((content s).restoredEntry ⟨a, true, ∅⟩).fill []) := by
    rw [Snapshot.byDepth_eq_self (by decide)]
    have hchildren : [star] = [] ++ star :: [] := rfl
    have hne : star ≠ a := by decide
    refine .later (by decide) (.child hchildren (by decide) (by decide) ?_)
    rw [Content.restoredEntry, Content.put_of_ne hne, Entity.children_atom, Content.fill_nil]
    decide +kernel
  obtain ⟨t, himport, ht, hcontent⟩ := breaks_importBytes hs.consistent hread hstops
  refine ⟨hs, _, t, himport, by decide +kernel, ?_⟩
  rw [contains_eq_true_iff ht, hcontent, Content.fill_nil]
  exact Content.isStored_restoredEntry (.inr rfl)

end SemanticHypergraph
