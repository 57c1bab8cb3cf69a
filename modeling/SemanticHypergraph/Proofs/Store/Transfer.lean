import SemanticHypergraph.Proofs.Snapshot.Decoding
import SemanticHypergraph.Proofs.Store.Capture
import SemanticHypergraph.Proofs.Store.Reachable
import SemanticHypergraph.Proofs.Store.Restoring

/-!
# Moving a content to an empty store

What is exported and imported again arrives with all its records, and what was missing below its
edges is filled in. So it arrives unchanged if and only if nothing was missing.
-/
namespace SemanticHypergraph

open SemanticHypergraph.Hypergraph LawfulHypergraph

namespace Content

variable {c : Content} {es : List Entity}

theorem eq_some_of_isStored {x : Entity} (h : c.isStored x) :
    c x = some ⟨c.isPrimary x, c.attributesOf x⟩ := by
  obtain ⟨r, hr⟩ := Option.isSome_iff_exists.1 h
  simp [isPrimary, attributesOf, hr]

/-- Restoring all that is stored, in whatever order, puts it back and fills in what it lacks. -/
theorem restored_entries {entries : List Snapshot.Entry} (hperm : entries.Perm (c.entries es))
    (hes : ∀ e, e ∈ es ↔ c.isStored e) :
    empty.restored entries = c.fill (es.flatMap Entity.children) := by
  funext x
  unfold restored
  cases hfind : entries.find? fun entry => decide (entry.entity = x) with
  | some entry =>
    obtain ⟨e, he, hentry⟩ := mem_entries.1 (hperm.mem_iff.1 (List.mem_of_find?_eq_some hfind))
    have hx : entry.entity = x := by simpa using List.find?_some hfind
    subst hentry hx
    have hattributes : empty.attributesOf e ∪ c.attributesOf e = c.attributesOf e :=
      empty_union (c.attributesOf e)
    rw [fill_of_some (eq_some_of_isStored ((hes e).1 he))]
    simp only [hattributes]
  | none =>
    have hnone : c x = none := by
      rw [← isStored_eq_false, Bool.eq_false_iff]
      intro hstored
      have hentry := hperm.mem_iff.2 (mem_entries.2 ⟨x, (hes x).2 hstored, rfl⟩)
      simpa using List.find?_eq_none.1 hfind _ hentry
    have hchildren : ∀ y, y ∈ (entries.flatMap fun entry => entry.entity.children) ↔
        y ∈ es.flatMap Entity.children := by
      intro y
      simp only [List.mem_flatMap, hperm.mem_iff, mem_entries]
      constructor
      · rintro ⟨_, ⟨e, he, rfl⟩, hy⟩
        exact ⟨e, he, hy⟩
      · rintro ⟨e, he, hy⟩
        exact ⟨_, ⟨e, he, rfl⟩, hy⟩
    have hempty : ∀ e, empty.isStored e → e ∈ es := by
      intro e he
      cases he
    -- What has no entry is filled in if an edge lacks it, and the edges are the same on both sides.
    rw [fill_congr hchildren]
    apply fill_eq_fill _ hnone.symm
    rw [lacks_children_iff fun e he => (hes e).2 he, lacks_children_iff hempty]
    simp [hnone, empty]

end Content

namespace Snapshot

variable {σ : Type} [Hypergraph σ] [LawfulHypergraph σ] {t : σ}

/-- The snapshot of all that is stored can be restored if no entity holds a pattern token, and also
if nothing is missing. -/
theorem ready_entries {c : Content} {es : List Entity} {known : Entity → Prop}
    (hes : ∀ e, e ∈ es ↔ c.isStored e)
    (h : (∀ e ∈ es, e.isPattern = false) ∨ c.IsClosed) : Ready known (byDepth (c.entries es)) := by
  have hperm := byDepth_perm (c.entries es)
  rcases h with hpattern | hclosed
  · apply ready_of_forall_not_isPattern
    intro entry hentry
    obtain ⟨e, he, rfl⟩ := Content.mem_entries.1 (hperm.mem_iff.1 hentry)
    exact hpattern e he
  · apply ready_of_depth_sorted (pairwise_byDepth _)
    intro entry hentry x hx
    obtain ⟨e, he, rfl⟩ := Content.mem_entries.1 (hperm.mem_iff.1 hentry)
    right
    rw [(hperm.map Entry.entity).mem_iff, Content.map_entity_entries, List.mem_mergeSort]
    exact (hes x).2 (hclosed e ((hes e).1 he) x hx)

end Snapshot

section Lawful

variable {σ τ : Type} [Hypergraph σ] [LawfulHypergraph σ] [Hypergraph τ] [LawfulHypergraph τ]
  {s : σ} {t : τ}

theorem content_eq_empty_iff (ht : Consistent t) : content t = Content.empty ↔ order t = [] := by
  constructor
  · intro h
    rw [List.eq_nil_iff_forall_not_mem]
    intro e he
    have hstored := (mem_order ht).1 he
    rw [h] at hstored
    cases hstored
  · intro h
    funext e
    by_contra hne
    have hmem : e ∈ order t := (mem_order ht).2 (Option.isSome_iff_ne_none.2 hne)
    rw [h] at hmem
    cases hmem

/-- What is exported can be imported, with what it lacks filled in, if the file is not too long. -/
theorem yields_importBytes (hs : Consistent s) (ht : Consistent t) (hempty : order t = [])
    (h : (∀ e ∈ order s, e.isPattern = false) ∨ (content s).IsClosed) {bs : List UInt8}
    (hbs : exportBytes s = .ok bs) (hsize : bs.length ≤ Snapshot.maxFileSize) :
    Yields (importBytes bs) t (order s).length
      ((content s).fill ((order s).flatMap Entity.children)) := by
  rw [exportBytes_eq hs] at hbs
  cases hbs
  have hes : ∀ e, e ∈ order s ↔ (content s).isStored e := fun e => mem_order hs
  have hdistinct : (((content s).entries (order s)).map Snapshot.Entry.entity).Nodup := by
    rw [Content.map_entity_entries]
    exact ((List.mergeSort_perm _ _).nodup_iff).2 (nodup_order hs)
  have hrestored : (content t).restored (Snapshot.byDepth ((content s).entries (order s))) =
      (content s).fill ((order s).flatMap Entity.children) := by
    rw [(content_eq_empty_iff ht).2 hempty]
    exact Content.restored_entries (Snapshot.byDepth_perm _) hes
  have hlength : ((content s).entries (order s)).length = (order s).length := by
    simp [Content.entries]
  rw [← hrestored, ← hlength]
  rw [importBytes_eq_restore (Snapshot.ofBytes_toBytes rfl hsize)]
  exact Snapshot.yields_restore ht hdistinct (Snapshot.ready_entries hes h)

end Lawful

/-- What a store exports, if no entity of it holds a pattern token and the file is not too long, an
empty store of either kind and with any policy imports: every entity with its record, and without
mark and attributes what is inside an entity and was missing. So the content arrives unchanged, and
is exported again as the same file, if and only if nothing was missing. -/
theorem Store.Reachable.importBytes_exportBytes {s t : Store} (hs : s.Reachable) (ht : t.Reachable)
    {es : List Entity} (hes : entities s = .ok es) (hpattern : ∀ e ∈ es, e.isPattern = false)
    (hempty : entities t = .ok []) :
    ∃ bs, exportBytes s = .ok bs ∧ (bs.length ≤ Snapshot.maxFileSize →
      ∃ u, importBytes bs t = (.ok es.length, u) ∧
        (∀ x, (content u).isStored x ↔
          (content s).isStored x ∨ ∃ e, (content s).isStored e ∧ x.Inside e) ∧
        (∀ x, (content s).isStored x → content u x = content s x) ∧
        (∀ x, (content u).isStored x → ¬ (content s).isStored x → content u x = some ⟨false, ∅⟩) ∧
        (content u = content s ↔ (content s).IsClosed) ∧
        ((content s).IsClosed → Hypergraph.name t = Hypergraph.name s →
          exportBytes u = .ok bs)) := by
  have hsc := hs.consistent
  have htc := ht.consistent
  rw [entities_eq hsc] at hes
  rw [entities_eq htc] at hempty
  cases hes
  have horder : ∀ e, e ∈ order s ↔ (content s).isStored e := fun e => mem_order hsc
  have hbs := exportBytes_eq hsc
  refine ⟨_, hbs, fun hsize => ?_⟩
  obtain ⟨u, himport, hu, hname, -, hcontent⟩ :=
    yields_importBytes hsc htc (Except.ok.inj hempty) (.inl hpattern) hbs hsize
  have hcompletes : (content u).Completes (content s) := by
    rw [hcontent]
    exact Content.completes_fill horder
  have hclosed : content u = content s ↔ (content s).IsClosed := by
    rw [hcontent]
    exact Content.fill_eq_self_iff horder
  refine ⟨u, himport, hcompletes.stored_iff, hcompletes.kept, hcompletes.new, hclosed,
    fun h hnames => ?_⟩
  rw [← hbs]
  exact exportBytes_congr hsc hu (hname.trans hnames) (hclosed.2 h)

/-- An edge that was removed from below another one comes back without its mark. -/
theorem importBytes_exportBytes_gap :
    let a : Entity := .atom { root := "a" }
    let s := ((Operation.remove (.edge [a])).perform
      ((Operation.add (.edge [.edge [a]])).perform (Store.empty .memory "one" .overwrite)).2).2
    let t := Store.empty .file "two" .preserve
    ∃ bs u, exportBytes s = .ok bs ∧ importBytes bs t = (.ok 2, u) ∧
      content u (.edge [a]) = some ⟨false, ∅⟩ := by
  intro a s t
  have hs : s.Reachable := .perform _ (.perform _ (.empty .memory "one" .overwrite))
  have ht : t.Reachable := .empty .file "two" .preserve
  have hes : entities s = .ok [a, .edge [.edge [a]]] := by decide +kernel
  have hlength : (exportBytes s).map List.length = .ok 38 := by cbv
  obtain ⟨bs, hbs, h⟩ := hs.importBytes_exportBytes ht hes (by decide) (by rfl)
  rw [hbs] at hlength
  have hsize : bs.length = 38 := Except.ok.inj hlength
  obtain ⟨u, himport, hstored, -, hfilled, -⟩ := h (by rw [hsize]; decide)
  have hinside : (Entity.edge [a]).Inside (.edge [.edge [a]]) := .single List.mem_cons_self
  have hedge := (hstored (.edge [a])).2 (.inr ⟨_, by decide +kernel, hinside⟩)
  exact ⟨bs, u, hbs, himport, hfilled (.edge [a]) hedge (by decide +kernel)⟩

end SemanticHypergraph
