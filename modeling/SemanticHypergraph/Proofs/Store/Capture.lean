import SemanticHypergraph.Proofs.Store.Lawful
import SemanticHypergraph.Store.Transfer

/-!
# What is captured of a store

A snapshot of a lawful store lists the stored entities in entity order with what their records say.
The order in which the store lists them and the rows of their attributes do not show in it.
-/
namespace SemanticHypergraph

open SemanticHypergraph.Hypergraph LawfulHypergraph

namespace Content

/-- The entries of some entities, in entity order. -/
def entries (c : Content) (es : List Entity) : List Snapshot.Entry :=
  (es.mergeSort fun a b => (compare a b).isLE).map fun e => ⟨e, c.isPrimary e, c.attributesOf e⟩

theorem map_entity_entries (c : Content) (es : List Entity) :
    (c.entries es).map Snapshot.Entry.entity = es.mergeSort fun a b => (compare a b).isLE := by
  simp [entries, Function.comp_def]

theorem mem_entries {c : Content} {es : List Entity} {entry : Snapshot.Entry} :
    entry ∈ c.entries es ↔ ∃ e ∈ es, entry = ⟨e, c.isPrimary e, c.attributesOf e⟩ := by
  simp only [entries, List.mem_map, List.mem_mergeSort, eq_comm]

theorem entries_perm (c : Content) {es fs : List Entity} (he : es.Nodup) (h : es.Perm fs) :
    c.entries es = c.entries fs := by
  have hsort : (es.mergeSort fun a b => (compare a b).isLE) =
      fs.mergeSort fun a b => (compare a b).isLE := by
    refine (ascending_mergeSort he).ext (ascending_mergeSort (h.nodup_iff.1 he)) fun e => ?_
    rw [List.mem_mergeSort, List.mem_mergeSort, h.mem_iff]
  rw [entries, hsort, entries]

/-- The snapshot of some entities under a name. -/
def snapshot (c : Content) (name : String) (es : List Entity) : Snapshot :=
  ⟨name, Snapshot.checksumOf (c.entries es), c.entries es⟩

end Content

namespace Snapshot

/-- Rows that agree with a function on keys make a table that agrees with it. -/
theorem getElem?_foldl_insert {f : Entity → Attributes} {rows : List (Entity × Attributes)}
    (h : ∀ p ∈ rows, p.2 = f p.1) (table : Std.ExtTreeMap Entity Attributes) (e : Entity) :
    (rows.foldl (fun all p => all.insert p.1 p.2) table)[e]? =
      if e ∈ rows.map Prod.fst then some (f e) else table[e]? := by
  induction rows generalizing table with
  | nil => simp
  | cons p rows ih =>
    rw [List.foldl_cons, ih fun q hq => h q (List.mem_cons_of_mem p hq)]
    simp only [List.map_cons, List.mem_cons, Std.ExtTreeMap.getElem?_insert,
      Std.compare_eq_iff_eq]
    have hp := h p List.mem_cons_self
    by_cases hmem : e ∈ rows.map Prod.fst
    · simp [hmem]
    · by_cases he : e = p.1
      · subst he
        simp [hp]
      · simp [hmem, he, Ne.symm he]

variable {σ : Type} [Hypergraph σ] [LawfulHypergraph σ] {s : σ}

/-- The attributes of every entity can be looked up in the table made of the rows. -/
theorem attributesOf_eq (hs : Consistent s) : ∃ table : Std.ExtTreeMap Entity Attributes,
    Snapshot.attributesOf s = .ok table ∧
      ∀ e, table[e]?.getD ∅ = (content s).attributesOf e := by
  refine ⟨_, by rw [Snapshot.attributesOf, attributes_eq hs], fun e => ?_⟩
  have hrows : ∀ p ∈ (content s).attributeRows (order s),
      p.2 = (content s).attributesOf p.1 := by
    intro p hp
    obtain ⟨f, _, rfl⟩ := List.mem_map.1 (List.mem_of_mem_filter hp)
    rfl
  rw [getElem?_foldl_insert hrows]
  split
  · rfl
  · next hmem =>
    -- what has no row is not stored or has no attributes
    rw [Std.ExtTreeMap.getElem?_empty, Option.getD_none]
    by_contra hne
    refine hmem (List.mem_map.2 ⟨(e, (content s).attributesOf e), List.mem_filter.2 ⟨?_, ?_⟩, rfl⟩)
    · refine List.mem_map.2 ⟨e, (mem_order hs).2 ?_, rfl⟩
      by_contra hstored
      have hnone : content s e = none := by simpa [Content.isStored] using hstored
      simp [Content.attributesOf, hnone] at hne
    · simpa [Std.ExtTreeMap.isEmpty_iff] using Ne.symm hne

theorem capture_eq (hs : Consistent s) :
    capture s = .ok ((content s).snapshot (Hypergraph.name s) (order s)) := by
  obtain ⟨table, htable, hlookup⟩ := attributesOf_eq hs
  have hentries : (((order s).mergeSort fun a b => (compare a b).isLE).mapM fun e => do
      return (⟨e, ← isPrimary s e, table[e]?.getD ∅⟩ : Entry)) =
        .ok ((content s).entries (order s)) := by
    refine mapM_eq_ok fun e _ => ?_
    rw [isPrimary_eq hs, hlookup]
    rfl
  rw [capture, htable, entities_eq hs]
  simp only [bind, Except.bind] at hentries ⊢
  rw [hentries]
  rfl

end Snapshot

section Lawful

variable {σ τ : Type} [Hypergraph σ] [LawfulHypergraph σ] [Hypergraph τ] [LawfulHypergraph τ]
  {s : σ} {t : τ}

theorem exportBytes_eq (hs : Consistent s) : exportBytes s =
    .ok ((content s).snapshot (Hypergraph.name s) (order s)).toBytes := by
  rw [exportBytes, Snapshot.capture_eq hs]
  rfl

theorem exportBytes_congr (hs : Consistent s) (ht : Consistent t)
    (hname : Hypergraph.name t = Hypergraph.name s) (hcontent : content t = content s) :
    exportBytes t = exportBytes s := by
  have hperm : (order t).Perm (order s) := by
    apply (List.perm_ext_iff_of_nodup (nodup_order ht) (nodup_order hs)).2
    intro e
    rw [mem_order ht, mem_order hs, hcontent]
  rw [exportBytes_eq ht, exportBytes_eq hs, hname, hcontent, Content.snapshot,
    (content s).entries_perm (nodup_order ht) hperm, Content.snapshot]

end Lawful

end SemanticHypergraph
