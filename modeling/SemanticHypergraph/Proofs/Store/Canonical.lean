import SemanticHypergraph.Proofs.Snapshot.Injective
import SemanticHypergraph.Proofs.Store.Capture
import SemanticHypergraph.Proofs.Store.Reachable

/-!
# One content, one file

A snapshot that describes a store is determined by what the store answers: what is stored, which of
it is primary and what attributes it has. How the store came to hold that leaves no trace. Since no
two snapshots have the same file, neither have stores that answer differently.
-/
namespace SemanticHypergraph

open SemanticHypergraph.Hypergraph LawfulHypergraph

variable {σ τ : Type} [Hypergraph σ] [Hypergraph τ] {s : σ} {t : τ}

/-- The stores hold the same entities, each with the same mark and the same attributes. -/
structure SameContent (s : σ) (t : τ) : Prop where
  stored : ∀ e, contains s e = .ok true ↔ contains t e = .ok true
  isPrimary : ∀ e, contains s e = .ok true → isPrimary s e = isPrimary t e
  attributeOf : ∀ e, contains s e = .ok true → ∀ key, attributeOf s e key = attributeOf t e key

namespace Snapshot

/-- The snapshot has the name of the store and its entities in strictly ascending order, each with
its mark and all its attributes. -/
structure Describes (p : Snapshot) (s : σ) : Prop where
  name : p.name = Hypergraph.name s
  checksum : p.checksum = checksumOf p.entries
  ascending : Ascending (p.entries.map Entry.entity)
  stored : ∀ e, e ∈ p.entries.map Entry.entity ↔ contains s e = .ok true
  isPrimary : ∀ entry ∈ p.entries, isPrimary s entry.entity = .ok entry.isPrimary
  attributes : ∀ entry ∈ p.entries, ∀ key,
    attributeOf s entry.entity key = .ok entry.attributes[key]?

variable {p q : Snapshot}

/-- What the store answers tells which entries a snapshot of it has. -/
theorem Describes.mem_entries (h : p.Describes s) {entry : Entry} : entry ∈ p.entries ↔
    contains s entry.entity = .ok true ∧
      Hypergraph.isPrimary s entry.entity = .ok entry.isPrimary ∧
        ∀ key, attributeOf s entry.entity key = .ok entry.attributes[key]? := by
  constructor
  · intro hentry
    exact ⟨(h.stored _).1 (List.mem_map_of_mem hentry), h.isPrimary _ hentry,
      h.attributes _ hentry⟩
  · rintro ⟨hstored, hmark, hattributes⟩
    -- Some entry has the entity; the store answers the same for both, so it is this one.
    obtain ⟨found, hfound, hentity⟩ := List.mem_map.1 ((h.stored _).2 hstored)
    have hfoundMark := h.isPrimary found hfound
    have hfoundAttributes := h.attributes found hfound
    rw [hentity, hmark] at hfoundMark
    have hsame : entry.attributes = found.attributes := by
      refine Std.ExtTreeMap.ext_getElem? fun {key} => ?_
      have hkey := hfoundAttributes key
      rw [hentity, hattributes key] at hkey
      exact Except.ok.inj hkey
    cases entry
    cases found
    cases hentity
    cases hsame
    cases hfoundMark
    exact hfound

/-- Two stores have the same snapshot if and only if they have the same name and content. -/
theorem Describes.eq_iff (hp : p.Describes s) (hq : q.Describes t) :
    p = q ↔ Hypergraph.name s = Hypergraph.name t ∧ SameContent s t := by
  constructor
  · rintro rfl
    refine ⟨hp.name.symm.trans hq.name, ?_, ?_, ?_⟩
    · intro e
      rw [← hp.stored e, hq.stored e]
    · intro e he
      obtain ⟨entry, hentry, rfl⟩ := List.mem_map.1 ((hp.stored e).2 he)
      rw [hp.isPrimary entry hentry, hq.isPrimary entry hentry]
    · intro e he key
      obtain ⟨entry, hentry, rfl⟩ := List.mem_map.1 ((hp.stored e).2 he)
      rw [hp.attributes entry hentry key, hq.attributes entry hentry key]
  · rintro ⟨hname, hsame⟩
    have hentries : p.entries = q.entries := by
      refine eq_of_ascending_map Entry.entity hp.ascending hq.ascending fun entry => ?_
      rw [hp.mem_entries, hq.mem_entries, ← hsame.stored]
      refine and_congr_right fun he => ?_
      rw [hsame.isPrimary _ he]
      refine and_congr_right fun _ => forall_congr' fun key => ?_
      rw [hsame.attributeOf _ he]
    have hnames : p.name = q.name := hp.name.trans (hname.trans hq.name.symm)
    have hsums : p.checksum = q.checksum := by rw [hp.checksum, hq.checksum, hentries]
    cases p
    cases q
    cases hnames
    cases hsums
    cases hentries
    rfl

/-- What is captured of a consistent store describes it. -/
theorem describes_snapshot [LawfulHypergraph σ] (hs : Consistent s) :
    ((content s).snapshot (Hypergraph.name s) (order s)).Describes s where
  name := rfl
  checksum := rfl
  ascending := by
    rw [Content.snapshot, Content.map_entity_entries]
    exact ascending_mergeSort (nodup_order hs)
  stored e := by
    rw [Content.snapshot, Content.map_entity_entries, List.mem_mergeSort, mem_order hs,
      contains_eq hs]
    simp
  isPrimary entry hentry := by
    obtain ⟨e, -, rfl⟩ := Content.mem_entries.1 hentry
    exact isPrimary_eq hs e
  attributes entry hentry key := by
    obtain ⟨e, -, rfl⟩ := Content.mem_entries.1 hentry
    exact attributeOf_eq hs e key

end Snapshot

/-- A reachable store of either kind can always be captured and exported, and the snapshot describes
it; the file is that of no other snapshot. Two reachable stores export the same file if and only if
they have the same name and the same content, whatever their kinds, policies and histories. -/
theorem Store.Reachable.exportBytes_canonical {s t : Store} (hs : s.Reachable) (ht : t.Reachable) :
    ∃ p q : Snapshot, Snapshot.capture s = .ok p ∧ Snapshot.capture t = .ok q ∧
      p.Describes s ∧ q.Describes t ∧
      exportBytes s = .ok p.toBytes ∧ exportBytes t = .ok q.toBytes ∧
      (∀ r : Snapshot, r.toBytes = p.toBytes → r = p) ∧
      (p.toBytes = q.toBytes ↔
        Hypergraph.name s = Hypergraph.name t ∧ SameContent s t) := by
  have hp := Snapshot.describes_snapshot hs.consistent
  have hq := Snapshot.describes_snapshot ht.consistent
  refine ⟨_, _, Snapshot.capture_eq hs.consistent, Snapshot.capture_eq ht.consistent, hp, hq,
    exportBytes_eq hs.consistent, exportBytes_eq ht.consistent,
    fun r hr => Snapshot.toBytes_injective hr, ?_⟩
  rw [Snapshot.toBytes_injective.eq_iff]
  exact hp.eq_iff hq

/-- An edge that was deleted and came back is exported like one that was added once. -/
theorem exportBytes_canonical_readded :
    let a : Entity := .atom { root := "a" }
    let s := Operation.run [.add (.edge [a])] (Store.empty .memory "graph" .overwrite)
    let t := Operation.run [.addWith a false, .addWith (.edge [a]) false, .remove (.edge [a]),
      .add (.edge [a])] (Store.empty .file "graph" .preserve)
    SameContent s t := by
  intro a s t
  have hs : s.Reachable := (Store.Reachable.empty .memory "graph" .overwrite).run _
  have ht : t.Reachable := (Store.Reachable.empty .file "graph" .preserve).run _
  have hsame : exportBytes s = exportBytes t := by cbv
  obtain ⟨p, q, -, -, -, -, hp, hq, -, hiff⟩ := hs.exportBytes_canonical ht
  rw [hp, hq] at hsame
  exact (hiff.1 (Except.ok.inj hsame)).2

end SemanticHypergraph
