import SemanticHypergraph.Proofs.CommandLine.Saving
import SemanticHypergraph.Proofs.Store.Transfer

/-!
# What an ordered store is after it was saved

A command that changes an ordered store writes the entities that are left to a snapshot file, and the
next command reads it. Reading also puts in what is missing inside an entity, and it refuses a file
that is too long, which writing does not. So the content lasts from command to command if and only
if nothing is missing and the file is not too long.
-/
namespace SemanticHypergraph.CommandLine

open SemanticHypergraph.Hypergraph LawfulHypergraph

variable {settings : StoreSettings} {path : String} {d : Directory} {place : Directory.Place}
  {bytes : List UInt8} {s t u : Store}

/-! ## Reading what was written -/

/-- The path leads to a file, and it can be used at once. -/
structure HasFile (d : Directory) (path : String) (bytes : List UInt8) : Prop where
  holds : d.holds path
  resolve : ∃ place, d.resolve path = .ok (place, .file bytes)

theorem hasFile_write {d' : Directory} (hd : d.IsProper) (h : d.write path bytes = .ok d') :
    HasFile d' path bytes := by
  obtain ⟨-, place, hfind, hresolve⟩ := Directory.find_write hd h
  refine ⟨?_, place, hresolve⟩
  rw [Directory.holds, hfind]
  rfl

section HasFile

variable (h : HasFile d path bytes) (hmemory : settings.backend = .memory)
  (hpath : settings.path = some path) (hvalid : settings.validate = .ok ())
include h hmemory hpath

/-- A file that is too long is an obstacle to opening the store. -/
theorem HasFile.length_le (hopen : (openStore settings d).1 = .ok u) :
    bytes.length ≤ Snapshot.maxFileSize := by
  obtain ⟨place, hresolve⟩ := h.resolve
  rw [CommandLine.openStore_eq hmemory hpath] at hopen
  split at hopen
  · rw [loadSnapshot_eq, if_pos h.holds] at hopen
    obtain ⟨read, hread, -⟩ := bind_eq_ok.1 hopen
    exact ((readSnapshotFile_eq_ok hresolve).1 hread).2
  · cases hopen

include hvalid

theorem HasFile.openStore_eq (hsize : bytes.length ≤ Snapshot.maxFileSize) :
    let new := Store.empty .memory settings.resolvedName settings.primaryPolicy
    openStore settings d =
      ((importBytes bytes new).1.map fun _ => (importBytes bytes new).2, d) := by
  obtain ⟨place, hresolve⟩ := h.resolve
  have hread : readSnapshotFile d path = .ok bytes :=
    (readSnapshotFile_eq_ok hresolve).2 ⟨rfl, hsize⟩
  rw [CommandLine.openStore_eq hmemory hpath, hvalid]
  dsimp only
  rw [loadSnapshot_eq, if_pos h.holds, hread]
  rfl

theorem HasFile.opens (ht : Consistent t)
    (hbytes : exportBytes t = .ok bytes) (hsize : bytes.length ≤ Snapshot.maxFileSize)
    (hready : (∀ e ∈ order t, e.isPattern = false) ∨ (content t).IsClosed) :
    ∃ u, openStore settings d = (.ok u, d) ∧
      content u = (content t).fill ((order t).flatMap Entity.children) := by
  have hnew := Store.consistent_empty .memory settings.resolvedName settings.primaryPolicy
  obtain ⟨u, himport, -, -, -, hcontent⟩ :=
    yields_importBytes ht hnew rfl hready hbytes hsize
  refine ⟨u, ?_, hcontent⟩
  rw [h.openStore_eq hmemory hpath hvalid hsize, himport]
  rfl

/-- A store that was written is opened with its content if and only if no stored edge lacks a child
and the file is not too long. -/
theorem HasFile.opens_same_iff (ht : Consistent t) (hbytes : exportBytes t = .ok bytes) :
    (∃ u, openStore settings d = (.ok u, d) ∧ content u = content t) ↔
      (content t).IsClosed ∧ bytes.length ≤ Snapshot.maxFileSize := by
  constructor
  · rintro ⟨u, hopen, hcontent⟩
    -- What is opened has no gap, from whatever file it is read.
    obtain ⟨-, -, -, -, hclosed⟩ := openStore_eq_ok hmemory hpath hopen
    have hresult : (openStore settings d).1 = .ok u := by rw [hopen]
    exact ⟨hcontent ▸ hclosed, h.length_le hmemory hpath hresult⟩
  · rintro ⟨hclosed, hsize⟩
    obtain ⟨u, hopen, hcontent⟩ := h.opens hmemory hpath hvalid ht hbytes hsize (.inr hclosed)
    refine ⟨u, hopen, ?_⟩
    rw [hcontent]
    exact (Content.fill_eq_self_iff fun e => mem_order ht).2 hclosed

end HasFile

/-- A command that ends well leaves the file of the store that it saves. -/
theorem Command.Saves.hasFile {c : Command} {op : Operation} {answer : Answer}
    (h : c.Saves settings d s op answer t)
    (hmemory : settings.backend = .memory) (hpath : settings.path = some path) (hd : d.IsProper)
    (hok : (c.perform settings d).1.isOk) :
    ∃ bytes, exportBytes t = .ok bytes ∧ HasFile (c.perform settings d).2 path bytes := by
  obtain ⟨report, hperform⟩ := h.perform_eq hmemory hpath
  rw [hperform, Update.bind_apply] at hok ⊢
  have hsaved : (saveStore settings t d).1.isOk := by
    cases hresult : (saveStore settings t d).1 with
    | error e =>
      rw [hresult] at hok
      cases hok
    | ok _ => rfl
  obtain ⟨hbackend, -⟩ := h.memory_consistent hmemory hpath
  obtain ⟨bytes, d', hbytes, hwrite, hsave⟩ := saveStore_isOk hpath hbackend hsaved
  refine ⟨bytes, hbytes, ?_⟩
  rw [hsave]
  exact hasFile_write hd hwrite

/-- Whatever commands went before, a command that ends well and saves a store leaves it to the next
one with the same content if and only if no stored edge lacks a child and the file is not too long.
What is missing inside an entity comes back, so that what was removed stays away if and only if it
is inside no entity that is left. -/
theorem Command.openStore_after_saving (hmemory : settings.backend = .memory)
    (hpath : settings.path = some path) {start : Directory} (hstart : start.IsProper)
    (before : List Command) {c : Command}
    (hsaved : c.savedStore? settings (run settings before start) = some t)
    (hok : (c.perform settings (run settings before start)).1.isOk) :
    ∃ bytes, exportBytes t = .ok bytes ∧
      let d := run settings (before ++ [c]) start
      ((∃ u, openStore settings d = (.ok u, d) ∧ content u = content t) ↔
        (content t).IsClosed ∧ bytes.length ≤ Snapshot.maxFileSize) ∧
      ((∀ e, (content t).isStored e → e.isPattern = false) →
        bytes.length ≤ Snapshot.maxFileSize →
        ∃ u, openStore settings d = (.ok u, d) ∧ (content u).Completes (content t)) := by
  obtain ⟨s, op, answer, hsaves⟩ := savedStore?_eq_some hsaved
  have hproper := isProper_run settings before hstart
  obtain ⟨-, hvalid, -, -⟩ :=
    openStore_eq_ok hmemory hpath (hsaves.openStore_eq hmemory hpath)
  obtain ⟨-, ht⟩ := hsaves.memory_consistent hmemory hpath
  obtain ⟨bytes, hbytes, hfile⟩ := hsaves.hasFile hmemory hpath hproper hok
  have hrun : run settings (before ++ [c]) start =
      (c.perform settings (run settings before start)).2 := List.foldl_concat ..
  rw [← hrun] at hfile
  refine ⟨bytes, hbytes, hfile.opens_same_iff hmemory hpath hvalid ht hbytes, ?_⟩
  intro hpattern hsize
  have hplain : ∀ e ∈ order t, e.isPattern = false := fun e he => hpattern e ((mem_order ht).1 he)
  obtain ⟨u, hopen, hcontent⟩ :=
    hfile.opens hmemory hpath hvalid ht hbytes hsize (.inl hplain)
  refine ⟨u, hopen, ?_⟩
  rw [hcontent]
  exact Content.completes_fill fun e => mem_order ht

/-- An ordered store that is kept in a snapshot file. -/
def snapshotAt (path : String) : StoreSettings := { backend := .memory, path := some path }

/-- An edge that no other edge holds stays away. -/
theorem Command.openStore_after_saving_edge :
    let start := Directory.empty ["home"]
    let d := run (snapshotAt "s") [.add "(a b)" true, .remove "(a b)" .shallow] start
    ∃ u, openStore (snapshotAt "s") d = (.ok u, d) ∧
      content u (.edge [.atom { root := "a" }, .atom { root := "b" }]) = none := by
  intro start d
  have hproper : start.IsProper := by
    simp [start, Directory.IsProper, Directory.IsName, Directory.empty]
  have hsaved : ((Command.remove "(a b)" .shallow).savedStore? (snapshotAt "s")
      (run (snapshotAt "s") [.add "(a b)" true] (.empty ["home"]))).map
        (fun t => (entities t, (exportBytes t).map List.length)) =
      some (.ok [.atom { root := "a" }, .atom { root := "b" }], .ok 32) := by cbv
  have hok : ((Command.remove "(a b)" .shallow).perform (snapshotAt "s")
      (run (snapshotAt "s") [.add "(a b)" true] (.empty ["home"]))).1.isOk := by cbv
  obtain ⟨t, ht, hpair⟩ := Option.map_eq_some_iff.1 hsaved
  obtain ⟨hentities, hlength⟩ := Prod.mk.inj hpair
  obtain ⟨s, op, answer, hsaves⟩ := savedStore?_eq_some ht
  obtain ⟨-, htc⟩ := hsaves.memory_consistent rfl rfl
  rw [entities_eq htc] at hentities
  have hchildren : ∀ e, (content t).isStored e → e.children = [] := by
    intro e he
    have hmem := (mem_order htc).2 he
    rw [Except.ok.inj hentities] at hmem
    simp only [List.mem_cons, List.not_mem_nil, or_false] at hmem
    rcases hmem with rfl | rfl <;> rfl
  have hclosed : (content t).IsClosed := by
    intro e he x hx
    rw [hchildren e he] at hx
    cases hx
  obtain ⟨bytes, hbytes, hiff, -⟩ := openStore_after_saving rfl rfl hproper _ ht hok
  rw [hbytes] at hlength
  have hsize : bytes.length = 32 := Except.ok.inj hlength
  obtain ⟨u, hopen, hcontent⟩ := hiff.2 ⟨hclosed, by rw [hsize]; decide⟩
  refine ⟨u, hopen, ?_⟩
  rw [hcontent, ← Content.isStored_eq_false, Bool.eq_false_iff]
  intro hstored
  cases hchildren _ hstored

/-- A child of an edge comes back after it was removed. -/
theorem Command.openStore_after_saving_child :
    let d := run (snapshotAt "s") [.add "(a b)" true] (.empty ["home"])
    let d' := run (snapshotAt "s") [.add "(a b)" true, .remove "a" .shallow] (.empty ["home"])
    ∃ t u, (Command.remove "a" .shallow).savedStore? (snapshotAt "s") d = some t ∧
      ((Command.remove "a" .shallow).perform (snapshotAt "s") d).1.isOk ∧
      content t (.atom { root := "a" }) = none ∧ openStore (snapshotAt "s") d' = (.ok u, d') ∧
      content u (.atom { root := "a" }) = some ⟨false, ∅⟩ := by
  intro d d'
  have hsaved : ((Command.remove "a" .shallow).savedStore? (snapshotAt "s")
      (run (snapshotAt "s") [.add "(a b)" true] (.empty ["home"]))).map
        (fun t => content t (.atom { root := "a" })) = some none := by cbv
  have hok : ((Command.remove "a" .shallow).perform (snapshotAt "s")
      (run (snapshotAt "s") [.add "(a b)" true] (.empty ["home"]))).1.isOk := by cbv
  have hopened : (openStore (snapshotAt "s")
      (run (snapshotAt "s") [.add "(a b)" true, .remove "a" .shallow] (.empty ["home"]))).1.map
        (fun u => content u (.atom { root := "a" })) = .ok (some ⟨false, ∅⟩) := by cbv
  obtain ⟨t, ht, hnone⟩ := Option.map_eq_some_iff.1 hsaved
  cases hopen : openStore (snapshotAt "s") d' with
  | mk result d'' =>
    rw [hopen] at hopened
    cases result with
    | error e => cases hopened
    | ok u =>
      cases (openStore_eq_ok rfl rfl hopen).1
      exact ⟨t, u, ht, hok, hnone, rfl, Except.ok.inj hopened⟩

end SemanticHypergraph.CommandLine
