import Mathlib.Data.List.Basic
import SemanticHypergraph.CommandLine.Directory
import SemanticHypergraph.Proofs.Entity.AtomText
import SemanticHypergraph.Proofs.Store.Table

/-!
# Finding what was written

A file is written at a place where no directory lies, so the directories that lead to it are still
there, and the path under which it was written leads to it.
-/
namespace SemanticHypergraph

namespace Directory

/-- What a directory can hold something under. -/
def IsName (name : String) : Prop := name ≠ "" ∧ '/' ∉ name.toList

/-- The working directory has a proper place. -/
def IsProper (d : Directory) : Prop := ∀ name ∈ d.working, IsName name

theorem isName_of_mem_steps {path name : String} (h : name ∈ steps path) : IsName name := by
  rw [steps, FilePath.parts, List.mem_filter, List.mem_map] at h
  obtain ⟨⟨cs, hcs, rfl⟩, hne⟩ := h
  refine ⟨by simpa using hne, ?_⟩
  rw [String.toList_ofList]
  exact not_mem_of_mem_splitOn hcs

theorem steps_absolutePath {place : Place} (h : ∀ name ∈ place, IsName name) :
    steps (absolutePath place) = place := by
  have htext : (absolutePath place).toList =
      [] ++ '/' :: ['/'].intercalate (place.map String.toList) := by
    rw [absolutePath, String.toList_append, String.toList_intercalate]
    rfl
  rw [steps, FilePath.parts, htext, List.splitOn_append_cons_self_of_not_mem List.not_mem_nil]
  cases place with
  | nil => rfl
  | cons name rest =>
    have hslash : ∀ cs ∈ (name :: rest).map String.toList, '/' ∉ cs := by
      intro cs hcs
      obtain ⟨x, hx, rfl⟩ := List.mem_map.1 hcs
      exact (h x hx).2
    have hnames : ∀ x ∈ name :: rest, (x != "") = true := by
      intro x hx
      simpa using (h x hx).1
    have htexts : ((name :: rest).map String.toList).map String.ofList = name :: rest := by
      simp [Function.comp_def]
    rw [List.splitOn_intercalate _ hslash (by simp), List.map_cons, htexts,
      List.filter_cons_of_neg (by simp), List.filter_eq_self.2 hnames]

theorem absolutePath_inj {p q : Place} (hp : ∀ name ∈ p, IsName name)
    (hq : ∀ name ∈ q, IsName name) (h : absolutePath p = absolutePath q) : p = q := by
  rw [← steps_absolutePath hp, h, steps_absolutePath hq]

variable {d : Directory} {p q place : Place} {node : Node} {path : String}

theorem isName_start (hd : d.IsProper) (path : String) : ∀ name ∈ d.start path, IsName name := by
  unfold start
  split
  · exact fun name h => absurd h List.not_mem_nil
  · exact hd

/-! ## Going from directory to directory -/

theorem enter_eq_ok {component : String} (h : d.enter p component = .ok q) :
    d.nodeAt p = some .folder ∧ (q = p ∨ q = p.dropLast ∨ q = p ++ [component]) := by
  obtain ⟨_, hfolder, h⟩ := bind_eq_ok.1 h
  constructor
  · unfold requireFolder at hfolder
    split at hfolder <;> first | assumption | cases hfolder
  · split at h
    · exact .inl (Except.ok.inj h).symm
    · split at h
      · exact .inr (.inl (Except.ok.inj h).symm)
      · split at h
        · cases h
        · exact .inr (.inr (Except.ok.inj h).symm)

theorem isName_enter {component : String} (hp : ∀ name ∈ p, IsName name) (hc : IsName component)
    (h : d.enter p component = .ok q) : ∀ name ∈ q, IsName name := by
  obtain ⟨_, rfl | rfl | rfl⟩ := enter_eq_ok h
  · exact hp
  · exact fun name hname => hp name ((List.dropLast_sublist p).subset hname)
  · intro name hname
    rcases List.mem_append.1 hname with hname | hname
    · exact hp name hname
    · exact List.mem_singleton.1 hname ▸ hc

theorem isName_foldlM_enter {components : List String} (hp : ∀ name ∈ p, IsName name)
    (hc : ∀ name ∈ components, IsName name) (h : components.foldlM d.enter p = .ok q) :
    ∀ name ∈ q, IsName name := by
  induction components generalizing p with
  | nil => exact Except.ok.inj h ▸ hp
  | cons component rest ih =>
    obtain ⟨hhead, htail⟩ := List.forall_mem_cons.1 hc
    rw [List.foldlM_cons] at h
    obtain ⟨next, hnext, h⟩ := bind_eq_ok.1 h
    exact ih (isName_enter hp hhead hnext) htail h

/-! ## Putting something at a place -/

theorem nodeAt_put (d : Directory) (place : Place) (node : Node) :
    (d.put place node).nodeAt place = some node := by
  simp [nodeAt, put]

theorem nodeAt_put_of_ne (h : absolutePath p ≠ absolutePath place) :
    (d.put place node).nodeAt p = d.nodeAt p := by
  have hne : compare (absolutePath place) (absolutePath p) ≠ .eq := by
    rw [Ne, Std.compare_eq_iff_eq]
    exact h.symm
  simp [nodeAt, put, Std.ExtTreeMap.getElem?_insert, hne]

/-- Where no directory lies, nothing that is put there hides one. -/
theorem nodeAt_put_of_folder (hd : d.IsProper) (hplace : ∀ name ∈ place, IsName name)
    (hfree : d.nodeAt place ≠ some .folder) (hp : d.nodeAt p = some .folder) :
    (d.put place node).nodeAt p = some .folder := by
  rw [nodeAt_put_of_ne, hp]
  intro heq
  apply hfree
  unfold nodeAt at hp ⊢
  rw [← heq]
  cases hnode : d.nodes[absolutePath p]? with
  | some n =>
    rw [hnode] at hp
    exact hp
  | none =>
    -- Both are then places above the working directory, and those are told apart by their paths.
    rw [hnode] at hp
    have habove : p <+: d.working := by
      simpa using hp
    have hnames : ∀ name ∈ p, IsName name := fun name h => hd name (habove.subset h)
    rw [← absolutePath_inj hnames hplace heq]
    exact hp

section Put

variable (hd : d.IsProper) (hplace : ∀ name ∈ place, IsName name)
  (hfree : d.nodeAt place ≠ some .folder)
include hd hplace hfree

theorem enter_put {component : String} (h : d.enter p component = .ok q) :
    (d.put place node).enter p component = .ok q := by
  have hfolder := (enter_eq_ok h).1
  have hkept : (d.put place node).nodeAt p = some .folder :=
    nodeAt_put_of_folder hd hplace hfree hfolder
  unfold enter requireFolder at h ⊢
  rw [hfolder] at h
  rw [hkept]
  exact h

theorem foldlM_enter_put {components : List String} (h : components.foldlM d.enter p = .ok q) :
    components.foldlM (d.put place node).enter p = .ok q := by
  induction components generalizing p with
  | nil => exact h
  | cons component rest ih =>
    rw [List.foldlM_cons] at h ⊢
    obtain ⟨next, hnext, h⟩ := bind_eq_ok.1 h
    exact bind_eq_ok.2 ⟨next, enter_put hd hplace hfree hnext, ih h⟩

end Put

/-! ## Writing -/

/-- A place for a file, which the path leads to. -/
structure LeadsTo (d : Directory) (path : String) (place : Place) : Prop where
  short : checkShortPath path = .ok ()
  route : (steps path).foldlM d.enter (d.start path) = .ok place
  free : d.nodeAt place ≠ some .folder
  no_slash : FilePath.endsInSlash path = false

theorem leadsTo_of_target (h : d.target path = .ok place) : d.LeadsTo path place := by
  obtain ⟨_, hshort, h⟩ := bind_eq_ok.1 h
  cases hlast : (steps path).getLast? with
  | none =>
    rw [hlast] at h
    cases h
  | some last =>
    rw [hlast] at h
    obtain ⟨parent, hparent, h⟩ := bind_eq_ok.1 h
    obtain ⟨place', hplace, h⟩ := bind_eq_ok.1 h
    by_cases hplain : last = "." ∨ last = ".." ∨ FilePath.endsInSlash path
    · rw [if_pos hplain] at h
      cases h
    · rw [if_neg hplain] at h
      have hfree : d.nodeAt place' ≠ some .folder ∧ place' = place := by
        split at h
        · cases h
        · exact ⟨‹_›, Except.ok.inj h⟩
      obtain ⟨hfree, rfl⟩ := hfree
      have hslash : FilePath.endsInSlash path = false := by
        simpa using fun h => hplain (.inr (.inr h))
      have hroute : (steps path).foldlM d.enter (d.start path) = .ok place' := by
        rw [← List.dropLast_append_getLast? last hlast, List.foldlM_append]
        exact bind_eq_ok.2 ⟨parent, hparent, bind_eq_ok.2 ⟨place', hplace, rfl⟩⟩
      exact ⟨hshort, hroute, hfree, hslash⟩

theorem LeadsTo.isName (h : d.LeadsTo path place) (hd : d.IsProper) :
    ∀ name ∈ place, IsName name :=
  isName_foldlM_enter (isName_start hd path) (fun _ => isName_of_mem_steps) h.route

/-- A path leads to what is put at its end. -/
theorem LeadsTo.find_put (h : d.LeadsTo path place) (hd : d.IsProper) (hnode : node ≠ .folder) :
    (d.put place node).find path = .ok (place, node) ∧
      (d.put place node).resolve path = .ok (place, node) := by
  have hresolve : (d.put place node).resolve path = .ok (place, node) := by
    obtain ⟨_, hcheck, -⟩ := bind_eq_ok.1 h.short
    have hroute : (steps path).foldlM (d.put place node).enter ((d.put place node).start path) =
        .ok place := foldlM_enter_put hd (h.isName hd) h.free h.route
    refine bind_eq_ok.2 ⟨(), hcheck, bind_eq_ok.2 ⟨place, hroute, ?_⟩⟩
    rw [nodeAt_put]
    cases node with
    | folder => exact absurd rfl hnode
    | file bytes => simp [h.no_slash]; rfl
    | database s => simp [h.no_slash]; rfl
  exact ⟨bind_eq_ok.2 ⟨(), h.short, hresolve⟩, hresolve⟩

/-- A file that is written is found under its path. -/
theorem find_write {d' : Directory} {bytes : List UInt8} (hd : d.IsProper)
    (h : d.write path bytes = .ok d') : d'.working = d.working ∧ ∃ place,
      d'.find path = .ok (place, .file bytes) ∧ d'.resolve path = .ok (place, .file bytes) := by
  obtain ⟨place, htarget, h⟩ := bind_eq_ok.1 h
  cases h
  have hleads := leadsTo_of_target htarget
  exact ⟨rfl, place, hleads.find_put hd (by simp)⟩

end Directory

end SemanticHypergraph
