import SemanticHypergraph.CommandLine.Execution
import SemanticHypergraph.Proofs.CommandLine.Directory
import SemanticHypergraph.Proofs.Store.Basic
import SemanticHypergraph.Proofs.Store.Closure
import SemanticHypergraph.Proofs.Store.Reachable
import SemanticHypergraph.Proofs.Store.Run

/-!
# Sessions

What opening and saving do to the directory and to an ordered store. A store that is opened has no
stored edge without its children, whatever file it is read from.
-/
namespace SemanticHypergraph

open SemanticHypergraph.Hypergraph

variable {α β : Type}

theorem Update.bind_eq_ok {σ : Type} {u : Update σ α} {f : α → Update σ β} {s : σ} {b : β} :
    ((u >>= f) s).1 = .ok b ↔ ∃ a, (u s).1 = .ok a ∧ (f a (u s).2).1 = .ok b := by
  rw [Update.bind_apply]
  cases (u s).1 <;> simp

theorem Update.result_return {σ : Type} {u : Update σ α} {s : σ} {a : α} (f : α → β)
    (h : (u s).1 = .ok a) : ((do return f (← u) : Update σ β) s).1 = .ok (f a) :=
  Update.bind_eq_ok.2 ⟨a, h, rfl⟩

theorem Update.return_eq_ok {σ : Type} {u : Update σ α} {f : α → β} {s t : σ} {b : β}
    (h : (do return f (← u) : Update σ β) s = (.ok b, t)) : ∃ a, u s = (.ok a, t) ∧ f a = b := by
  have hresult : ((do return f (← u) : Update σ β) s).1 = .ok b := by rw [h]
  obtain ⟨a, ha, hb⟩ := Update.bind_eq_ok.1 hresult
  have hstate : (u s).2 = t := by rw [← Update.state_map u f, h]
  exact ⟨a, Prod.ext ha hstate, Except.ok.inj hb⟩

theorem toOption_eq_some {ε : Type} {x : Except ε α} {a : α} :
    x.toOption = some a ↔ x = .ok a := by
  cases x <;> simp [Except.toOption]

theorem map_toOption_of_ok {ε : Type} {x : Except ε α} {a : α} (h : x = .ok a) (f : α → β) :
    x.toOption.map f = some (f a) := by
  rw [toOption_eq_some.2 h, Option.map_some]

namespace Directory

theorem isProper_write {d d' : Directory} {path : String} {bytes : List UInt8} (hd : d.IsProper)
    (h : d.write path bytes = .ok d') : d'.IsProper := by
  obtain ⟨place, _, h⟩ := bind_eq_ok.1 h
  cases h
  exact hd

theorem isProper_remove {d d' : Directory} {path : String} (hd : d.IsProper)
    (h : d.remove path = .ok d') : d'.IsProper := by
  obtain ⟨found, _, h⟩ := bind_eq_ok.1 h
  split at h
  · cases h
  · cases h
    exact hd

end Directory

theorem mapError_eq_ok {ε ε' : Type} {f : ε → ε'} {x : Except ε α} {a : α} :
    x.mapError f = .ok a ↔ x = .ok a := by
  cases x <;> simp [Except.mapError]

namespace CommandLine

open Directory (IsProper)

theorem withEntity_of_ok {σ : Type} {text : String} {e : Entity} (h : Entity.parse text = .ok e)
    (work : Entity → Update σ α) : withEntity text work = work e := by
  rw [withEntity, h]

/-- Work on an entity ends well only where the text names one. -/
theorem exists_of_withEntity {σ : Type} {text : String} {work : Entity → Update σ α} {s : σ} {a : α}
    (h : (withEntity text work s).1 = .ok a) :
    ∃ e, Entity.parse text = .ok e ∧ (work e s).1 = .ok a := by
  cases he : Entity.parse text with
  | ok e =>
    rw [withEntity_of_ok he] at h
    exact ⟨e, rfl, h⟩
  | error e =>
    rw [withEntity, he] at h
    cases h

/-- A text that names no entity changes nothing. -/
theorem withEntity_state {σ : Type} {text : String} {work : Entity → Update σ α} {s : σ}
    (h : ∀ e, Entity.parse text = .ok e → (work e s).2 = s) : (withEntity text work s).2 = s := by
  cases he : Entity.parse text with
  | ok e =>
    rw [withEntity_of_ok he]
    exact h e he
  | error e =>
    rw [withEntity, he]
    rfl

/-! ## The working directory -/

section Proper

variable (settings : StoreSettings)

theorem isProper_loadSnapshot (path : String) (s : Store) :
    Update.Keeps IsProper (loadSnapshot path s) := by
  refine (Update.Keeps.ask _).bind fun found => ?_
  cases found with
  | false => exact .pure s
  | true =>
    refine (Update.Keeps.ask _).bind fun bytes => ?_
    split
    · exact .pure _
    · exact .throw _

theorem isProper_keep (path : String) (s : Store) : Update.Keeps IsProper (keep path s) := by
  cases s with
  | ordered s => exact .pure ()
  | numbered s => exact (Update.Keeps.ask _).bind fun place => fun d hd => hd

theorem isProper_openStore : Update.Keeps IsProper (openStore settings) := by
  refine (Update.Keeps.ask _).bind fun s => ?_
  split
  · exact .pure _
  · exact isProper_loadSnapshot _ _
  · refine (Update.Keeps.ask _).bind fun place => ?_
    exact (Update.Keeps.ask _).bind fun opened => fun d hd => hd

theorem isProper_saveStore (s : Store) : Update.Keeps IsProper (saveStore settings s) := by
  unfold saveStore
  split
  · refine (Update.Keeps.ask _).bind fun bytes => .ask_bind fun d d' hd h => ?_
    exact Directory.isProper_write hd (mapError_eq_ok.1 h)
  · exact .pure ()

theorem isProper_onStore (hasChanged : α → Bool) (work : Update Store α) :
    Update.Keeps IsProper (onStore settings hasChanged work) := by
  refine (isProper_openStore settings).bind fun s => ?_
  dsimp only
  split
  rename_i result t _
  have hsave : ∀ a, Update.Keeps IsProper (do
      if hasChanged a then saveStore settings t
      return a : Update Directory α) := by
    intro a
    split
    · exact (isProper_saveStore settings t).bind fun _ => .pure a
    · exact .pure a
  cases result with
  | error e =>
    split
    · exact (isProper_keep _ t).bind fun _ => .throw e
    · exact .throw e
  | ok a =>
    split
    · exact (isProper_keep _ t).bind fun _ => hsave a
    · exact hsave a

theorem isProper_withEntity {text : String} {work : Entity → Update Directory α}
    (h : ∀ e, Update.Keeps IsProper (work e)) : Update.Keeps IsProper (withEntity text work) := by
  unfold withEntity
  split
  · exact h _
  · exact .throw _

theorem isProper_clear (path : String) (force : Bool) :
    Update.Keeps IsProper (clear path force) := by
  refine (Update.Keeps.ask _).bind fun found => ?_
  cases found with
  | false => exact .pure ()
  | true =>
    cases force with
    | false => exact .throw _
    | true => exact .ask_bind fun d d' hd h => Directory.isProper_remove hd (mapError_eq_ok.1 h)

theorem isProper_perform (c : Command) : Update.Keeps IsProper (c.perform settings) := by
  have hstore : ∀ {α β : Type} {hasChanged : α → Bool} {work : Update Store α} {f : α → β},
      Update.Keeps IsProper (do return f (← onStore settings hasChanged work)) := by
    intro α β hasChanged work f
    exact (isProper_onStore settings hasChanged work).bind fun a => .pure _
  cases c with
  | server host port => exact .throw _
  | status => exact isProper_onStore settings _ _
  | create force =>
    change Update.Keeps IsProper (CommandLine.create settings force)
    unfold CommandLine.create
    split
    · exact .throw _
    · refine (isProper_clear _ force).bind fun _ => ?_
      exact (isProper_onStore settings _ _).bind fun _ => .pure _
  | add text isPrimary => exact isProper_withEntity fun e => hstore
  | remove text removal => exact isProper_withEntity fun e => hstore
  | lookUp text => exact isProper_withEntity fun e => hstore
  | find pattern limit => exact hstore
  | star text limit => exact isProper_withEntity fun e => hstore
  | ego text => exact isProper_withEntity fun e => hstore
  | degree text isDeep => exact isProper_withEntity fun e => hstore
  | removeMatching pattern => exact hstore
  | onAttribute command => exact hstore
  | exportTo path =>
    refine (Update.Keeps.ask _).bind fun place => ?_
    refine (isProper_onStore settings _ _).bind fun snapshot => .ask_bind fun d d' hd h => ?_
    exact Directory.isProper_write hd (mapError_eq_ok.1 h)
  | importFrom path => exact (Update.Keeps.ask _).bind fun bytes => hstore
  | hash => exact hstore

end Proper

/-! ## Opening -/

variable {settings : StoreSettings} {path : String} {d : Directory} {place : Directory.Place}
  {bytes : List UInt8} {s t : Store}

theorem loadSnapshot_eq (path : String) (s : Store) (d : Directory) :
    loadSnapshot path s d =
      (if d.holds path then do
          let bytes ← readSnapshotFile d path
          (importBytes bytes s).1.map fun _ => (importBytes bytes s).2
        else .ok s, d) := by
  unfold loadSnapshot
  rw [Update.bind_apply, Update.ask]
  cases d.holds path with
  | false => rfl
  | true =>
    simp only [if_true]
    rw [Update.bind_apply, Update.ask]
    cases readSnapshotFile d path with
    | error e => rfl
    | ok bytes =>
      change _ = ((importBytes bytes s).1.map fun _ => (importBytes bytes s).2, d)
      dsimp only
      cases himport : importBytes bytes s with
      | mk result filled => cases result <;> rfl

/-- What is not filled from a file is as it was, and what is comes from an import. -/
theorem loadSnapshot_eq_ok {d' : Directory} (h : loadSnapshot path s d = (.ok t, d')) :
    d' = d ∧ (t = s ∨ ∃ bytes, t = (importBytes bytes s).2) := by
  rw [loadSnapshot_eq] at h
  obtain ⟨hresult, hd⟩ := Prod.mk.inj h
  refine ⟨hd.symm, ?_⟩
  split at hresult
  · obtain ⟨bytes, _, hfilled⟩ := bind_eq_ok.1 hresult
    right
    refine ⟨bytes, ?_⟩
    cases himport : (importBytes bytes s).1 with
    | error e =>
      rw [himport] at hfilled
      cases hfilled
    | ok n =>
      rw [himport] at hfilled
      exact (Except.ok.inj hfilled).symm
  · exact .inl (Except.ok.inj hresult).symm

section Memory

variable (hmemory : settings.backend = .memory) (hpath : settings.path = some path)
include hmemory hpath

theorem openStore_eq (d : Directory) :
    openStore settings d = match settings.validate with
      | .ok _ => loadSnapshot path
        (.empty .memory settings.resolvedName settings.primaryPolicy) d
      | .error e => (.error e, d) := by
  unfold openStore Store.create
  rw [Update.bind_apply, Update.ask, hmemory]
  cases settings.validate with
  | error e => rfl
  | ok _ =>
    rw [hpath]
    rfl

theorem openStore_state (d : Directory) : (openStore settings d).2 = d := by
  rw [openStore_eq hmemory hpath]
  split
  · rw [loadSnapshot_eq]
  · rfl

/-- An ordered store is opened without a trace in the directory, and no stored edge in it lacks a
child. -/
theorem openStore_eq_ok {d' : Directory} (h : openStore settings d = (.ok s, d')) :
    d' = d ∧ settings.validate = .ok () ∧ s.backend = .memory ∧ IsWhole s := by
  have hwhole := Store.isWhole_empty .memory settings.resolvedName settings.primaryPolicy
  rw [openStore_eq hmemory hpath] at h
  cases hvalid : settings.validate with
  | error e =>
    rw [hvalid] at h
    cases h
  | ok _ =>
    rw [hvalid] at h
    obtain ⟨hd, hfilled⟩ := loadSnapshot_eq_ok h
    refine ⟨hd, rfl, ?_⟩
    rcases hfilled with rfl | ⟨bytes, rfl⟩
    · exact ⟨rfl, hwhole⟩
    · have hbackend := Store.backend_of_byChanges (byChanges_importBytes bytes)
        (.empty .memory settings.resolvedName settings.primaryPolicy)
      exact ⟨hbackend, isWhole_importBytes bytes _ hwhole⟩

end Memory

/-- A file that is too long is not read. -/
theorem readSnapshotFile_eq_ok {read : List UInt8}
    (h : d.resolve path = .ok (place, .file bytes)) : readSnapshotFile d path = .ok read ↔
      read = bytes ∧ bytes.length ≤ Snapshot.maxFileSize := by
  constructor
  · intro hread
    obtain ⟨found, hfound, hread⟩ := bind_eq_ok.1 hread
    rw [mapError_eq_ok, h] at hfound
    cases hfound
    obtain ⟨all, hall, hread⟩ := bind_eq_ok.1 hread
    cases mapError_eq_ok.1 hall
    by_cases hsize : Snapshot.maxFileSize < bytes.length
    · rw [if_pos hsize] at hread
      cases hread
    · rw [if_neg hsize] at hread
      exact ⟨(Except.ok.inj hread).symm, Nat.not_lt.1 hsize⟩
  · rintro ⟨rfl, hsize⟩
    refine bind_eq_ok.2 ⟨_, mapError_eq_ok.2 h, bind_eq_ok.2 ⟨read, mapError_eq_ok.2 rfl, ?_⟩⟩
    exact if_neg (Nat.not_lt.2 hsize)

/-! ## Saving -/

theorem saveStore_isOk (hpath : settings.path = some path) (ht : t.backend = .memory)
    (h : (saveStore settings t d).1.isOk) : ∃ bytes d', exportBytes t = .ok bytes ∧
      d.write path bytes = .ok d' ∧ saveStore settings t d = (.ok (), d') := by
  cases t with
  | numbered t => cases ht
  | ordered t =>
    unfold saveStore at h ⊢
    rw [hpath] at h ⊢
    dsimp only at h ⊢
    rw [Update.bind_apply, Update.ask] at h ⊢
    cases hbytes : exportBytes (Store.ordered t) with
    | error e =>
      rw [hbytes] at h
      cases h
    | ok bytes =>
      rw [hbytes] at h
      dsimp only at h ⊢
      rw [Update.bind_apply, Update.ask] at h ⊢
      cases hwrite : d.write path bytes with
      | error fault =>
        rw [hwrite] at h
        cases h
      | ok d' => exact ⟨bytes, d', rfl, hwrite, rfl⟩

theorem keep_of_memory (ht : t.backend = .memory) (path : String) : keep path t = pure () := by
  cases t with
  | ordered t => rfl
  | numbered t => cases ht

/-- Work that fails or changes nothing leaves no trace in the directory. -/
theorem onStore_of_unchanged (hmemory : settings.backend = .memory)
    (hpath : settings.path = some path) {work : Update Store α} {hasChanged : α → Bool}
    (hwork : ByChanges work)
    (h : ∀ s a, (openStore settings d).1 = .ok s → (work s).1 = .ok a → hasChanged a = false) :
    (onStore settings hasChanged work d).2 = d := by
  have hstate := openStore_state hmemory hpath d
  unfold onStore
  rw [Update.bind_apply]
  cases hopen : (openStore settings d).1 with
  | error e => exact hstate
  | ok s =>
    have hresult : openStore settings d = (.ok s, d) := Prod.ext hopen hstate
    obtain ⟨-, -, hs, -⟩ := openStore_eq_ok hmemory hpath hresult
    -- An ordered store is kept without a trace, so that only saving it could leave one.
    have ht : (work s).2.backend = .memory := (Store.backend_of_byChanges hwork s).trans hs
    rw [hstate, hpath]
    cases hdone : work s with
    | mk result t =>
      rw [hdone] at ht
      simp only [hdone, keep_of_memory ht]
      cases result with
      | error e => rfl
      | ok a =>
        have hsame : hasChanged a = false := h s a hopen (by rw [hdone])
        simp only [hsame]
        rfl

/-- Work that ends well on an ordered store is followed by saving it if something has changed. -/
theorem onStore_of_ok {work : Update Store α} {hasChanged : α → Bool} {a : α}
    (hpath : settings.path = some path) (hopen : openStore settings d = (.ok s, d))
    (hwork : work s = (.ok a, t)) (ht : t.backend = .memory) (ha : hasChanged a) :
    onStore settings hasChanged work d =
      (do saveStore settings t; return a : Update Directory α) d := by
  unfold onStore
  rw [Update.bind_apply, hopen]
  dsimp only
  rw [hwork, hpath]
  simp only [keep_of_memory ht, ha, if_true]
  rfl

theorem return_onStore {work : Update Store α} {hasChanged : α → Bool} {a : α} {f : α → β}
    (hpath : settings.path = some path) (hopen : openStore settings d = (.ok s, d))
    (hwork : work s = (.ok a, t)) (ht : t.backend = .memory) (ha : hasChanged a) :
    (do return f (← onStore settings hasChanged work) : Update Directory β) d =
      (do saveStore settings t; return f a : Update Directory β) d := by
  rw [Update.bind_apply, onStore_of_ok hpath hopen hwork ht ha, Update.bind_apply,
    Update.bind_apply]
  cases (saveStore settings t d).1 <;> rfl

theorem return_changing {work : Update Store α} {a : α} {f : α → β}
    (hpath : settings.path = some path) (hopen : openStore settings d = (.ok s, d))
    (hwork : work s = (.ok a, t)) (ht : t.backend = .memory) :
    (do return f (← changing settings work) : Update Directory β) d =
      (do saveStore settings t; return f a : Update Directory β) d :=
  return_onStore hpath hopen hwork ht rfl

end CommandLine

end SemanticHypergraph
