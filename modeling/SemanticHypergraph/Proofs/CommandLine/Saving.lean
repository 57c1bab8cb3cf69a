import SemanticHypergraph.Proofs.CommandLine.Session
import SemanticHypergraph.Proofs.Store.Reachable

/-!
# What a command saves

A command that may change a store carries out one operation on the store that it opens. If that ends
well and changed something, the command saves the store, and otherwise it leaves the directory as it
was.
-/
namespace SemanticHypergraph.CommandLine

open SemanticHypergraph.Hypergraph LawfulHypergraph

variable {settings : StoreSettings} {path : String} {d : Directory} {s t : Store}

namespace Command

/-- The operation by which a command changes the store, if it gets as far as that. -/
def operation? (d : Directory) : Command → Option Operation
  | add text isPrimary => (Entity.parse text).toOption.map (.addWith · isPrimary)
  | remove text removal => (Entity.parse text).toOption.map (.removeWith · removal)
  | removeMatching pattern => some (.removeText pattern)
  | onAttribute (.set text name value type) => do
    let e ← (Entity.parse text).toOption
    let v ← (Value.read value type).toOption
    return .change (.setAttribute e name v)
  | onAttribute (.step text name direction) =>
    (Entity.parse text).toOption.map fun e => .change (.stepAttribute e name direction)
  | importFrom path => (readSnapshotFile d path).toOption.map .importBytes
  | _ => none

/-- An attribute that found no entity changed nothing; after any other operation the store is
saved. -/
def savesAfter : Operation → Answer → Bool
  | .change _, .flag stored => stored
  | .change _, .value v => v.isSome
  | _, _ => true

/-- The store that a command saves, if it saves one. -/
def savedStore? (settings : StoreSettings) (d : Directory) (c : Command) : Option Store := do
  let op ← c.operation? d
  let s ← (openStore settings d).1.toOption
  let answer ← (op.perform s).1.toOption
  if savesAfter op answer then return (op.perform s).2 else none

/-- The directory after some commands, carried out in order. -/
def run (settings : StoreSettings) (cs : List Command) (d : Directory) : Directory :=
  cs.foldl (fun d c => (c.perform settings d).2) d

theorem isProper_run (settings : StoreSettings) (cs : List Command) {d : Directory}
    (hd : d.IsProper) : (run settings cs d).IsProper := by
  induction cs generalizing d with
  | nil => exact hd
  | cons c cs ih => exact ih (isProper_perform settings c d hd)

/-- What a command that saves a store did before. -/
structure Saves (settings : StoreSettings) (d : Directory) (c : Command) (s : Store)
    (op : Operation) (answer : Answer) (t : Store) : Prop where
  operation : c.operation? d = some op
  opened : (openStore settings d).1 = .ok s
  performed : op.perform s = (.ok answer, t)
  saves : savesAfter op answer

theorem savedStore?_eq_some {settings : StoreSettings} {d : Directory} {c : Command} {t : Store}
    (h : c.savedStore? settings d = some t) : ∃ s op answer, c.Saves settings d s op answer t := by
  obtain ⟨op, hop, h⟩ := Option.bind_eq_some_iff.1 h
  obtain ⟨s, hs, h⟩ := Option.bind_eq_some_iff.1 h
  obtain ⟨answer, hanswer, h⟩ := Option.bind_eq_some_iff.1 h
  by_cases hsaves : savesAfter op answer
  · rw [if_pos hsaves] at h
    cases h
    refine ⟨s, op, answer, hop, toOption_eq_some.1 hs, ?_, hsaves⟩
    exact Prod.ext (toOption_eq_some.1 hanswer) rfl
  · rw [if_neg hsaves] at h
    cases h

section Saves

variable {c : Command} {op : Operation} {answer : Answer}

theorem Saves.openStore_eq (h : c.Saves settings d s op answer t)
    (hmemory : settings.backend = .memory) (hpath : settings.path = some path) :
    openStore settings d = (.ok s, d) := by
  have hresult : openStore settings d = (.ok s, (openStore settings d).2) := Prod.ext h.opened rfl
  rwa [(openStore_eq_ok hmemory hpath hresult).1] at hresult

theorem Saves.memory_consistent (h : c.Saves settings d s op answer t)
    (hmemory : settings.backend = .memory) (hpath : settings.path = some path) :
    t.backend = .memory ∧ Consistent t := by
  obtain ⟨-, -, hs, hwhole⟩ := openStore_eq_ok hmemory hpath (h.openStore_eq hmemory hpath)
  have hstate : (op.perform s).2 = t := by rw [h.performed]
  rw [← hstate]
  exact ⟨(Store.backend_perform op s).trans hs, op.consistent_perform hwhole.1⟩

theorem attribute_work {command : AttributeCommand}
    (hop : (onAttribute command).operation? d = some op) (hperformed : op.perform s = (.ok answer, t))
    (hsaves : savesAfter op answer) :
    ∃ e v, command.perform s = (.ok (e, v), t) ∧ command.hasChanged (e, v) := by
  cases command with
  | get text name => cases hop
  | set text name value type =>
    obtain ⟨e, he, hop⟩ := Option.bind_eq_some_iff.1 hop
    obtain ⟨v, hv, hop⟩ := Option.bind_eq_some_iff.1 hop
    cases hop
    obtain ⟨stored, hset, rfl⟩ := Update.return_eq_ok hperformed
    have hstored : stored = true := hsaves
    subst hstored
    refine ⟨e, some v, ?_, rfl⟩
    rw [AttributeCommand.perform, withEntity_of_ok (toOption_eq_some.1 he), Update.bind_apply,
      Update.ask, toOption_eq_some.1 hv]
    dsimp only
    rw [Update.bind_apply, hset]
    rfl
  | step text name direction =>
    obtain ⟨e, he, rfl⟩ := Option.map_eq_some_iff.1 hop
    obtain ⟨v, hstep, rfl⟩ := Update.return_eq_ok hperformed
    refine ⟨e, v, ?_, hsaves⟩
    rw [AttributeCommand.perform, withEntity_of_ok (toOption_eq_some.1 he), Update.bind_apply,
      hstep]
    rfl

/-- An import with the counts that the report shows. -/
def importing (bytes : List UInt8) : Update Store (Nat × Counts) := do
  let restored ← importBytes bytes
  return (restored, ← Update.ask counts)

theorem importing_eq {bytes : List UInt8} {n : Nat} (ht : Consistent t)
    (himport : importBytes bytes s = (.ok n, t)) :
    importing bytes s = (.ok (n, (content t).counts (order t)), t) := by
  rw [importing, Update.bind_apply, himport]
  dsimp only
  rw [Update.bind_apply, Update.ask, counts_eq ht]
  rfl

theorem importFrom_eq {source : String} {bytes : List UInt8}
    (h : readSnapshotFile d source = .ok bytes) : (importFrom source).perform settings d = (do
      return (fun p : Nat × Counts => importedReport p.1 p.2)
        (← changing settings (importing bytes)) : Update Directory Report) d := by
  rw [perform, CommandLine.importFrom, Update.bind_apply, Update.ask, h]
  rfl

/-- A command that saves a store reports after that, and does nothing else. -/
theorem Saves.perform_eq (h : c.Saves settings d s op answer t)
    (hmemory : settings.backend = .memory) (hpath : settings.path = some path) :
    ∃ report, c.perform settings d =
      (do saveStore settings t; return report : Update Directory Report) d := by
  have hopen := h.openStore_eq hmemory hpath
  obtain ⟨hbackend, htc⟩ := h.memory_consistent hmemory hpath
  obtain ⟨hop, -, hperformed, hsaves⟩ := h
  -- Each command carries out its operation on the opened store, and only the reports differ.
  cases c with
  | add text isPrimary =>
    obtain ⟨e, he, rfl⟩ := Option.map_eq_some_iff.1 hop
    obtain ⟨a, hwork, rfl⟩ := Update.return_eq_ok hperformed
    refine ⟨addedReport a isPrimary, ?_⟩
    rw [perform, withEntity_of_ok (toOption_eq_some.1 he)]
    exact return_changing hpath hopen hwork hbackend
  | remove text removal =>
    obtain ⟨e, he, rfl⟩ := Option.map_eq_some_iff.1 hop
    obtain ⟨a, hwork, rfl⟩ := Update.return_eq_ok hperformed
    refine ⟨removedReport e a, ?_⟩
    rw [perform, withEntity_of_ok (toOption_eq_some.1 he)]
    exact return_changing hpath hopen hwork hbackend
  | removeMatching pattern =>
    cases hop
    obtain ⟨a, hwork, rfl⟩ := Update.return_eq_ok hperformed
    exact ⟨removedMatchingReport pattern a, return_changing hpath hopen hwork hbackend⟩
  | onAttribute command =>
    obtain ⟨e, v, hwork, hchanged⟩ := attribute_work hop hperformed hsaves
    exact ⟨attributeReport e command.name v, return_onStore hpath hopen hwork hbackend hchanged⟩
  | importFrom source =>
    obtain ⟨bytes, hbytes, rfl⟩ := Option.map_eq_some_iff.1 hop
    obtain ⟨n, himport, rfl⟩ := Update.return_eq_ok hperformed
    have hsave := return_changing (f := fun p : Nat × Counts => importedReport p.1 p.2) hpath hopen
      (importing_eq htc himport) hbackend
    exact ⟨_, (importFrom_eq (toOption_eq_some.1 hbytes)).trans hsave⟩
  | server | status | create | lookUp | find | star | ego | degree | exportTo | hash => cases hop

end Saves

/-! ## What a command that saves nothing does -/

/-- The commands that may change a store. -/
def changesStore : Command → Bool
  | add _ _ => true
  | remove _ _ => true
  | removeMatching _ => true
  | onAttribute _ => true
  | importFrom _ => true
  | _ => false

theorem savesAfter_of_savedStore?_eq_none {c : Command} {op : Operation} {answer : Answer}
    (h : c.savedStore? settings d = none) (hop : c.operation? d = some op)
    (hopen : (openStore settings d).1 = .ok s) (hanswer : (op.perform s).1 = .ok answer) :
    savesAfter op answer = false := by
  rw [Bool.eq_false_iff]
  intro hsaves
  have hsome : c.savedStore? settings d = some (op.perform s).2 := by
    rw [savedStore?, hop, Option.bind_eq_bind, Option.bind_some, hopen]
    simp only [Except.toOption, Option.bind_eq_bind, Option.bind_some, hanswer, hsaves, if_true]
    rfl
  rw [h] at hsome
  cases hsome

/-- Work that does what the operation of the command does leaves no trace if nothing is saved. -/
theorem onStore_of_savedStore?_eq_none {α β : Type} {c : Command} {op : Operation}
    {work : Update Store α} {hasChanged : α → Bool} {f : α → β} (g : α → Answer)
    (hmemory : settings.backend = .memory) (hpath : settings.path = some path)
    (h : c.savedStore? settings d = none) (hop : c.operation? d = some op)
    (hwork : ByChanges work)
    (hperform : ∀ s a, (work s).1 = .ok a → (op.perform s).1 = .ok (g a))
    (hchanged : ∀ a, hasChanged a = savesAfter op (g a)) :
    ((do return f (← onStore settings hasChanged work) : Update Directory β) d).2 = d := by
  rw [Update.state_map]
  apply onStore_of_unchanged hmemory hpath hwork
  intro s a hopen ha
  rw [hchanged]
  exact savesAfter_of_savedStore?_eq_none h hop hopen (hperform s a ha)

theorem byChanges_withEntity {α : Type} {text : String} {work : Entity → Update Store α}
    (h : ∀ e, ByChanges (work e)) : ByChanges (withEntity text work) := by
  unfold withEntity
  split
  · exact h _
  · exact .throw _

theorem byChanges_attribute (command : AttributeCommand) : ByChanges command.perform := by
  cases command with
  | get text name => exact byChanges_withEntity fun e => (ByChanges.ask _).bind fun v => .pure _
  | set text name value type =>
    refine byChanges_withEntity fun e => (ByChanges.ask _).bind fun v => ?_
    exact (byChanges_setAttribute e name v).bind fun stored => .pure _
  | step text name direction =>
    have hstep : ∀ e, ByChanges (stepAttribute e name direction : Update Store (Option Value)) :=
      fun e => .of_change (.stepAttribute e name direction) nofun
        (Change.state_stepAttribute e name direction)
    exact byChanges_withEntity fun e => (hstep e).bind fun v => .pure _

theorem byChanges_importing (bytes : List UInt8) : ByChanges (importing bytes) :=
  (byChanges_importBytes bytes).bind fun _ => (ByChanges.ask _).bind fun _ => .pure _

/-- What the import of a command answers, the operation answers without the counts. -/
theorem result_importing {bytes : List UInt8} {a : Nat × Counts}
    (h : (importing bytes s).1 = .ok a) :
    ((Operation.importBytes bytes).perform s).1 = .ok (.number a.1) := by
  obtain ⟨n, himport, h⟩ := Update.bind_eq_ok.1 h
  obtain ⟨c, -, h⟩ := Update.bind_eq_ok.1 h
  cases h
  exact Update.result_return Answer.number himport

theorem attribute_unchanged {command : AttributeCommand} {a : Entity × Option Value}
    (h : (onAttribute command).savedStore? settings d = none)
    (hopen : (openStore settings d).1 = .ok s) (ha : (command.perform s).1 = .ok a) :
    command.hasChanged a = false := by
  cases command with
  | get text name => rfl
  | set text name value type =>
    obtain ⟨e, he, ha⟩ := exists_of_withEntity ha
    obtain ⟨v, hv, ha⟩ := Update.bind_eq_ok.1 ha
    obtain ⟨stored, hset, ha⟩ := Update.bind_eq_ok.1 ha
    have hv : Value.read value type = .ok v := hv
    have hop : (onAttribute (.set text name value type)).operation? d =
        some (.change (.setAttribute e name v)) := by
      rw [operation?, he, hv]
      rfl
    have hstored : stored = false := savesAfter_of_savedStore?_eq_none h hop hopen
      (Update.result_return Answer.flag hset)
    cases ha
    rw [hstored]
    rfl
  | step text name direction =>
    obtain ⟨e, he, ha⟩ := exists_of_withEntity ha
    obtain ⟨v, hstep, ha⟩ := Update.bind_eq_ok.1 ha
    have hop : (onAttribute (.step text name direction)).operation? d =
        some (.change (.stepAttribute e name direction)) := map_toOption_of_ok he _
    have hsame : v.isSome = false := savesAfter_of_savedStore?_eq_none h hop hopen
      (Update.result_return Answer.value hstep)
    cases ha
    exact hsame

/-- A command that saves no store leaves the directory as it was. -/
theorem perform_of_savedStore?_eq_none (hmemory : settings.backend = .memory)
    (hpath : settings.path = some path) {c : Command} (hc : c.changesStore)
    (h : c.savedStore? settings d = none) : (c.perform settings d).2 = d := by
  cases c with
  | add text isPrimary =>
    refine withEntity_state fun e he => ?_
    exact onStore_of_savedStore?_eq_none Answer.entity hmemory hpath h (map_toOption_of_ok he _)
      (byChanges_addWith e isPrimary) (fun s a => Update.result_return Answer.entity) fun a => rfl
  | remove text removal =>
    refine withEntity_state fun e he => ?_
    exact onStore_of_savedStore?_eq_none Answer.flag hmemory hpath h (map_toOption_of_ok he _)
      (byChanges_removeWith e removal) (fun s a => Update.result_return Answer.flag) fun a => rfl
  | removeMatching pattern =>
    exact onStore_of_savedStore?_eq_none Answer.number hmemory hpath h rfl
      (byChanges_removeText pattern) (fun s a => Update.result_return Answer.number) fun a => rfl
  | onAttribute command =>
    change ((do
      return (fun p : Entity × Option Value => attributeReport p.1 command.name p.2)
        (← onStore settings command.hasChanged command.perform) : Update Directory Report) d).2 = d
    -- No operation stands for an attribute that is only read, so the general lemma does not apply.
    rw [Update.state_map]
    apply onStore_of_unchanged hmemory hpath (byChanges_attribute command)
    exact fun s a hopen ha => attribute_unchanged h hopen ha
  | importFrom source =>
    cases hread : readSnapshotFile d source with
    | error e => rw [perform, CommandLine.importFrom, Update.bind_apply, Update.ask, hread]
    | ok bytes =>
      rw [importFrom_eq hread]
      exact onStore_of_savedStore?_eq_none (fun p => .number p.1) hmemory hpath h
        (map_toOption_of_ok hread _) (byChanges_importing bytes) (fun s a => result_importing)
        fun a => rfl
  | server | status | create | lookUp | find | star | ego | degree | exportTo | hash => cases hc

end Command

end SemanticHypergraph.CommandLine
