import SemanticHypergraph.Http.Answer
import SemanticHypergraph.Proofs.Entity.RoundTrip
import SemanticHypergraph.Proofs.Store.Failures

/-!
# Which calls are refused

A call is refused for its text, for a token in what is to be added, for a name that is left out, or
for a step from a text. Each of these is found before anything is changed, and each is the mistake of
the client. Everything else is done, whatever of it is absent.
-/
namespace SemanticHypergraph

open SemanticHypergraph.Hypergraph LawfulHypergraph

/-- A blank text has no entity in it. -/
theorem Entity.parse_of_allBlank {text : String} (h : Text.allBlank text.toList = true) :
    ∃ error, Entity.parse text = .error error := by
  have hblank : IsBlanks text.toList := by simpa [Text.allBlank, IsBlanks] using h
  have hnone : lexemes text.toList = [] := by
    simpa using lexemes_blanks_append hblank []
  cases hparse : Entity.parse text with
  | error error => exact ⟨error, rfl⟩
  | ok e =>
    obtain ⟨-, -, hdenotes⟩ := Entity.parse_eq_ok_iff.1 hparse
    rw [denotes_iff, hnone] at hdenotes
    cases hdenotes

/-- A pattern is read as an entity is. -/
theorem Pattern.parse_eq_error_iff {text : String} {error : Error} :
    Pattern.parse text = .error error ↔ Entity.parse text = .error error := by
  rw [Pattern.parse]
  cases Entity.parse text <;> simp [Except.map]

/-- What comes after an update and cannot fail changes nothing about its failures. -/
theorem FailsAs.bind {σ α β : Type} {u : Update σ α} {f : α → Update σ β} {s : σ}
    {R : Error → Prop} (h : FailsAs u s R)
    (hf : ∀ a, (u s).1 = .ok a → ∃ b t, f a (u s).2 = (.ok b, t)) : FailsAs (u >>= f) s R := by
  have herror : ∀ e, ((u >>= f) s).1 = .error e ↔ (u s).1 = .error e := by
    intro e
    rw [Update.bind_apply]
    cases hu : (u s).1 with
    | error e' => simp
    | ok a =>
      obtain ⟨b, t, hb⟩ := hf a hu
      simp [hb]
  refine ⟨fun e => (herror e).trans (h.error_iff e), fun e hfailed => ?_⟩
  have hu := (herror e).1 hfailed
  rw [Update.bind_apply, hu]
  exact h.unchanged e hu

namespace Http

/-- The text of an entity or of a pattern that no entity is read from. -/
def Unreadable (text : String) : Prop :=
  Text.allBlank text.toList = true ∨ ∃ error, Entity.parse text = .error error

/-- The text in which the call says what it is about. -/
def Call.text? : Call → Option String
  | add text _ => some text
  | remove text _ => some text
  | lookUp text => some text
  | find pattern _ => some pattern
  | star text _ => some text
  | ego text => some text
  | degree text _ => some text
  | removeMatching pattern => some pattern
  | .attribute text _ _ => some text
  | exportAll => none

/-- What is wrong with a call that is refused. -/
inductive Call.Refused {σ : Type} [Hypergraph σ] (s : σ) : Call → Prop
  | unreadable {call : Call} {text : String} (htext : call.text? = some text)
      (h : Unreadable text) : Refused s call
  | token {text : String} {e : Entity} {a : Atom} (isPrimary : Bool)
      (he : Entity.parse text = .ok e) (ha : a.isPatternToken)
      (h : e = .atom a ∨ Entity.Inside (.atom a) e) : Refused s (.add text isPrimary)
  | unnamed (text : String) (action : AttributeAction) : Refused s (.attribute text "" action)
  | step {text name value : String} {e : Entity} (step : Step) (he : Entity.parse text = .ok e)
      (h : attributeOf s e name = .ok (some (.text value))) :
      Refused s (.attribute text name (.step step))

theorem unreadable_iff {text : String} :
    Unreadable text ↔ ∃ error, Entity.parse text = .error error :=
  ⟨fun h => h.elim Entity.parse_of_allBlank id, .inr⟩

theorem not_unreadable {text : String} {e : Entity} (h : Entity.parse text = .ok e) :
    ¬ Unreadable text := by
  rw [unreadable_iff, h]
  exact nofun

theorem readEntity_eq_ok {text : String} {e : Entity} (h : Entity.parse text = .ok e) :
    readEntity text = .ok e := by
  rw [readEntity, if_neg fun hblank => not_unreadable h (.inl hblank), h]

theorem readEntity_eq_error {text : String} (h : Unreadable text) :
    ∃ error, readEntity text = .error error := by
  obtain ⟨error, herror⟩ := unreadable_iff.1 h
  unfold readEntity
  split
  · exact ⟨_, rfl⟩
  · exact ⟨error, herror⟩

/-! ## Work that is done or refused -/

variable {σ α β : Type} {s : σ} {R : Prop}

/-- In the store the work is done, unless `R` holds; then it is refused as a mistake of the client and
leaves the store as it was. -/
structure RefusedIf (w : Work σ α) (s : σ) (R : Prop) : Prop where
  refused : R → ∃ failure : Failure, w s = (.error failure, s) ∧ failure.status = 400
  done : ¬ R → ∃ a t, w s = (.ok a, t)

theorem RefusedIf.congr {w : Work σ α} {R' : Prop} (h : RefusedIf w s R) (hR : R ↔ R') :
    RefusedIf w s R' := propext hR ▸ h

theorem Work.map_apply (w : Work σ α) (f : α → β) (s : σ) :
    (do return f (← w) : Work σ β) s = ((w s).1.map f, (w s).2) := by
  change ExceptT.bindCont (fun a => (Pure.pure (f a) : Work σ β)) (w s).1 (w s).2 = _
  cases (w s).1 <;> rfl

theorem RefusedIf.map {w : Work σ α} (h : RefusedIf w s R) (f : α → β) :
    RefusedIf (do return f (← w) : Work σ β) s R where
  refused hR := by
    obtain ⟨failure, hw, hstatus⟩ := h.refused hR
    exact ⟨failure, by rw [Work.map_apply, hw]; rfl, hstatus⟩
  done hR := by
    obtain ⟨a, t, hw⟩ := h.done hR
    exact ⟨f a, t, by rw [Work.map_apply, hw]; rfl⟩

theorem refusedIf_throw {failure : Failure} (h : failure.status = 400) :
    RefusedIf (throw failure : Work σ α) s True where
  refused _ := ⟨failure, rfl, h⟩
  done hfalse := absurd trivial hfalse

/-- What the store refuses is the mistake of the client if it has one of these errors. -/
theorem refusedIf_during {u : Update σ α} {Q : Error → Prop} (h : FailsAs u s Q)
    (hQ : ∀ e, Q e → statusOf e = 400) (task : String) :
    RefusedIf (Work.during task u) s (∃ e, Q e) where
  refused := by
    rintro ⟨e, he⟩
    have herror := (h.error_iff e).2 he
    refine ⟨.refused task e, Prod.ext ?_ (h.unchanged e herror), hQ e he⟩
    exact congrArg (Except.mapError (Failure.refused task)) herror
  done hnone := by
    cases hu : (u s).1 with
    | error e => exact absurd ⟨e, (h.error_iff e).1 hu⟩ hnone
    | ok a =>
      refine ⟨a, (u s).2, Prod.ext ?_ rfl⟩
      exact congrArg (Except.mapError (Failure.refused task)) hu

theorem refusedIf_of_succeeds [StoreView σ] {u : Update σ α} (h : Succeeds u)
    (hs : Consistent s) (task : String) : RefusedIf (Work.during task u) s False := by
  have hnone : FailsAs u s fun _ => False := h.failsAs hs fun _ => id
  exact (refusedIf_during hnone nofun task).congr (by simp)

/-- The text is read before all else. -/
theorem refusedIf_withEntity {text : String} {work : Entity → Work σ α} {Q : Entity → Prop}
    (h : ∀ e, RefusedIf (work e) s (Q e)) :
    RefusedIf (Work.withEntity text work) s
      (Unreadable text ∨ ∃ e, Entity.parse text = .ok e ∧ Q e) := by
  cases hparse : Entity.parse text with
  | ok e =>
    have hread : Work.withEntity text work = work e := by
      rw [Work.withEntity, readEntity_eq_ok hparse]
    rw [hread]
    exact (h e).congr (by simp [not_unreadable hparse])
  | error error =>
    have hbad : Unreadable text := .inr ⟨error, hparse⟩
    obtain ⟨error', hread⟩ := readEntity_eq_error hbad
    have hthrow : Work.withEntity text work = throw (.invalidEntity error') := by
      rw [Work.withEntity, hread]
    rw [hthrow]
    exact (refusedIf_throw rfl).congr (by simp [hbad])

/-! ## The calls -/

section Calls

variable [Hypergraph σ] [LawfulHypergraph σ]

/-- A call that only takes an entity and does what the store never fails at. -/
theorem refusedIf_unreadable (hs : Consistent s) {u : Entity → Update σ α}
    (hu : ∀ e, Succeeds (u e)) (text task : String) (reply : Entity → α → Reply) :
    RefusedIf (Work.withEntity text fun e => do return reply e (← Work.during task (u e))) s
      (Unreadable text) :=
  (refusedIf_withEntity fun e => (refusedIf_of_succeeds (hu e) hs task).map (reply e)).congr
    (by simp)

theorem succeeds_presence (e : Entity) :
    Succeeds (Update.ask (presence · e) : Update σ (Bool × Bool)) := by
  refine .ask fun s hs => ?_
  simp only [presence, contains_eq hs, isPrimary_eq hs]
  cases (content s).isStored e <;> exact ⟨_, rfl⟩

theorem succeeds_star (e : Entity) (limit : Nat) :
    Succeeds (Update.ask (Hypergraph.star · e (some limit)) : Update σ (List Entity)) :=
  .ask fun _ hs => ⟨_, star_some_eq hs e limit⟩

theorem succeeds_ego (e : Entity) :
    Succeeds (Update.ask (Hypergraph.ego · e) : Update σ (List Atom)) :=
  .ask fun s hs => ⟨_, by rw [Hypergraph.ego, star_eq hs]; rfl⟩

theorem succeeds_degreeOf (e : Entity) (isDeep : Bool) :
    Succeeds (Update.ask (degreeOf · e isDeep) : Update σ Nat) := by
  refine .ask fun s hs => ?_
  cases isDeep with
  | false => exact ⟨_, degree_eq hs e⟩
  | true =>
    obtain ⟨es, -, -, hdeep⟩ := deepDegree_eq hs e
    exact ⟨_, hdeep⟩

theorem succeeds_attributeOf (e : Entity) (name : String) :
    Succeeds (Update.ask (attributeOf · e name) : Update σ (Option Value)) :=
  .ask fun _ hs => ⟨_, attributeOf_eq hs e name⟩

theorem succeeds_writeAttribute (e : Entity) (name : String) (value : Value) :
    Succeeds (writeAttribute e name value : Update σ (Option Value)) := by
  refine (succeeds_setAttribute e name value).bind fun found => ?_
  cases found with
  | true => exact succeeds_attributeOf e name
  | false => exact .pure none

/-- Adding is followed by a question that is always answered. -/
theorem failsAs_addMarked (hs : Consistent s) (e : Entity) (isPrimary : Bool) :
    FailsAs (addMarked e isPrimary) s fun error => e.isPattern ∧ error = tokenError e := by
  have hconsistent : Consistent (addWith e isPrimary s).2 := by
    rw [← Update.state_map (addWith e isPrimary) Answer.entity]
    exact (Operation.addWith e isPrimary).consistent_perform hs
  exact (failsAs_addWith hs e isPrimary).bind fun added _ =>
    ⟨_, _, Prod.ext (isPrimary_eq hconsistent added) rfl⟩

theorem failsAs_matchText (hs : Consistent s) (text : String) :
    FailsAs (Update.ask (matchText · text)) s fun error => Entity.parse text = .error error where
  unchanged _ _ := rfl
  error_iff error := by
    change (Pattern.parse text).bind (matchPattern s) = .error error ↔ _
    rw [Pattern.parse]
    cases Entity.parse text with
    | error error' => simp [Except.map, Except.bind]
    | ok e =>
      obtain ⟨found, hfound, -⟩ := matchPattern_eq_filter hs (Pattern.ofEntity e)
      simp [Except.map, Except.bind, hfound]

theorem contains_of_attributeOf (hs : Consistent s) {e : Entity} {name : String} {value : Value}
    (h : attributeOf s e name = .ok (some value)) : contains s e = .ok true := by
  rw [attributeOf_eq hs] at h
  rw [contains_eq_true_iff hs]
  cases he : content s e with
  | some r => exact Content.isStored_of_eq_some he
  | none => simp [Content.attributesOf, he] at h

theorem failsAs_stepAttribute {s : Store} (hs : Consistent s) (e : Entity) (name : String)
    (step : Step) : FailsAs (stepAttribute e name step) s
      fun error => (∃ text, attributeOf s e name = .ok (some (.text text))) ∧
        error = .attributeType name "string" := by
  refine (Store.atomic_stepAttribute e name step).failsAs fun error => ?_
  rw [stepAttribute_eq_error hs]
  constructor
  · intro h
    cases h with
    | stepAttribute _ _ htext => exact ⟨⟨_, htext⟩, rfl⟩
  · rintro ⟨⟨text, htext⟩, rfl⟩
    exact .stepAttribute step (contains_of_attributeOf hs htext) htext

end Calls

variable {s : Store}

/-! ## What is wrong with a call -/

/-- The call takes a text and whatever else it takes cannot be wrong. -/
def Call.takesTextAlone : Call → Bool
  | add _ _ => false
  | .attribute _ _ _ => false
  | exportAll => false
  | _ => true

theorem refused_textAlone [Hypergraph σ] {s : σ} {call : Call} {text : String}
    (hcall : call.takesTextAlone = true) (htext : call.text? = some text) :
    call.Refused s ↔ Unreadable text := by
  constructor
  · intro h
    cases h with
    | unreadable htext' h => exact Option.some.inj (htext'.symm.trans htext) ▸ h
    | token => cases hcall
    | unnamed => cases hcall
    | step => cases hcall
  · exact .unreadable htext

theorem refused_add [Hypergraph σ] {s : σ} {text : String} {isPrimary : Bool} :
    (Call.add text isPrimary).Refused s ↔
      Unreadable text ∨ ∃ e, Entity.parse text = .ok e ∧ e.isPattern = true := by
  constructor
  · intro h
    cases h with
    | unreadable htext h => exact .inl (Option.some.inj htext ▸ h)
    | token _ he ha h => exact .inr ⟨_, he, Entity.isPattern_iff _ |>.2 ⟨_, ha, h⟩⟩
  · rintro (h | ⟨e, he, hpattern⟩)
    · exact .unreadable rfl h
    · obtain ⟨a, ha, h⟩ := (Entity.isPattern_iff e).1 hpattern
      exact .token isPrimary he ha h

/-- What is wrong with an action on an entity that can be read. -/
def Objects [Hypergraph σ] (s : σ) (e : Entity) (name : String) (action : AttributeAction) : Prop :=
  name = "" ∨ ∃ step text, action = .step step ∧ attributeOf s e name = .ok (some (.text text))

theorem refused_attribute [Hypergraph σ] {s : σ} {text name : String} {action : AttributeAction} :
    (Call.attribute text name action).Refused s ↔
      Unreadable text ∨ ∃ e, Entity.parse text = .ok e ∧ Objects s e name action := by
  constructor
  · intro h
    cases h with
    | unreadable htext h => exact .inl (Option.some.inj htext ▸ h)
    | unnamed =>
      cases hparse : Entity.parse text with
      | error error => exact .inl (.inr ⟨error, hparse⟩)
      | ok e => exact .inr ⟨e, rfl, .inl rfl⟩
    | step step he h => exact .inr ⟨_, he, .inr ⟨step, _, rfl, h⟩⟩
  · rintro (h | ⟨e, he, rfl | ⟨step, value, rfl, h⟩⟩)
    · exact .unreadable rfl h
    · exact .unnamed text action
    · exact .step step he h

theorem statusOf_eq_of_parse {text : String} {error : Error}
    (h : Entity.parse text = .error error) : statusOf error = 400 := by
  obtain ⟨reason, position, rfl⟩ := Pattern.parse_error (Pattern.parse_eq_error_iff.2 h)
  rfl

theorem refused_removeText [Hypergraph σ] {s : σ} {text : String} {error : Error} :
    (Operation.removeText text).Refused s error ↔ Entity.parse text = .error error := by
  rw [← Pattern.parse_eq_error_iff]
  constructor
  · intro h
    cases h with
    | removeText h => exact h
  · intro h
    obtain ⟨reason, position, rfl⟩ := Pattern.parse_error h
    exact .removeText h

theorem refusedIf_action (hs : Consistent s) (e : Entity) {name : String} (hname : name ≠ "")
    (action : AttributeAction) :
    RefusedIf (Work.during "Attribute failed" (action.perform e name)) s
      (Objects s e name action) := by
  cases action with
  | get =>
    exact (refusedIf_of_succeeds (succeeds_attributeOf e name) hs _).congr (by simp [Objects, hname])
  | set value =>
    exact (refusedIf_of_succeeds (succeeds_writeAttribute e name value) hs _).congr
      (by simp [Objects, hname])
  | step step =>
    have hstatus : ∀ error, (∃ text, attributeOf s e name = .ok (some (.text text))) ∧
        error = .attributeType name "string" → statusOf error = 400 := by
      rintro error ⟨-, rfl⟩
      rfl
    exact (refusedIf_during (failsAs_stepAttribute hs e name step) hstatus _).congr
      (by simp [Objects, hname])

/-- A name is asked for before the action. -/
theorem refusedIf_named {e : Entity} {name : String} {action : AttributeAction} {w : Work Store Reply}
    (h : name ≠ "" → RefusedIf w s (Objects s e name action)) :
    RefusedIf (do
      if name.isEmpty then throw .unnamedAttribute
      w) s (Objects s e name action) := by
  by_cases hname : name = ""
  · subst hname
    exact (refusedIf_throw rfl).congr (by simp [Objects])
  · have hnonempty : name.isEmpty = false := by simpa using hname
    rw [hnonempty]
    exact h hname

/-- A call on a consistent store is refused for what is wrong with it, and done if nothing is. -/
theorem refusedIf_perform (hs : Consistent s) (call : Call) :
    RefusedIf call.perform s (call.Refused s) := by
  cases call with
  | add text isPrimary =>
    refine (refusedIf_withEntity fun e => ?_).congr refused_add.symm
    have hstatus : ∀ error, e.isPattern = true ∧ error = tokenError e → statusOf error = 400 := by
      rintro error ⟨-, rfl⟩
      rfl
    have hadd := refusedIf_during (failsAs_addMarked hs e isPrimary) hstatus "Add failed"
    exact (hadd.map _).congr (by simp)
  | remove text removal =>
    have hwork := refusedIf_unreadable hs (succeeds_removeWith · removal) text "Remove failed"
      fun e existed => .entity e.toText existed false
    exact hwork.congr (refused_textAlone rfl rfl).symm
  | lookUp text =>
    have hwork := refusedIf_unreadable hs succeeds_presence text "Lookup failed"
      fun e found => .entity e.toText found.1 found.2
    exact hwork.congr (refused_textAlone rfl rfl).symm
  | find pattern limit =>
    have hfind := refusedIf_during (failsAs_matchText hs pattern)
      (fun _ => statusOf_eq_of_parse) "Match failed"
    refine (hfind.map _).congr ?_
    rw [refused_textAlone rfl rfl, unreadable_iff]
  | star text limit =>
    have hwork := refusedIf_unreadable hs (succeeds_star · (effectiveLimit limit)) text
      "Star failed" fun _ found => .entities (found.map Entity.toText)
    exact hwork.congr (refused_textAlone rfl rfl).symm
  | ego text =>
    have hwork := refusedIf_unreadable hs succeeds_ego text "Ego failed"
      fun _ found => .entities (found.map Atom.toText)
    exact hwork.congr (refused_textAlone rfl rfl).symm
  | degree text isDeep =>
    have hwork := refusedIf_unreadable hs (succeeds_degreeOf · isDeep) text "Degree failed"
      fun _ degree => .degree degree isDeep
    exact hwork.congr (refused_textAlone rfl rfl).symm
  | removeMatching pattern =>
    have hfails := (failsAs_removeText hs pattern).congr fun _ => refused_removeText
    have hremove := refusedIf_during hfails (fun _ => statusOf_eq_of_parse) "Pattern removal failed"
    refine (hremove.map _).congr ?_
    rw [refused_textAlone rfl rfl, unreadable_iff]
  | «attribute» text name action =>
    refine (refusedIf_withEntity fun e => ?_).congr refused_attribute.symm
    exact refusedIf_named (fun hname => (refusedIf_action hs e hname action).map _)
  | exportAll =>
    have hcapture : Succeeds (Update.ask Snapshot.capture : Update Store Snapshot) :=
      .ask fun _ hs => ⟨_, Snapshot.capture_eq hs⟩
    refine ((refusedIf_of_succeeds hcapture hs "Failed to capture snapshot").map _).congr ?_
    rw [false_iff]
    rintro ⟨htext, -⟩
    cases htext

end Http

end SemanticHypergraph
