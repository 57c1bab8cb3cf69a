import SemanticHypergraph.Proofs.Store.Interruption
import SemanticHypergraph.Proofs.Store.Totality

/-!
# How operations fail

An operation that restores nothing checks whatever could make it fail before it changes anything.
Nothing after that can fail: what an addition needs is put in before it is needed, and a consistent
store always deletes and always answers. So there are few errors, and none of them leaves a trace.
-/
namespace SemanticHypergraph

open SemanticHypergraph.Hypergraph LawfulHypergraph

/-- The call takes entries of a snapshot into the store, one after the other. -/
def Operation.restores : Operation → Bool
  | restore _ | importBytes _ => true
  | _ => false

/-- The store refuses the operation, with an error that says what is wrong with it. -/
inductive Operation.Refused {σ : Type} [Hypergraph σ] (s : σ) : Operation → Error → Prop
  /-- The edge is new, and of its children this one is the first that is absent. -/
  | insert {e child : Entity} {xs ys : List Entity} (isPrimary : Bool)
      (hnew : contains s e = .ok false) (hchildren : e.children = xs ++ child :: ys)
      (hbefore : ∀ x ∈ xs, contains s x = .ok true) (habsent : contains s child = .ok false) :
      Refused s (.change (.insert e isPrimary)) (.danglingChild e.toText child.toText)
  | add {e : Entity} {a : Atom} (ha : a.isPatternToken)
      (h : e = .atom a ∨ Entity.Inside (.atom a) e) : Refused s (.add e) (tokenError e)
  | addWith {e : Entity} {a : Atom} (isPrimary : Bool) (ha : a.isPatternToken)
      (h : e = .atom a ∨ Entity.Inside (.atom a) e) :
      Refused s (.addWith e isPrimary) (tokenError e)
  | stepAttribute {e : Entity} {name text : String} (step : Step)
      (hstored : contains s e = .ok true) (htext : attributeOf s e name = .ok (some (.text text))) :
      Refused s (.change (.stepAttribute e name step)) (.attributeType name "string")
  | matchText {text reason : String} {position : Nat}
      (h : Pattern.parse text = .error (.parse reason position)) :
      Refused s (.ask (.matchText text)) (.parse reason position)
  | removeText {text reason : String} {position : Nat}
      (h : Pattern.parse text = .error (.parse reason position)) :
      Refused s (.removeText text) (.parse reason position)

/-- A step fails just from a text. -/
theorem Value.stepped_eq_error {v : Option Value} {name : String} (step : Step) {error : Error} :
    Value.stepped v name step = .error error ↔
      (∃ text, v = some (.text text)) ∧ error = .attributeType name "string" := by
  rcases v with _ | text | n | x <;> simp [stepped, eq_comm]

namespace Content

variable {c : Content} {e child : Entity} {error : Error}

theorem missingChild?_eq_some : c.missingChild? e = some child ↔ ∃ xs ys,
    e.children = xs ++ child :: ys ∧ (∀ x ∈ xs, c.isStored x) ∧ c.isStored child = false := by
  rw [missingChild?, List.find?_eq_some_iff_append, Bool.not_eq_true']
  constructor
  · rintro ⟨habsent, xs, ys, hchildren, hbefore⟩
    exact ⟨xs, ys, hchildren, fun x hx => by simpa using hbefore x hx, habsent⟩
  · rintro ⟨xs, ys, hchildren, hbefore, habsent⟩
    exact ⟨habsent, xs, ys, hchildren, fun x hx => by simpa using hbefore x hx⟩

/-- Inserting fails just for a new edge that lacks a child. -/
theorem insert_eq_error {isPrimary : Bool} {policy : PrimaryPolicy} :
    (insert e isPrimary policy c).1 = .error error ↔
      c.isStored e = false ∧ ∃ child, c.missingChild? e = some child ∧
        error = danglingError e child := by
  rw [isStored_eq_false]
  cases he : c e with
  | some r => simp [insert_of_some he]
  | none =>
    cases hmissing : c.missingChild? e with
    | some child => simp [insert_of_missing he hmissing, eq_comm]
    | none => simp [insert_of_none he hmissing]

theorem stepAttribute_eq_error {name : String} {step : Step} :
    (stepAttribute e name step c).1 = .error error ↔ c.isStored e ∧
      (∃ text, (c.attributesOf e)[name]? = some (.text text)) ∧
        error = .attributeType name "string" := by
  cases he : c e with
  | none => simp [stepAttribute_of_none he, isStored, he]
  | some r =>
    have hattributes : c.attributesOf e = r.attributes := by simp [attributesOf, he]
    rw [hattributes, and_iff_right (isStored_of_eq_some he), ← Value.stepped_eq_error step]
    cases hvalue : Value.stepped r.attributes[name]? name step with
    | ok value =>
      rw [stepAttribute_of_ok he hvalue]
      simp
    | error error' =>
      rw [stepAttribute_of_error he hvalue]
      simp

end Content

variable {σ α β : Type}

theorem Update.map_eq_error {u : Update σ α} (f : α → β) {s : σ} {e : Error} :
    ((do return f (← u) : Update σ β) s).1 = .error e ↔ (u s).1 = .error e := by
  rw [Update.bind_apply]
  cases (u s).1 with
  | ok a => exact ⟨nofun, nofun⟩
  | error e' => simp

section Succeeds

variable [StoreView σ]

/-- The update succeeds in every consistent store and leaves a consistent one. -/
def Succeeds (u : Update σ α) : Prop := ∀ s, Consistent s → ∃ a t, u s = (.ok a, t) ∧ Consistent t

theorem Succeeds.pure (a : α) : Succeeds (pure a : Update σ α) := fun s hs => ⟨a, s, rfl, hs⟩

theorem Succeeds.ask {q : σ → Except Error α} (h : ∀ s, Consistent s → ∃ a, q s = .ok a) :
    Succeeds (Update.ask q) := by
  intro s hs
  obtain ⟨a, ha⟩ := h s hs
  exact ⟨a, s, by rw [Update.ask, ha], hs⟩

theorem Succeeds.bind {u : Update σ α} {f : α → Update σ β} (h : Succeeds u)
    (hf : ∀ a, Succeeds (f a)) : Succeeds (u >>= f) := by
  intro s hs
  obtain ⟨a, t, hu, ht⟩ := h s hs
  obtain ⟨b, t', hfa, ht'⟩ := hf a t ht
  exact ⟨b, t', by rw [Update.bind_apply, hu]; exact hfa, ht'⟩

theorem Succeeds.ne_error {u : Update σ α} (h : Succeeds u) {s : σ} (hs : Consistent s)
    (e : Error) : (u s).1 ≠ .error e := by
  obtain ⟨a, t, hu, -⟩ := h s hs
  rw [hu]
  exact nofun

end Succeeds

section Lawful

variable [Hypergraph σ] [LawfulHypergraph σ] {s : σ} {e : Entity} {error : Error}

theorem Realizes.succeeds {u : Update σ α} {v : PrimaryPolicy → Update Content α}
    (h : Realizes u v) (hv : ∀ policy c, ∃ a, (v policy c).1 = .ok a) : Succeeds u := by
  intro s hs
  obtain ⟨a, ha⟩ := hv (StoreView.policy s) (SemanticHypergraph.content s)
  exact ⟨a, (u s).2, Prod.ext ((h.result hs).trans ha) rfl, h.consistent hs⟩

theorem succeeds_delete (e : Entity) : Succeeds (delete e : Update σ Bool) :=
  (delete_realizes e).succeeds fun _ c => ⟨c.isStored e, rfl⟩

theorem succeeds_setPrimary (e : Entity) (isPrimary : Bool) :
    Succeeds (setPrimary e isPrimary : Update σ Unit) := by
  refine (setPrimary_realizes e isPrimary).succeeds fun _ c => ⟨(), ?_⟩
  cases he : c e with
  | some r => rw [Content.setPrimary_of_some he]
  | none => rw [Content.setPrimary_of_none he]

theorem succeeds_setAttribute (e : Entity) (name : String) (value : Value) :
    Succeeds (setAttribute e name value : Update σ Bool) := by
  refine (setAttribute_realizes e name value).succeeds fun _ c => ?_
  cases he : c e with
  | some r => exact ⟨true, by rw [Content.setAttribute_of_some he]⟩
  | none => exact ⟨false, by rw [Content.setAttribute_of_none he]⟩

theorem succeeds_destroy : Succeeds (destroy : Update σ Unit) :=
  destroy_realizes.succeeds fun _ _ => ⟨(), rfl⟩

theorem succeeds_close : Succeeds (close : Update σ Unit) :=
  close_realizes.succeeds fun _ _ => ⟨(), rfl⟩

theorem succeeds_deleteEdges (keepShared : Bool) (es : List Entity) :
    Succeeds (deleteEdges keepShared es : Update σ Unit) := by
  induction es with
  | nil => exact .pure ()
  | cons e es ih =>
    have hrest : Succeeds ((delete e : Update σ Bool) >>= fun _ => deleteEdges keepShared es) :=
      (succeeds_delete e).bind fun _ => ih
    cases keepShared with
    | false => exact hrest
    | true =>
      have hask : Succeeds (Update.ask fun s : σ =>
          (star s e (some 1)).map fun found => !found.isEmpty) :=
        .ask fun s hs => ⟨_, by rw [star_some_eq hs]; rfl⟩
      refine hask.bind fun shared => ?_
      cases shared with
      | true => exact ih
      | false => exact hrest

theorem succeeds_removeWith (e : Entity) (removal : Removal) :
    Succeeds (removeWith e removal : Update σ Bool) := by
  refine (succeeds_delete e).bind fun existed => ?_
  cases removal with
  | shallow => exact .pure existed
  | deep => exact (succeeds_deleteEdges false _).bind fun _ => .pure existed
  | deepUnshared => exact (succeeds_deleteEdges true _).bind fun _ => .pure existed

theorem succeeds_removeAll (removed : Nat) (es : List Entity) :
    Succeeds (removeAll removed es : Update σ Nat) := by
  induction es generalizing removed with
  | nil => exact .pure removed
  | cons e es ih => exact (succeeds_removeWith e .shallow).bind fun found => ih _

theorem succeeds_removeMatching (p : Pattern) : Succeeds (removeMatching p : Update σ Nat) := by
  have hask : Succeeds (Update.ask fun s : σ => matchPattern s p) := by
    refine .ask fun s hs => ?_
    obtain ⟨found, hfound, -⟩ := matchPattern_eq_filter hs p
    exact ⟨found, hfound⟩
  exact hask.bind fun found => succeeds_removeAll 0 found.toList

/-! ## What fails -/

theorem insert_eq_error (hs : Consistent s) {isPrimary : Bool} :
    (insert e isPrimary s).1 = .error error ↔
      (Operation.change (.insert e isPrimary)).Refused s error := by
  rw [(insert_realizes e isPrimary).result hs, Content.insert_eq_error]
  constructor
  · rintro ⟨hnew, child, hmissing, rfl⟩
    obtain ⟨xs, ys, hchildren, hbefore, habsent⟩ := Content.missingChild?_eq_some.1 hmissing
    exact .insert isPrimary (hnew ▸ contains_eq hs e) hchildren
      (fun x hx => (contains_eq_true_iff hs).2 (hbefore x hx)) (habsent ▸ contains_eq hs child)
  · intro h
    cases h with
    | insert _ hnew hchildren hbefore habsent =>
      rw [contains_eq hs] at hnew habsent
      refine ⟨Except.ok.inj hnew, _, Content.missingChild?_eq_some.2 ?_, rfl⟩
      exact ⟨_, _, hchildren, fun x hx => (contains_eq_true_iff hs).1 (hbefore x hx),
        Except.ok.inj habsent⟩

theorem stepAttribute_eq_error (hs : Consistent s) {name : String} {step : Step} :
    (stepAttribute e name step s).1 = .error error ↔
      (Operation.change (.stepAttribute e name step)).Refused s error := by
  rw [(stepAttribute_realizes e name step).result hs, Content.stepAttribute_eq_error]
  constructor
  · rintro ⟨hstored, ⟨text, htext⟩, rfl⟩
    exact .stepAttribute step ((contains_eq_true_iff hs).2 hstored)
      (by rw [attributeOf_eq hs, htext])
  · intro h
    cases h with
    | stepAttribute _ hstored htext =>
      rw [attributeOf_eq hs] at htext
      exact ⟨(contains_eq_true_iff hs).1 hstored, ⟨_, Except.ok.inj htext⟩, rfl⟩

theorem Query.answer_eq_error (hs : Consistent s) {q : Query} :
    q.answer s = .error error ↔ (Operation.ask q).Refused s error := by
  constructor
  · intro h
    obtain ⟨a, ha⟩ | ⟨text, error', rfl, hparse, herror⟩ := q.answer_eq_ok hs
    · rw [ha] at h
      cases h
    · rw [herror] at h
      cases h
      obtain ⟨reason, position, rfl⟩ := Pattern.parse_error hparse
      exact .matchText hparse
  · intro h
    cases h with
    | matchText hparse =>
      rw [answer, Hypergraph.matchText, hparse]
      rfl

end Lawful

/-! ## What a failure leaves -/

/-- The update succeeds, or else leaves the store as it was. -/
def Update.Atomic (u : Update σ α) : Prop := ∀ s, (∃ a, (u s).1 = .ok a) ∨ (u s).2 = s

theorem OrderedStore.atomic_insert (e : Entity) (isPrimary : Bool) :
    (Hypergraph.insert e isPrimary : Update OrderedStore Unit).Atomic := by
  intro s
  simp only [Hypergraph.insert]
  cases s.insert e isPrimary with
  | ok t => exact .inl ⟨(), rfl⟩
  | error error => exact .inr rfl

theorem OrderedStore.atomic_stepAttribute (e : Entity) (name : String) (step : Step) :
    (Hypergraph.stepAttribute e name step : Update OrderedStore (Option Value)).Atomic := by
  intro s
  simp only [Hypergraph.stepAttribute]
  cases s.stepAttribute e name step with
  | ok found => exact .inl ⟨found.1, rfl⟩
  | error error => exact .inr rfl

theorem NumberedStore.atomic_insert (e : Entity) (isPrimary : Bool) :
    (Hypergraph.insert e isPrimary : Update NumberedStore Unit).Atomic := by
  intro s
  simp only [Hypergraph.insert]
  cases s.insert e isPrimary with
  | ok t => exact .inl ⟨(), rfl⟩
  | error error => exact .inr rfl

theorem NumberedStore.atomic_stepAttribute (e : Entity) (name : String) (step : Step) :
    (Hypergraph.stepAttribute e name step : Update NumberedStore (Option Value)).Atomic := by
  intro s
  simp only [Hypergraph.stepAttribute]
  cases s.stepAttribute e name step with
  | ok found => exact .inl ⟨found.1, rfl⟩
  | error error => exact .inr rfl

namespace Store

theorem atomic_change {onOrdered : Update OrderedStore α} {onNumbered : Update NumberedStore α}
    (hordered : onOrdered.Atomic) (hnumbered : onNumbered.Atomic) :
    (change onOrdered onNumbered).Atomic
  | ordered s => (hordered s).imp_right (congrArg ordered)
  | numbered s => (hnumbered s).imp_right (congrArg numbered)

theorem atomic_insert (e : Entity) (isPrimary : Bool) :
    (Hypergraph.insert e isPrimary : Update Store Unit).Atomic :=
  atomic_change (OrderedStore.atomic_insert e isPrimary) (NumberedStore.atomic_insert e isPrimary)

theorem atomic_stepAttribute (e : Entity) (name : String) (step : Step) :
    (Hypergraph.stepAttribute e name step : Update Store (Option Value)).Atomic :=
  atomic_change (OrderedStore.atomic_stepAttribute e name step)
    (NumberedStore.atomic_stepAttribute e name step)

end Store

/-- In the store the update fails with just the errors of `R`, and then leaves it as it was. -/
structure FailsAs (u : Update σ α) (s : σ) (R : Error → Prop) : Prop where
  error_iff : ∀ e, (u s).1 = .error e ↔ R e
  unchanged : ∀ e, (u s).1 = .error e → (u s).2 = s

section FailsAs

variable {u : Update σ α} {s : σ} {R : Error → Prop}

theorem FailsAs.map (h : FailsAs u s R) (f : α → β) :
    FailsAs (do return f (← u) : Update σ β) s R where
  error_iff e := (Update.map_eq_error f).trans (h.error_iff e)
  unchanged e herror := by
    rw [Update.state_map]
    exact h.unchanged e ((Update.map_eq_error f).1 herror)

theorem Update.Atomic.failsAs (h : u.Atomic) (hR : ∀ e, (u s).1 = .error e ↔ R e) :
    FailsAs u s R := by
  refine ⟨hR, fun e herror => ?_⟩
  rcases h s with ⟨a, hok⟩ | hsame
  · rw [hok] at herror
    cases herror
  · exact hsame

theorem FailsAs.congr {R' : Error → Prop} (h : FailsAs u s R) (hR : ∀ e, R e ↔ R' e) :
    FailsAs u s R' where
  error_iff e := (h.error_iff e).trans (hR e)
  unchanged := h.unchanged

/-- What succeeds is to be refused for nothing. -/
theorem Succeeds.failsAs [StoreView σ] (h : Succeeds u) (hs : Consistent s) (hR : ∀ e, ¬ R e) :
    FailsAs u s R where
  error_iff e :=
    ⟨fun herror => absurd herror (h.ne_error hs e), fun hrefused => absurd hrefused (hR e)⟩
  unchanged e herror := absurd herror (h.ne_error hs e)

end FailsAs

section Lawful

variable [Hypergraph σ] [LawfulHypergraph σ] {s : σ}

theorem failsAs_ask (hs : Consistent s) (q : Query) :
    FailsAs (Operation.ask q).perform s ((Operation.ask q).Refused s) where
  error_iff _ := q.answer_eq_error hs
  unchanged _ _ := rfl

omit [LawfulHypergraph σ] in
theorem refused_add {e : Entity} {error : Error} :
    (Operation.add e).Refused s error ↔ e.isPattern ∧ error = tokenError e := by
  rw [Entity.isPattern_iff]
  constructor
  · rintro (_ | ⟨ha, h⟩)
    exact ⟨⟨_, ha, h⟩, rfl⟩
  · rintro ⟨⟨a, ha, h⟩, rfl⟩
    exact .add ha h

omit [LawfulHypergraph σ] in
theorem refused_addWith {e : Entity} {isPrimary : Bool} {error : Error} :
    (Operation.addWith e isPrimary).Refused s error ↔ e.isPattern ∧ error = tokenError e := by
  rw [Entity.isPattern_iff]
  constructor
  · intro hrefused
    cases hrefused with
    | addWith _ ha h => exact ⟨⟨_, ha, h⟩, rfl⟩
  · rintro ⟨⟨a, ha, h⟩, rfl⟩
    exact .addWith isPrimary ha h

/-- Adding fails at its first look at the entity or not at all. -/
theorem failsAs_addWith (hs : Consistent s) (e : Entity) (isPrimary : Bool) :
    FailsAs (addWith e isPrimary) s fun error => e.isPattern ∧ error = tokenError e := by
  cases he : e.isPattern with
  | true =>
    have hadd : addWith e isPrimary s = (.error (tokenError e), s) := by
      rw [addWith_eq_throw he]
      rfl
    refine ⟨fun error => ?_, fun error _ => by rw [hadd]⟩
    rw [hadd, and_iff_right rfl]
    simp [eq_comm]
  | false =>
    obtain ⟨t, hadd, -⟩ := yields_addWith hs he isPrimary
    refine ⟨fun error => ?_, fun error h => ?_⟩
    · rw [hadd]
      simp
    · rw [hadd] at h
      cases h

/-- A text that cannot be read is refused, and what can be read is removed. -/
theorem failsAs_removeText (hs : Consistent s) (text : String) :
    FailsAs (removeText text) s ((Operation.removeText text).Refused s) := by
  cases hparse : Pattern.parse text with
  | ok p =>
    have hremove : (removeText text : Update σ Nat) = removeMatching p := by
      rw [removeText, hparse]
    rw [hremove]
    refine (succeeds_removeMatching p).failsAs hs fun e hrefused => ?_
    cases hrefused with
    | removeText h =>
      rw [hparse] at h
      cases h
  | error error =>
    have hremove : (removeText text : Update σ Nat) = throw error := by
      rw [removeText, hparse]
    rw [hremove]
    obtain ⟨reason, position, rfl⟩ := Pattern.parse_error hparse
    refine ⟨fun e => ⟨fun h => ?_, fun hrefused => ?_⟩, fun _ _ => rfl⟩
    · cases h
      exact .removeText hparse
    · cases hrefused with
      | removeText h =>
        rw [hparse] at h
        cases h
        rfl

end Lawful

namespace Store

variable {s : Store}

theorem failsAs_change (hs : Consistent s) (c : Change) :
    FailsAs c.perform s ((Operation.change c).Refused s) := by
  cases c with
  | insert e isPrimary =>
    exact ((atomic_insert e isPrimary).failsAs fun _ => insert_eq_error hs).map _
  | delete e => exact ((succeeds_delete e).failsAs hs nofun).map _
  | setPrimary e isPrimary => exact ((succeeds_setPrimary e isPrimary).failsAs hs nofun).map _
  | setAttribute e name value =>
    exact ((succeeds_setAttribute e name value).failsAs hs nofun).map _
  | stepAttribute e name step =>
    exact ((atomic_stepAttribute e name step).failsAs fun _ => stepAttribute_eq_error hs).map _
  | destroy => exact (succeeds_destroy.failsAs hs nofun).map _
  | close => exact (succeeds_close.failsAs hs nofun).map _

theorem failsAs_perform (hs : Consistent s) {op : Operation} (hop : op.restores = false) :
    FailsAs op.perform s (op.Refused s) := by
  cases op with
  | ask q => exact failsAs_ask hs q
  | change c => exact failsAs_change hs c
  | add e => exact ((failsAs_addWith hs e true).map _).congr fun _ => refused_add.symm
  | addWith e isPrimary =>
    exact ((failsAs_addWith hs e isPrimary).map _).congr fun _ => refused_addWith.symm
  | remove e => exact ((succeeds_removeWith e .shallow).failsAs hs nofun).map _
  | removeWith e removal => exact ((succeeds_removeWith e removal).failsAs hs nofun).map _
  | removeMatching p => exact ((succeeds_removeMatching p).failsAs hs nofun).map _
  | removeText text => exact (failsAs_removeText hs text).map _
  | restore snapshot => cases hop
  | importBytes bs => cases hop

end Store

/-- In every reachable store an operation that restores nothing fails just where it is refused, with
the error that says why, and then the store is what it was, with its indexes and its numbers. -/
theorem Store.Reachable.perform_error_iff {s : Store} (hs : s.Reachable) {op : Operation}
    (hop : op.restores = false) (e : Error) :
    ((op.perform s).1 = .error e ↔ op.Refused s e) ∧
      ((op.perform s).1 = .error e → (op.perform s).2 = s) :=
  have h := failsAs_perform hs.consistent hop
  ⟨h.error_iff e, h.unchanged e⟩

/-- The second child is the first that is absent. -/
theorem perform_error_iff_dangling :
    let a : Entity := .atom { root := "a" }
    let b : Entity := .atom { root := "b" }
    let c : Entity := .atom { root := "c" }
    let s := Operation.run [.add a] (Store.empty .file "test" .preserve)
    let op := Operation.change (.insert (.edge [a, b, c]) true)
    s.Reachable ∧ op.restores = false ∧
      (op.perform s).1 = .error (.danglingChild "(a b c)" "b") ∧ (op.perform s).2 = s := by
  intro a b c s op
  have hs : s.Reachable := (Store.Reachable.empty .file "test" .preserve).run _
  have hnew : contains s (.edge [a, b, c]) = .ok false := by decide +kernel
  have hbefore : ∀ x ∈ [a], contains s x = .ok true := by decide +kernel
  have habsent : contains s b = .ok false := by decide +kernel
  have hchildren : (Entity.edge [a, b, c]).children = [a] ++ b :: [c] := rfl
  have hrefused : op.Refused s (.danglingChild "(a b c)" "b") :=
    .insert true hnew hchildren hbefore habsent
  have hop : op.restores = false := rfl
  obtain ⟨herror, hsame⟩ := hs.perform_error_iff hop (.danglingChild "(a b c)" "b")
  exact ⟨hs, hop, herror.2 hrefused, hsame (herror.2 hrefused)⟩

end SemanticHypergraph
