import SemanticHypergraph.Proofs.Store.Failures
import SemanticHypergraph.Proofs.Store.Recording

/-!
# The lifetime of an attribute

An entity begins without attributes when it is inserted for the first time, or again after it has
gone. From then on the changes that write an attribute of it decide alone what that attribute is,
until the entity is deleted or everything is destroyed.
-/
namespace SemanticHypergraph

open SemanticHypergraph.Hypergraph LawfulHypergraph

/-- What is written to an attribute: a value, or one step up or down. -/
inductive Write where
  | value (v : Value)
  | step (st : Step)

/-- The attribute after a write. A step from nothing is one from zero, a step at a bound of the
integers goes no further, and a text takes no step. -/
def Write.apply : Write → Option Value → Option Value
  | value v, _ => some v
  | step st, none => some (.int (Int64.ofInt st.delta))
  | step st, some (.int n) =>
    some (.int (Int64.ofInt (max Text.minInt64 (min (n.toInt + st.delta) Text.maxInt64))))
  | step st, some (.float x) => some (.float (x.addInt st.delta))
  | step _, some (.text t) => some (.text t)

theorem Write.apply_step_of_ok {v : Option Value} {name : String} {st : Step} {w : Value}
    (h : Value.stepped v name st = .ok w) : (step st).apply v = some w := by
  unfold Value.stepped at h
  split at h
  · cases st <;> cases h <;> rfl
  · cases h
    rfl
  · cases h
    rfl
  · cases h

theorem Write.apply_step_of_error {v : Option Value} {name : String} {st : Step} {error : Error}
    (h : Value.stepped v name st = .error error) : (step st).apply v = v := by
  obtain ⟨⟨text, rfl⟩, -⟩ := (Value.stepped_eq_error st).1 h
  rfl

namespace Change

/-- The entity to which the change is made. -/
def subject? : Change → Option Entity
  | insert e _ | delete e | setPrimary e _ | setAttribute e _ _ | stepAttribute e _ _ => some e
  | destroy | close => none

/-- The entity does not outlive the change. -/
def Ends (e : Entity) (c : Change) : Prop := c = .delete e ∨ c = .destroy

/-- What the change writes to the attribute of the entity. -/
def write? (e : Entity) (name : String) : Change → Option Write
  | setAttribute x key v => if x = e ∧ key = name then some (.value v) else none
  | stepAttribute x key st => if x = e ∧ key = name then some (.step st) else none
  | _ => none

/-- The attribute after changes to an entity that stays. -/
def replay (e : Entity) (name : String) (cs : List Change) (v : Option Value) : Option Value :=
  (cs.filterMap (write? e name)).foldl (fun v w => w.apply v) v

variable {e : Entity} {name : String} {v : Option Value}

@[simp] theorem replay_nil : replay e name [] v = v := rfl

theorem replay_append (cs ds : List Change) :
    replay e name (cs ++ ds) v = replay e name ds (replay e name cs v) := by
  rw [replay, List.filterMap_append, List.foldl_append, replay, replay]

theorem replay_singleton_of_none {c : Change} (h : c.write? e name = none) :
    replay e name [c] v = v := by
  rw [replay, List.filterMap_cons_none h]
  rfl

theorem replay_singleton_of_some {c : Change} {w : Write} (h : c.write? e name = some w) :
    replay e name [c] v = w.apply v := by
  rw [replay, List.filterMap_cons_some h]
  rfl

theorem write?_of_subject_ne {c : Change} (h : c.subject? ≠ some e) : c.write? e name = none := by
  cases c with
  | setAttribute x key value => exact if_neg fun heq => h (congrArg some heq.1)
  | stepAttribute x key step => exact if_neg fun heq => h (congrArg some heq.1)
  | _ => rfl

end Change

namespace Content

/-- What a change makes of a content. -/
def after (policy : PrimaryPolicy) (c : Content) : Change → Content
  | .insert e isPrimary => (insert e isPrimary policy c).2
  | .delete e => (delete e c).2
  | .setPrimary e isPrimary => (setPrimary e isPrimary c).2
  | .setAttribute e name value => (setAttribute e name value c).2
  | .stepAttribute e name step => (stepAttribute e name step c).2
  | .destroy => (destroy c).2
  | .close => c

variable {c : Content} {e : Entity} {r : Record} {policy : PrimaryPolicy}

/-- A change touches no other entity, unless it destroys everything. -/
theorem after_of_subject_ne {change : Change} (h : change.subject? ≠ some e)
    (hdestroy : change ≠ .destroy) : c.after policy change e = c e := by
  have hput : ∀ {x : Entity} (r : Record), change.subject? = some x → c.put x r e = c e := by
    intro x r hx
    exact put_of_ne fun heq => h (heq ▸ hx)
  cases change with
  | insert x isPrimary =>
    cases hx : c x with
    | some r =>
      rw [after, insert_of_some hx]
      exact hput _ rfl
    | none =>
      cases hmissing : c.missingChild? x with
      | some child => rw [after, insert_of_missing hx hmissing]
      | none =>
        rw [after, insert_of_none hx hmissing]
        exact hput _ rfl
  | delete x => exact drop_of_ne fun heq => h (heq ▸ rfl)
  | setPrimary x isPrimary =>
    cases hx : c x with
    | some r =>
      rw [after, setPrimary_of_some hx]
      exact hput _ rfl
    | none => rw [after, setPrimary_of_none hx]
  | setAttribute x name value =>
    cases hx : c x with
    | some r =>
      rw [after, setAttribute_of_some hx]
      exact hput _ rfl
    | none => rw [after, setAttribute_of_none hx]
  | stepAttribute x name step =>
    cases hx : c x with
    | some r =>
      cases hvalue : Value.stepped r.attributes[name]? name step with
      | ok value =>
        rw [after, stepAttribute_of_ok hx hvalue]
        exact hput _ rfl
      | error error => rw [after, stepAttribute_of_error hx hvalue]
    | none => rw [after, stepAttribute_of_none hx]
  | destroy => exact absurd rfl hdestroy
  | close => rfl

/-- Only an insertion gives an absent entity a record, and one without attributes. -/
theorem after_of_none (h : c e = none) (change : Change) : c.after policy change e = none ∨
    ∃ isPrimary, change = .insert e isPrimary ∧ c.after policy change e = some ⟨isPrimary, ∅⟩ := by
  by_cases hsubject : change.subject? = some e
  · cases change with
    | insert x isPrimary =>
      cases hsubject
      cases hmissing : c.missingChild? e with
      | some child =>
        rw [after, insert_of_missing h hmissing]
        exact .inl h
      | none =>
        rw [after, insert_of_none h hmissing]
        exact .inr ⟨isPrimary, rfl, put_self _ _ _⟩
    | delete x =>
      cases hsubject
      exact .inl (drop_self c e)
    | setPrimary x isPrimary =>
      cases hsubject
      rw [after, setPrimary_of_none h]
      exact .inl h
    | setAttribute x name value =>
      cases hsubject
      rw [after, setAttribute_of_none h]
      exact .inl h
    | stepAttribute x name step =>
      cases hsubject
      rw [after, stepAttribute_of_none h]
      exact .inl h
    | destroy => cases hsubject
    | close => cases hsubject
  · by_cases hdestroy : change = .destroy
    · subst hdestroy
      exact .inl rfl
    · exact .inl ((after_of_subject_ne hsubject hdestroy).trans h)

/-- What is put under one name is the write to the attribute of that name, and of no other. -/
theorem getElem?_insert_eq_replay {change : Change} {w : Write} {key : String} {value : Value}
    {attributes : Attributes} (hwrite : ∀ name, change.write? e name =
      if key = name then some w else none) (happly : w.apply attributes[key]? = some value)
    (name : String) :
    (attributes.insert key value)[name]? = Change.replay e name [change] attributes[name]? := by
  rw [Std.ExtTreeMap.getElem?_insert]
  simp only [Std.compare_eq_iff_eq]
  by_cases hkey : key = name
  · subst hkey
    rw [if_pos rfl, Change.replay_singleton_of_some ((hwrite key).trans (if_pos rfl)), happly]
  · rw [if_neg hkey, Change.replay_singleton_of_none ((hwrite name).trans (if_neg hkey))]

/-- A stored entity goes, or it stays and its attributes are what is written to them. -/
theorem after_of_some (h : c e = some r) (change : Change) :
    (change.Ends e ∧ c.after policy change e = none) ∨
      (¬ change.Ends e ∧ ∃ r', c.after policy change e = some r' ∧
        ∀ name, r'.attributes[name]? = Change.replay e name [change] r.attributes[name]?) := by
  by_cases hsubject : change.subject? = some e
  · cases change with
    | insert x isPrimary =>
      cases hsubject
      rw [after, insert_of_some h]
      exact .inr ⟨nofun, _, put_self _ _ _, fun name => rfl⟩
    | delete x =>
      cases hsubject
      exact .inl ⟨.inl rfl, drop_self c e⟩
    | setPrimary x isPrimary =>
      cases hsubject
      rw [after, setPrimary_of_some h]
      exact .inr ⟨nofun, _, put_self _ _ _, fun name => rfl⟩
    | setAttribute x key value =>
      cases hsubject
      rw [after, setAttribute_of_some h]
      refine .inr ⟨nofun, _, put_self _ _ _, getElem?_insert_eq_replay (w := .value value) ?_ rfl⟩
      simp [Change.write?]
    | stepAttribute x key step =>
      cases hsubject
      right
      cases hvalue : Value.stepped r.attributes[key]? key step with
      | ok value =>
        rw [after, stepAttribute_of_ok h hvalue]
        refine ⟨nofun, _, put_self _ _ _,
          getElem?_insert_eq_replay ?_ (Write.apply_step_of_ok hvalue)⟩
        simp [Change.write?]
      | error error =>
        rw [after, stepAttribute_of_error h hvalue]
        refine ⟨nofun, r, h, fun name => ?_⟩
        by_cases hkey : key = name
        · subst hkey
          have hwrite : (Change.stepAttribute e key step).write? e key = some (.step step) :=
            if_pos ⟨rfl, rfl⟩
          rw [Change.replay_singleton_of_some hwrite, Write.apply_step_of_error hvalue]
        · have hwrite : (Change.stepAttribute e key step).write? e name = none :=
            if_neg fun heq => hkey heq.2
          rw [Change.replay_singleton_of_none hwrite]
    | destroy => cases hsubject
    | close => cases hsubject
  · by_cases hdestroy : change = .destroy
    · subst hdestroy
      exact .inl ⟨.inr rfl, rfl⟩
    · refine .inr ⟨?_, r, (after_of_subject_ne hsubject hdestroy).trans h, fun name => ?_⟩
      · rintro (rfl | rfl)
        · exact hsubject rfl
        · exact hdestroy rfl
      · rw [Change.replay_singleton_of_none (Change.write?_of_subject_ne hsubject)]

end Content

section Lawful

variable {σ : Type} [Hypergraph σ] [LawfulHypergraph σ] {s : σ}

theorem Change.content_perform (c : Change) (hs : Consistent s) :
    content (c.perform s).2 = (content s).after (StoreView.policy s) c := by
  cases c with
  | insert e isPrimary =>
    rw [Change.state_insert]
    exact (insert_realizes e isPrimary).content hs
  | delete e =>
    rw [Change.state_delete]
    exact (delete_realizes e).content hs
  | setPrimary e isPrimary =>
    rw [Change.state_setPrimary]
    exact (setPrimary_realizes e isPrimary).content hs
  | setAttribute e name value =>
    rw [Change.state_setAttribute]
    exact (setAttribute_realizes e name value).content hs
  | stepAttribute e name step =>
    rw [Change.state_stepAttribute]
    exact (stepAttribute_realizes e name step).content hs
  | destroy =>
    rw [Change.state_destroy]
    exact destroy_realizes.content hs
  | close =>
    rw [Change.state_close]
    exact close_realizes.content hs

theorem Change.content_run_append (cs : List Change) (c : Change) (hs : Consistent s) : ∃ policy,
    content (Change.run (cs ++ [c]) s) = (content (Change.run cs s)).after policy c := by
  rw [Change.run_append]
  exact ⟨_, c.content_perform (Change.consistent_run cs hs)⟩

/-- The changes are those before the present life of the entity, the insertion with which it began,
and those since. -/
structure Lives (start : σ) (e : Entity) (cs before : List Change) (isPrimary : Bool)
    (since : List Change) : Prop where
  eq : cs = before ++ .insert e isPrimary :: since
  absent : contains (Change.run before start) e = .ok false
  inserted : contains (Change.run (before ++ [.insert e isPrimary]) start) e = .ok true
  not_deleted : .delete e ∉ since
  not_destroyed : .destroy ∉ since

/-- The run, by induction on the changes from the last one: an entity is absent, or in a life whose
changes tell its attributes. -/
theorem lives_of_run (hs : Consistent s) (hempty : content s = Content.empty) (e : Entity)
    (cs : List Change) : content (Change.run cs s) e = none ∨
      ∃ r before isPrimary since, content (Change.run cs s) e = some r ∧
        Lives s e cs before isPrimary since ∧
        ∀ name, r.attributes[name]? = Change.replay e name since none := by
  induction cs using List.reverseRecOn with
  | nil => exact .inl (congrFun hempty e)
  | append_singleton cs c ih =>
    obtain ⟨policy, hafter⟩ := Change.content_run_append cs c hs
    have hold := Change.consistent_run cs hs
    have hnew := Change.consistent_run (cs ++ [c]) hs
    rcases ih with hnone | ⟨r, before, isPrimary, since, hr, hlives, hattributes⟩
    · rcases Content.after_of_none hnone c with habsent | ⟨isPrimary, rfl, hinserted⟩
      · exact .inl (by rw [hafter, habsent])
      · -- A new life begins, without attributes.
        refine .inr ⟨⟨isPrimary, ∅⟩, cs, isPrimary, [], by rw [hafter, hinserted], ?_, ?_⟩
        · refine ⟨rfl, ?_, ?_, List.not_mem_nil, List.not_mem_nil⟩
          · rw [contains_eq hold, Content.isStored_eq_false.2 hnone]
          · rw [contains_eq_true_iff hnew, hafter]
            exact Content.isStored_of_eq_some hinserted
        · intro name
          rw [Std.ExtTreeMap.getElem?_empty, Change.replay_nil]
    · rcases Content.after_of_some hr c with ⟨-, hgone⟩ | ⟨hstays, r', hr', hwritten⟩
      · exact .inl (by rw [hafter, hgone])
      · obtain ⟨hdelete, hdestroy⟩ := not_or.1 hstays
        refine .inr ⟨r', before, isPrimary, since ++ [c], by rw [hafter, hr'], ?_, ?_⟩
        · refine ⟨?_, hlives.absent, hlives.inserted, ?_, ?_⟩
          · rw [hlives.eq, List.append_assoc, List.cons_append]
          · simpa [Ne.symm hdelete] using hlives.not_deleted
          · simpa [Ne.symm hdestroy] using hlives.not_destroyed
        · intro name
          rw [hwritten, hattributes, Change.replay_append]

/-- A change that writes nothing to an attribute and leaves its entity where it is does not change
it. -/
theorem Change.attributeOf_perform {c : Change} {e : Entity} {key : String} (hs : Consistent s)
    (hends : ¬ c.Ends e) (hwrite : c.write? e key = none) :
    attributeOf (c.perform s).2 e key = attributeOf s e key := by
  have ht := c.consistent_perform hs
  have hcontent := c.content_perform hs
  cases he : content s e with
  | none =>
    rw [attributeOf_of_absent hs he]
    rcases Content.after_of_none he c with habsent | ⟨isPrimary, -, hinserted⟩
    · exact attributeOf_of_absent ht ((congrFun hcontent e).trans habsent) key
    · rw [attributeOf_of_content ht ((congrFun hcontent e).trans hinserted),
        Std.ExtTreeMap.getElem?_empty]
  | some r =>
    rw [attributeOf_of_content hs he]
    rcases Content.after_of_some he c with ⟨hgone, -⟩ | ⟨-, r', hr', hwritten⟩
    · exact absurd hgone hends
    · rw [attributeOf_of_content ht ((congrFun hcontent e).trans hr'), hwritten,
        Change.replay_singleton_of_none hwrite]

/-- What is listed with its attributes is what is stored and has some. -/
theorem attributes_eq_ok (hs : Consistent s) : ∃ rows, attributes s = .ok rows ∧
    (rows.map Prod.fst).Nodup ∧ ∀ e m, (e, m) ∈ rows ↔
      contains s e = .ok true ∧ m ≠ ∅ ∧ ∀ key, attributeOf s e key = .ok m[key]? := by
  refine ⟨_, attributes_eq hs, ?_, fun e m => ?_⟩
  · refine List.Nodup.sublist (List.filter_sublist.map Prod.fst) ?_
    rw [List.map_map]
    exact (nodup_order hs).map fun _ _ heq => heq
  · simp only [Content.attributeRows, List.mem_filter, List.mem_map, Prod.mk.injEq,
      contains_eq_true_iff hs, attributeOf_eq hs, mem_order hs, Except.ok.injEq]
    constructor
    · rintro ⟨⟨x, hx, rfl, rfl⟩, hsome⟩
      exact ⟨hx, by simpa using hsome, fun _ => rfl⟩
    · rintro ⟨hstored, hsome, hattributes⟩
      exact ⟨⟨e, hstored, rfl, Std.ExtTreeMap.ext_getElem? fun {key} => hattributes key⟩,
        by simpa using hsome⟩

end Lawful

/-- After any run an attribute of an absent entity is none, and that of a stored one is what the
changes since its present life began have written, in their order and starting from nothing. A life
begins when an absent entity is inserted and lasts until it is deleted or everything is destroyed;
inserting a stored entity, adding and marking do not end it. No other change touches the attribute,
and a text takes no step. Just the stored entities that have attributes are listed with them. -/
theorem Store.attributes_of_run (backend : BackendKind) (name : String) (policy : PrimaryPolicy)
    (ops : List Operation) :
    let start := Store.empty backend name policy
    let s := Operation.run ops start
    let record := (Operation.run ops (⟨start, []⟩ : Recorded Store)).record
    Alike s (Change.run record start) ∧
    (∀ e, (contains s e = .ok false ∧ ∀ key, attributeOf s e key = .ok none) ∨
      (contains s e = .ok true ∧ ∃ before isPrimary since,
        Lives start e record before isPrimary since ∧
        ∀ key, attributeOf s e key = .ok (Change.replay e key since none))) ∧
    (∀ (c : Change) e key, ¬ c.Ends e → c.write? e key = none →
      attributeOf (c.perform s).2 e key = attributeOf s e key) ∧
    (∀ e key text st, attributeOf s e key = .ok (some (.text text)) →
      stepAttribute e key st s = (.error (.attributeType key "string"), s)) ∧
    ∃ rows, attributes s = .ok rows ∧ (rows.map Prod.fst).Nodup ∧ ∀ e m, (e, m) ∈ rows ↔
      contains s e = .ok true ∧ m ≠ ∅ ∧ ∀ key, attributeOf s e key = .ok m[key]? := by
  intro start s record
  have hstart : Consistent start := consistent_empty backend name policy
  have hs : Consistent s := Operation.consistent_run ops hstart
  have halike : Alike s (Change.run record start) := Recorded.alike_run hstart ops
  refine ⟨halike, fun e => ?_, fun c e key => Change.attributeOf_perform hs, ?_,
    attributes_eq_ok hs⟩
  · rcases lives_of_run hstart (content_empty backend name policy) e record with
      hnone | ⟨r, before, isPrimary, since, hr, hlives, hattributes⟩
    · rw [← halike.content] at hnone
      refine .inl ⟨?_, attributeOf_of_absent hs hnone⟩
      rw [contains_eq hs, Content.isStored_eq_false.2 hnone]
    · rw [← halike.content] at hr
      refine .inr ⟨(contains_eq_true_iff hs).2 (Content.isStored_of_eq_some hr), before, isPrimary,
        since, hlives, fun key => ?_⟩
      rw [attributeOf_of_content hs hr, hattributes]
  · intro e key text st htext
    cases he : content s e with
    | none =>
      rw [attributeOf_of_absent hs he] at htext
      cases htext
    | some r =>
      have hstored := (contains_eq_true_iff hs).2 (Content.isStored_of_eq_some he)
      have hfails := (atomic_stepAttribute e key st).failsAs fun _ => stepAttribute_eq_error hs
      have herror := (hfails.error_iff _).2 (.stepAttribute st hstored htext)
      exact Prod.ext herror (hfails.unchanged _ herror)

end SemanticHypergraph
