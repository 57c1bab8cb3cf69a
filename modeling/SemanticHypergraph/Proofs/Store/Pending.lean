import SemanticHypergraph.Proofs.Store.PatternRemoval
import SemanticHypergraph.Proofs.Store.Run
import SemanticHypergraph.Store.Pending

/-!
# Removal in a store with the least contract

A store in which an entity is left pending is a disturbed ordered store without the notes of its
deletions: every change of the one is that change of the other, and so is every run of changes. What
holds of a disturbed removal by pattern thus holds in it, but for patterns that have to be searched
for. Those it refuses, and then it removes nothing.
-/
namespace SemanticHypergraph

open SemanticHypergraph.Hypergraph LawfulHypergraph

variable {α β : Type}

/-- What the pattern finds has to be searched for in an index. -/
def Pattern.needsSearch : Pattern → Bool
  | edge template => !template.isFullPattern
  | _ => false

namespace PendingStore

variable {p : Pattern}

/-- The disturbed store without its notes. -/
def ofDisturbed (d : Disturbed OrderedStore) : PendingStore := ⟨d.inner, d.pending⟩

/-- Both updates give the same result, and the second leaves what the first does without the
notes. -/
def Forgets (u : Update (Disturbed OrderedStore) α) (v : Update PendingStore α) : Prop :=
  ∀ d, v (ofDisturbed d) = ((u d).1, ofDisturbed (u d).2)

section Forgets

variable {u : Update (Disturbed OrderedStore) α} {v : Update PendingStore α}

theorem Forgets.pure (a : α) : Forgets (pure a) (pure a) := fun _ => rfl

theorem Forgets.bind {f : α → Update (Disturbed OrderedStore) β} {g : α → Update PendingStore β}
    (h : Forgets u v) (hfg : ∀ a, Forgets (f a) (g a)) : Forgets (u >>= f) (v >>= g) := by
  intro d
  rw [Update.bind_apply, Update.bind_apply, h d]
  cases (u d).1 with
  | ok a => exact hfg a (u d).2
  | error e => rfl

theorem Forgets.after_note (h : Forgets u v) (e : Entity) :
    Forgets (do Disturbed.note e; u) v :=
  fun d => h { d with deleted := d.deleted ++ [e] }

theorem forgets_lift (u : Update OrderedStore α) : Forgets (Disturbed.lift u) (lift u) :=
  fun _ => rfl

theorem forgets_addPending : Forgets Disturbed.addPending addPending := by
  intro d
  obtain ⟨inner, pending, deleted⟩ := d
  cases pending with
  | none => rfl
  | some q => exact (forgets_lift (add q)).bind (fun _ => .pure ()) ⟨inner, none, deleted⟩

theorem forgets_delete (e : Entity) : Forgets (delete e) (delete e) := by
  refine Forgets.after_note ?_ e
  exact (forgets_lift (delete e)).bind fun found => forgets_addPending.bind fun _ => .pure found

/-- The step: a change is the same in both stores. -/
theorem forgets_perform (c : Change) : Forgets c.perform c.perform := by
  cases c with
  | insert e isPrimary => exact (forgets_lift (insert e isPrimary)).bind fun _ => .pure Answer.done
  | delete e => exact (forgets_delete e).bind fun found => .pure (Answer.flag found)
  | setPrimary e isPrimary =>
    exact (forgets_lift (setPrimary e isPrimary)).bind fun _ => .pure Answer.done
  | setAttribute e name value =>
    exact (forgets_lift (setAttribute e name value)).bind fun stored => .pure (Answer.flag stored)
  | stepAttribute e name step =>
    exact (forgets_lift (stepAttribute e name step)).bind fun value => .pure (Answer.value value)
  | destroy => exact (forgets_lift destroy).bind fun _ => .pure Answer.done
  | close => exact fun _ => rfl

/-- The run, by induction on the changes. -/
theorem run_ofDisturbed (cs : List Change) (d : Disturbed OrderedStore) :
    Change.run cs (ofDisturbed d) = ofDisturbed (Change.run cs d) := by
  induction cs generalizing d with
  | nil => rfl
  | cons c cs ih =>
    have hstep : (c.perform (ofDisturbed d)).2 = ofDisturbed (c.perform d).2 := by
      rw [forgets_perform c d]
    rw [Change.run, List.foldl_cons, hstep]
    exact ih _

theorem forgets_removeAll (removed : Nat) (es : List Entity) :
    Forgets (removeAll removed es) (removeAll removed es) := by
  induction es generalizing removed with
  | nil => exact .pure removed
  | cons e es ih =>
    rw [removeAll, removeAll, remove_eq_delete, remove_eq_delete]
    exact (forgets_delete e).bind fun found => ih _

end Forgets

/-! ## Patterns -/

/-- What need not be searched for is found as in the store inside. -/
theorem matchPattern_inner (s : PendingStore) (hp : p.needsSearch = false) :
    matchPattern s p = matchPattern s.inner p := by
  cases p with
  | edge template =>
    have hfull : template.isFullPattern := by simpa [Pattern.needsSearch] using hp
    rw [matchPattern, matchPattern, if_pos hfull, if_pos hfull]
    rfl
  | _ => rfl

theorem matchPattern_of_needsSearch (s : PendingStore) (hp : p.needsSearch) :
    matchPattern s p = .error (.unsupported "search") := by
  cases p with
  | edge template =>
    have hfull : ¬ template.isFullPattern := by simpa [Pattern.needsSearch] using hp
    rw [matchPattern, if_neg hfull]
    rfl
  | _ => cases hp

/-- What would have to be searched for is not removed. -/
theorem removeMatching_of_needsSearch (s : PendingStore) (hp : p.needsSearch) :
    removeMatching p s = (.error (.unsupported "search"), s) :=
  removeMatching_of_error (matchPattern_of_needsSearch s hp)

theorem forgets_removeMatching (hp : p.needsSearch = false) :
    Forgets (removeMatching p) (removeMatching p) := by
  have hfound : Forgets (Update.ask (matchPattern · p)) (Update.ask (matchPattern · p)) := by
    intro d
    rw [Update.ask, Update.ask, matchPattern_inner _ hp, Disturbed.matchPattern_eq]
    rfl
  exact hfound.bind fun found => forgets_removeAll 0 found.toList

/-- What the pattern finds at the start is removed, each once, and what the pending entity puts in
after the first deletion stays. What is neither found nor touched by that addition is left as it
was. -/
theorem removeMatching_pending {s : OrderedStore} (hs : Consistent s)
    (hp : p.needsSearch = false) {q : Entity} (hq : q.isPattern = false) : ∃ found t,
    matchPattern s p = .ok found ∧
    removeMatching p (⟨s, some q⟩ : PendingStore) = (.ok found.toList.length, t) ∧
    (found.toList = [] → t.inner = s) ∧
    ∀ m rest, found.toList = m :: rest → ∃ before after,
      delete m s = (.ok true, before) ∧ add q before = (.ok q, after) ∧
      (∀ e, contains before e = .ok false → contains after e = .ok true →
        contains t e = .ok true) ∧
      ∀ e ∉ found.toList, SameAt before after e → SameAt s t.inner e := by
  obtain ⟨found, hfound, hnodup, hstored, -⟩ := found_eq_ok hs p
  obtain ⟨d, hremove, -, hnone, hsome⟩ := removeMatching_disturbed hs hfound hnodup hstored hq
  have hforgets := forgets_removeMatching hp ⟨s, some q, []⟩
  rw [hremove] at hforgets
  refine ⟨found, ofDisturbed d, hfound, hforgets, hnone, fun m rest hlist => ?_⟩
  obtain ⟨before, after, hdelete, hadd, hnew, hkept, -⟩ := hsome m rest hlist
  exact ⟨before, after, hdelete, hadd, hnew, hkept⟩

end PendingStore

end SemanticHypergraph
