import Mathlib.Logic.Function.Iterate
import SemanticHypergraph.Proofs.Pattern.Fits

/-!
# Draining a selection

A selection is used up by asking for the next entity again and again. What comes in this way is what
its test lets through, in the order of the candidates and as often as it is among them. So each call
gives the next one of these, and however many calls have been made, the bounds on what is still to
come are right.
-/
namespace SemanticHypergraph.Selection

variable {s t : Selection} {c : Entity}

/-- What is still to come is the next entity and what comes after it. -/
theorem toList_eq_next? (s : Selection) :
    s.toList = match s.next? with
      | none => []
      | some (c, rest) => c :: rest.toList := by
  obtain ⟨candidates, sieve⟩ := s
  induction candidates with
  | nil => rfl
  | cons c candidates ih =>
    cases hc : sieve.accepts c with
    | true => simp [toList, next?, hc]
    | false =>
      have hskip : next? ⟨c :: candidates, sieve⟩ = next? ⟨candidates, sieve⟩ := by
        simp [next?, hc]
      rw [hskip, ← ih]
      simp [toList, hc]

theorem length_candidates_lt (h : s.next? = some (c, t)) :
    t.candidates.length < s.candidates.length := by
  unfold next? at h
  split at h
  · cases h
  · next rest hrest =>
    cases h
    have hsuffix : (c :: rest) <:+ s.candidates := by
      rw [← hrest]
      exact List.dropWhile_suffix _
    exact hsuffix.length_le

/-- Everything that comes until nothing does any more. -/
def drain (s : Selection) : List Entity :=
  match _h : s.next? with
  | none => []
  | some (c, rest) => c :: rest.drain
termination_by s.candidates.length
decreasing_by exact length_candidates_lt _h

/-- The selection after one call; at its end no candidate is left. -/
def advance (s : Selection) : Selection :=
  match s.next? with
  | none => { s with candidates := [] }
  | some (_, rest) => rest

theorem drain_eq_toList (s : Selection) : s.drain = s.toList := by
  fun_induction drain s with
  | case1 s h => rw [toList_eq_next?, h]
  | case2 s c rest h ih => rw [toList_eq_next? s, h, ih]

theorem map_fst_next? (s : Selection) : s.next?.map Prod.fst = s.toList[0]? := by
  rw [toList_eq_next?]
  cases s.next? <;> rfl

/-- The step: a call takes away the first of what is still to come. -/
theorem toList_advance (s : Selection) : s.advance.toList = s.toList.drop 1 := by
  rw [toList_eq_next? s, advance]
  cases s.next? <;> rfl

/-- The run, by induction on the number of calls. -/
theorem toList_iterate_advance (s : Selection) (n : Nat) :
    (advance^[n] s).toList = s.toList.drop n := by
  induction n with
  | zero => rfl
  | succ n ih => rw [Function.iterate_succ_apply', toList_advance, ih, List.drop_drop]

/-- Whichever test is chosen for a template, draining gives the candidates that fit it, in order and
as often as they are there. Call number `n` gives the one at position `n`, if there is one; after it
just those behind are still to come, and the bounds enclose their number. -/
theorem drain_instances (candidates : List Entity) (template : Entity) :
    let s := instances candidates template
    let fitting := candidates.filter fun c => c.fits template
    s.drain = fitting ∧ ∀ n, let t := advance^[n] s
      t.next?.map Prod.fst = fitting[n]? ∧ t.drain = fitting.drop n ∧
        t.sizeBounds.1 ≤ t.drain.length ∧ t.drain.length ≤ t.sizeBounds.2 := by
  intro s fitting
  have hlist : s.toList = fitting :=
    List.filter_congr fun c _ => Sieve.accepts_ofTemplate template c
  refine ⟨(drain_eq_toList s).trans hlist, fun n => ?_⟩
  intro t
  have hrest : t.toList = fitting.drop n := by
    rw [← hlist]
    exact toList_iterate_advance s n
  refine ⟨?_, ?_, ?_⟩
  · rw [map_fst_next?, hrest, List.getElem?_drop, Nat.add_zero]
  · rw [drain_eq_toList, hrest]
  · rw [drain_eq_toList]
    exact t.sizeBounds_enclose

end SemanticHypergraph.Selection
