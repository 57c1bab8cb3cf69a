import SemanticHypergraph.Proofs.Store.Canonical
import SemanticHypergraph.Proofs.Store.Indexes
import SemanticHypergraph.Proofs.Store.Restoring

/-!
# Adding in any order

What one addition fills in, the next one finds, so two additions meet different stores when they are
swapped. In the end this does not show under a policy that takes no mark away: what was added has
the marks that were asked for, and besides it just those entities are new that were lacking below
what was added. An ordered store shows nothing but that, down to its indexes.
-/
namespace SemanticHypergraph

open SemanticHypergraph.Hypergraph LawfulHypergraph

namespace Content

/-- The content after the entities were added one by one under a policy that preserves marks, each
with the mark that was asked for it. -/
noncomputable def allAdded (c : Content) (calls : List (Entity × Bool)) : Content := fun x =>
  if x ∈ calls.map Prod.fst then
    some ⟨c.isPrimary x || decide ((x, true) ∈ calls), c.attributesOf x⟩
  else c.fill (calls.flatMap fun call => call.1.children) x

variable {c : Content} {e x : Entity}

theorem addedRecord_preserve (c : Content) (isPrimary : Bool) (e : Entity) :
    c.addedRecord .preserve isPrimary e = ⟨c.isPrimary e || isPrimary, c.attributesOf e⟩ := by
  cases he : c e <;>
    simp [addedRecord, Content.isPrimary, attributesOf, he, PrimaryPolicy.resolve]

theorem isPrimary_fill (es : List Entity) : (c.fill es).isPrimary x = c.isPrimary x := by
  by_cases h : c.Lacks es x
  · simp [Content.isPrimary, fill_of_lacks h, h.eq_none]
  · simp [Content.isPrimary, fill_of_not_lacks h]

theorem isPrimary_added_of_ne (hx : x ≠ e) (policy : PrimaryPolicy) (isPrimary : Bool) :
    (c.added policy isPrimary e).isPrimary x = c.isPrimary x := by
  rw [Content.isPrimary, added, put_of_ne hx]
  exact isPrimary_fill _

theorem attributesOf_added (policy : PrimaryPolicy) (isPrimary : Bool) :
    (c.added policy isPrimary e).attributesOf x = c.attributesOf x := by
  by_cases hx : x = e
  · subst hx
    rw [attributesOf, added, put_self]
    exact c.attributes_addedRecord policy isPrimary x
  · rw [attributesOf, added, put_of_ne hx]
    exact attributesOf_fill

theorem allAdded_of_mem {calls : List (Entity × Bool)} (h : x ∈ calls.map Prod.fst) :
    c.allAdded calls x =
      some ⟨c.isPrimary x || decide ((x, true) ∈ calls), c.attributesOf x⟩ := if_pos h

theorem allAdded_of_not_mem {calls : List (Entity × Bool)} (h : x ∉ calls.map Prod.fst) :
    c.allAdded calls x = c.fill (calls.flatMap fun call => call.1.children) x := if_neg h

theorem allAdded_nil (c : Content) : c.allAdded [] = c := by
  funext x
  rw [allAdded_of_not_mem List.not_mem_nil, List.flatMap_nil, fill_nil]

/-- The step: one addition before the others. -/
theorem allAdded_added (c : Content) (isPrimary : Bool) (e : Entity)
    (calls : List (Entity × Bool)) :
    (c.added .preserve isPrimary e).allAdded calls = c.allAdded ((e, isPrimary) :: calls) := by
  funext x
  by_cases hx : x = e
  · subst hx
    have hself : c.added .preserve isPrimary x x =
        some ⟨c.isPrimary x || isPrimary, c.attributesOf x⟩ := by
      rw [added, put_self, addedRecord_preserve]
    have hmark : (c.added .preserve isPrimary x).isPrimary x = (c.isPrimary x || isPrimary) := by
      rw [Content.isPrimary, hself]
      rfl
    rw [c.allAdded_of_mem (by simp : x ∈ ((x, isPrimary) :: calls).map Prod.fst)]
    by_cases hmem : x ∈ calls.map Prod.fst
    · rw [allAdded_of_mem hmem, hmark, attributesOf_added]
      simp [Bool.or_assoc]
    · -- The record stays as the addition leaves it.
      have hnot : (x, true) ∉ calls := fun h => hmem (List.mem_map_of_mem h)
      rw [allAdded_of_not_mem hmem, fill_of_some hself]
      simp [hnot]
  · have hiff : x ∈ ((e, isPrimary) :: calls).map Prod.fst ↔ x ∈ calls.map Prod.fst := by
      simp [hx]
    by_cases hmem : x ∈ calls.map Prod.fst
    · rw [allAdded_of_mem hmem, allAdded_of_mem (hiff.2 hmem), isPrimary_added_of_ne hx,
        attributesOf_added]
      simp [hx]
    · rw [allAdded_of_not_mem hmem, allAdded_of_not_mem (mt hiff.1 hmem), added,
        fill_put (fun y hy => isStored_fill_of_mem hy) hx, fill_fill, List.flatMap_cons]

theorem allAdded_perm (c : Content) {calls calls' : List (Entity × Bool)}
    (h : calls.Perm calls') : c.allAdded calls = c.allAdded calls' := by
  have hfill : c.fill (calls.flatMap fun call => call.1.children) =
      c.fill (calls'.flatMap fun call => call.1.children) := by
    refine fill_congr fun x => ?_
    simp only [List.mem_flatMap, h.mem_iff]
  funext x
  simp only [allAdded, hfill, h.mem_iff, List.mem_map]

end Content

/-- The calls that add the entities one by one, each with the mark asked for. -/
def Operation.adds (calls : List (Entity × Bool)) : List Operation :=
  calls.map fun call => .addWith call.1 call.2

/-- The run, by induction on the calls: those with a pattern token are refused, the others leave
what was asked for. -/
theorem run_adds {σ : Type} [Hypergraph σ] [LawfulHypergraph σ] {s : σ} (hs : Consistent s)
    (hpolicy : StoreView.policy s = .preserve) (calls : List (Entity × Bool)) :
    let t := Operation.run (Operation.adds calls) s
    Consistent t ∧ name t = name s ∧ StoreView.policy t = StoreView.policy s ∧
      content t = (content s).allAdded (calls.filter fun call => !call.1.isPattern) := by
  induction calls generalizing s with
  | nil => exact ⟨hs, rfl, rfl, (content s).allAdded_nil.symm⟩
  | cons call calls ih =>
    obtain ⟨e, isPrimary⟩ := call
    have hstate : ((Operation.addWith e isPrimary).perform s).2 = (addWith e isPrimary s).2 :=
      Update.state_map _ _ s
    simp only [Operation.adds, List.map_cons, Operation.run, List.foldl_cons, hstate] at ih ⊢
    cases he : e.isPattern with
    | true =>
      rw [addWith_eq_throw he, List.filter_cons_of_neg (by simp [he])]
      exact ih hs hpolicy
    | false =>
      obtain ⟨t, hadd, ht, hname, hsame, hcontent⟩ := yields_addWith hs he isPrimary
      rw [hadd, List.filter_cons_of_pos (by simp [he]), ← Content.allAdded_added, ← hpolicy,
        ← hcontent]
      obtain ⟨hu, hname', hsame', hcontent'⟩ := ih ht (hsame.trans hpolicy)
      exact ⟨hu, hname'.trans hname, hsame'.trans hsame, hcontent'⟩

/-! ## Ordered stores with one content -/

theorem Index.Tight.ext {κ ν : Type} [Ord κ] [Ord ν] [Std.TransOrd κ] [Std.TransOrd ν]
    [Std.LawfulEqOrd κ] [Std.LawfulEqOrd ν] {i j : Index κ ν} (hi : i.Tight) (hj : j.Tight)
    (h : ∀ k v, v ∈ i.membersOf k ↔ v ∈ j.membersOf k) : i = j := by
  have hrows : i.rows = j.rows := by
    refine Std.ExtTreeMap.ext_getElem? fun {k} => ?_
    refine Option.ext fun members => ?_
    rw [hi.getElem?_rows, hj.getElem?_rows]
    simp only [h k]
  cases i
  cases j
  exact congrArg Index.mk hrows

namespace OrderedStore

variable {s t : OrderedStore}

/-- Consistent indexes without empty rows are determined by what is stored. -/
theorem Tight.ext (hs : s.Tight) (ht : t.Tight) (hconsistent : s.Consistent)
    (hconsistent' : t.Consistent) (hname : s.name = t.name) (hpolicy : s.policy = t.policy)
    (hcontent : s.content = t.content) : s = t := by
  have hrecords : s.records = t.records :=
    Std.ExtTreeMap.ext_getElem? fun {e} => congrFun hcontent e
  have hparents : s.parents = t.parents := by
    refine hs.parents.ext ht.parents fun c p => ?_
    rw [hconsistent.mem_parents, hconsistent'.mem_parents, hrecords]
  have hroots : s.roots = t.roots := by
    refine hs.roots.ext ht.roots fun root a => ?_
    rw [hconsistent.mem_roots, hconsistent'.mem_roots, hrecords]
  cases s
  cases t
  cases hname
  cases hpolicy
  cases hrecords
  cases hparents
  cases hroots
  rfl

end OrderedStore

namespace Store

theorem perform_ordered (c : Change) (s : OrderedStore) :
    (c.perform (ordered s)).2 = ordered (c.perform s).2 := by
  cases c <;> simp <;> rfl

theorem run_ordered (cs : List Change) (s : OrderedStore) :
    Change.run cs (ordered s) = ordered (Change.run cs s) := by
  induction cs generalizing s with
  | nil => rfl
  | cons c cs ih =>
    rw [Change.run, List.foldl_cons, perform_ordered]
    exact ih _

theorem Reachable.tight {s : OrderedStore} (h : (ordered s).Reachable) : s.Tight := by
  generalize ht : ordered s = t at h
  induction h generalizing s with
  | empty backend name policy =>
    cases backend with
    | memory =>
      cases ht
      exact OrderedStore.tight_empty name policy
    | file => cases ht
  | @perform t op _ ih =>
    obtain ⟨cs, hcs⟩ := op.exists_run t
    cases t with
    | ordered t =>
      rw [hcs, run_ordered] at ht
      cases ht
      exact (ih rfl).run cs
    | numbered t =>
      have hbackend := backend_perform op (numbered t)
      rw [← ht] at hbackend
      cases hbackend
  | reopened name policy _ _ => cases ht

/-- A reachable store in memory is nothing but its name, its policy and its content. -/
theorem Reachable.eq_of_content {s t : Store} (hs : s.Reachable) (ht : t.Reachable)
    (hmemory : s.backend = .memory) (hmemory' : t.backend = .memory) (hname : name s = name t)
    (hpolicy : s.policy = t.policy) (hcontent : content s = content t) : s = t := by
  cases s with
  | numbered s => cases hmemory
  | ordered s =>
    cases t with
    | numbered t => cases hmemory'
    | ordered t =>
      exact congrArg ordered
        (hs.tight.ext ht.tight hs.consistent ht.consistent hname hpolicy hcontent)

/-- Under the policy that preserves marks a list of additions, some of which may be refused, leaves
every reachable store the same in whatever order they are made: what is stored, every mark, every
attribute and the exported file, and of a store in memory everything that is kept, with the indexes.
-/
theorem Reachable.addWith_perm {s : Store} (hs : s.Reachable) (hpolicy : s.policy = .preserve)
    {calls calls' : List (Entity × Bool)} (h : calls.Perm calls') :
    let t := Operation.run (Operation.adds calls) s
    let t' := Operation.run (Operation.adds calls') s
    (∀ e, contains t e = contains t' e ∧ isPrimary t e = isPrimary t' e ∧
      ∀ key, attributeOf t e key = attributeOf t' e key) ∧
    (∃ bytes, exportBytes t = .ok bytes ∧ exportBytes t' = .ok bytes) ∧
    (s.backend = .memory → t = t') := by
  intro t t'
  obtain ⟨ht, hname, hsame, hcontent⟩ := run_adds hs.consistent hpolicy calls
  obtain ⟨ht', hname', hsame', hcontent'⟩ := run_adds hs.consistent hpolicy calls'
  have hequal : content t = content t' := by
    rw [hcontent, hcontent', (content s).allAdded_perm (h.filter _)]
  refine ⟨fun e => ⟨?_, ?_, fun key => ?_⟩, ?_, fun hmemory => ?_⟩
  · rw [contains_eq ht, contains_eq ht', hequal]
  · rw [isPrimary_eq ht, isPrimary_eq ht', hequal]
  · rw [attributeOf_eq ht, attributeOf_eq ht', hequal]
  · refine ⟨_, exportBytes_eq ht, ?_⟩
    rw [← exportBytes_eq ht]
    exact exportBytes_congr ht ht' (hname'.trans hname.symm) hequal.symm
  · have hbackend : ∀ ops, (Operation.run ops s).backend = .memory := by
      intro ops
      obtain ⟨cs, hcs⟩ := Operation.run_eq_run ops s
      rw [hcs, backend_run, hmemory]
    exact (hs.run _).eq_of_content (hs.run _) (hbackend _) (hbackend _) (hname.trans hname'.symm)
      (hsame.trans hsame'.symm) hequal

end Store

/-- The gap below a stored edge is closed by whichever addition comes first. -/
theorem addWith_perm_gap :
    let a : Entity := .atom { root := "a" }
    let p : Entity := .atom { root := "p" }
    let star : Entity := .atom { root := "*" }
    let edge : Entity := .edge [p, a]
    let s := Operation.run [.add (.edge [p, edge]), .remove a]
      (Store.empty .memory "test" .preserve)
    let calls := [(edge, false), (star, true), (.edge [a, edge], true), (a, true)]
    s.policy = .preserve ∧ calls.Perm calls.reverse ∧
      Operation.run (Operation.adds calls) s = Operation.run (Operation.adds calls.reverse) s := by
  intro a p star edge s calls
  have hs : s.Reachable := (Store.Reachable.empty .memory "test" .preserve).run _
  have hpolicy : s.policy = .preserve := by decide +kernel
  have hperm : calls.Perm calls.reverse := (List.reverse_perm calls).symm
  have hmemory : s.backend = .memory := by decide +kernel
  exact ⟨hpolicy, hperm, (hs.addWith_perm hpolicy hperm).2.2 hmemory⟩

end SemanticHypergraph
