import SemanticHypergraph.Proofs.Entity.Containment
import SemanticHypergraph.Proofs.Store.Reachable
import SemanticHypergraph.Proofs.Store.Run

/-!
# The indexes of the ordered store

After any run of operations the two indexes of the ordered store have a row for a key exactly when
some stored entity belongs there, and in it exactly those entities. So whatever is looked up is the
sorted list of the stored entities that are asked for.
-/
namespace SemanticHypergraph

open SemanticHypergraph.Hypergraph LawfulHypergraph

/-- The list of all that has the property, in order and each once. -/
def Lists {κ : Type} [Ord κ] (P : κ → Prop) (xs : List κ) : Prop :=
  Ascending xs ∧ ∀ k, k ∈ xs ↔ P k

namespace Entity

mutual

theorem mem_addAtoms_empty (a : Atom) : (e : Entity) →
    (a ∈ addAtoms ∅ e ↔ .atom a = e ∨ Inside (.atom a) e)
  | .atom b => by
    rw [inside_iff, addAtoms, Std.ExtTreeSet.mem_insert, Std.compare_eq_iff_eq]
    simp [eq_comm]
  | .edge cs => by
    have hinside : Inside (.atom a) (.edge cs) ↔ ∃ c ∈ cs, .atom a = c ∨ Inside (.atom a) c :=
      inside_iff
    rw [addAtoms, mem_addAtomsOf_empty a cs, hinside]
    simp

theorem mem_addAtomsOf_empty (a : Atom) : (es : List Entity) →
    (a ∈ addAtomsOf ∅ es ↔ ∃ e ∈ es, .atom a = e ∨ Inside (.atom a) e)
  | [] => by simp [addAtomsOf]
  | e :: es => by
    rw [addAtomsOf, mem_addAtomsOf, mem_addAtoms_empty a e, mem_addAtomsOf_empty a es,
      List.exists_mem_cons_iff]

end

/-- An edge has no atom but those inside it. -/
theorem mem_addAtoms_edge {a : Atom} {e : Entity} (h : e.isEdge) :
    a ∈ addAtoms ∅ e ↔ Inside (.atom a) e := by
  rw [mem_addAtoms_empty, or_iff_right]
  rintro rfl
  cases h

theorem hasChildWithRoot_iff {e : Entity} {root : Option String} :
    e.hasChildWithRoot root ↔ ∀ r ∈ root, ∃ a, .atom a ∈ e.children ∧ a.root = r := by
  cases root with
  | none => simp [hasChildWithRoot]
  | some r =>
    have hchild : ∀ c : Entity, c.asAtom.map Atom.root = some r ↔ ∃ a, c = .atom a ∧ a.root = r := by
      intro c
      cases c <;> simp [asAtom]
    simp [hasChildWithRoot, hchild]

theorem joins_iff {atoms : List Atom} {root : Option String} {e : Entity} :
    e.joins atoms root ↔ atoms ≠ [] ∧ (∀ a ∈ atoms, .atom a ∈ e.children) ∧
      ∀ r ∈ root, ∃ a, .atom a ∈ e.children ∧ a.root = r := by
  rw [joins, Bool.and_eq_true, Bool.and_eq_true, hasChildWithRoot_iff, and_assoc]
  simp

end Entity

namespace Index

variable {κ ν : Type} [Ord κ] [Ord ν] [Std.TransOrd κ] [Std.TransOrd ν]

/-- No key is kept without members. -/
def Tight (i : Index κ ν) : Prop :=
  ∀ (k : κ) (members : Std.ExtTreeSet ν), i.rows[k]? = some members → members ≠ ∅

theorem tight_empty : (empty : Index κ ν).Tight := by
  intro k members h
  simp [empty] at h

variable {i : Index κ ν}

/-- A row is the set of all members of its key, of which there are some. -/
theorem Tight.getElem?_rows [Std.LawfulEqOrd ν] (h : i.Tight) {k : κ}
    {members : Std.ExtTreeSet ν} :
    i.rows[k]? = some members ↔ members ≠ ∅ ∧ ∀ v, v ∈ members ↔ v ∈ i.membersOf k := by
  constructor
  · intro hrow
    have hmembers : i.membersOf k = members := by simp [membersOf, hrow]
    exact ⟨h k members hrow, fun v => by rw [hmembers]⟩
  · rintro ⟨hne, hmem⟩
    have heq : members = i.membersOf k := Std.ExtTreeSet.ext_mem hmem
    subst heq
    cases hrow : i.rows[k]? with
    | some members => simp [membersOf, hrow]
    | none => exact absurd (by simp [membersOf, hrow]) hne

variable [DecidableEq κ] [Std.LawfulEqOrd κ]

theorem Tight.add (h : i.Tight) (k : κ) (v : ν) : (i.add k v).Tight := by
  intro l members hl
  simp only [Index.add, Std.ExtTreeMap.getElem?_insert, Std.compare_eq_iff_eq] at hl
  split at hl
  · cases hl
    exact Std.ExtTreeSet.insert_ne_empty
  · exact h l members hl

theorem Tight.remove (h : i.Tight) (k : κ) (v : ν) : (i.remove k v).Tight := by
  intro l members hl
  unfold Index.remove at hl
  simp only at hl
  -- A key goes with its last member.
  split at hl
  · simp only [Std.ExtTreeMap.getElem?_erase, Std.compare_eq_iff_eq] at hl
    split at hl
    · cases hl
    · exact h l members hl
  · next hmembers =>
    simp only [Std.ExtTreeMap.getElem?_insert, Std.compare_eq_iff_eq] at hl
    split at hl
    · cases hl
      exact fun hempty => hmembers (Std.ExtTreeSet.isEmpty_iff.2 hempty)
    · exact h l members hl

theorem Tight.foldl_add (h : i.Tight) (ks : List κ) (v : ν) :
    (ks.foldl (fun i k => i.add k v) i).Tight := by
  induction ks generalizing i with
  | nil => exact h
  | cons k ks ih => exact ih (h.add k v)

theorem Tight.foldl_remove (h : i.Tight) (ks : List κ) (v : ν) :
    (ks.foldl (fun i k => i.remove k v) i).Tight := by
  induction ks generalizing i with
  | nil => exact h
  | cons k ks ih => exact ih (h.remove k v)

end Index

namespace OrderedStore

variable {s : OrderedStore} {e : Entity}

/-- Neither index keeps a key without members. -/
structure Tight (s : OrderedStore) : Prop where
  parents : s.parents.Tight
  roots : s.roots.Tight

theorem tight_empty (name : String) (policy : PrimaryPolicy) : (empty name policy).Tight :=
  ⟨Index.tight_empty, Index.tight_empty⟩

theorem Tight.link (h : s.Tight) (e : Entity) : (s.link e).Tight := by
  cases e with
  | atom a => exact ⟨h.parents, h.roots.add a.root a⟩
  | edge cs => exact ⟨h.parents.foldl_add cs (.edge cs), h.roots⟩

theorem Tight.unlink (h : s.Tight) (e : Entity) : (s.unlink e).Tight := by
  cases e with
  | atom a => exact ⟨h.parents, h.roots.remove a.root a⟩
  | edge cs => exact ⟨h.parents.foldl_remove cs (.edge cs), h.roots⟩

/-- The indexes do not depend on the records. -/
theorem Tight.withRecords (h : s.Tight) (records : Std.ExtTreeMap Entity Record) :
    Tight { s with records := records } := ⟨h.parents, h.roots⟩

theorem Tight.insert (h : s.Tight) (isPrimary : Bool) :
    (Hypergraph.insert e isPrimary s).2.Tight := by
  simp only [Hypergraph.insert, OrderedStore.insert]
  cases s.records[e]? with
  | some r => exact h.withRecords _
  | none =>
    cases s.missingChild? e with
    | some child => exact h
    | none => exact (h.link e).withRecords _

theorem Tight.delete (h : s.Tight) : (Hypergraph.delete e s).2.Tight := by
  simp only [Hypergraph.delete, OrderedStore.delete]
  cases s.contains e with
  | true => exact (h.unlink e).withRecords _
  | false => exact h

/-- The step: every change keeps the indexes tight. -/
theorem Tight.perform (h : s.Tight) (c : Change) : (c.perform s).2.Tight := by
  cases c with
  | insert e isPrimary =>
    rw [Change.state_insert]
    exact h.insert isPrimary
  | delete e =>
    rw [Change.state_delete]
    exact h.delete
  | setPrimary e isPrimary =>
    rw [Change.state_setPrimary]
    simp only [Hypergraph.setPrimary, OrderedStore.setPrimary]
    cases s.records[e]? with
    | some r => exact h.withRecords _
    | none => exact h
  | setAttribute e name value =>
    rw [Change.state_setAttribute]
    simp only [Hypergraph.setAttribute, OrderedStore.setAttribute]
    cases s.records[e]? with
    | some r => exact h.withRecords _
    | none => exact h
  | stepAttribute e name step =>
    rw [Change.state_stepAttribute]
    simp only [Hypergraph.stepAttribute, OrderedStore.stepAttribute]
    cases s.records[e]? with
    | some r =>
      cases hv : Value.stepped r.attributes[name]? name step with
      | ok value =>
        simp only [hv]
        exact h.withRecords _
      | error error =>
        simp only [hv]
        exact h
    | none => exact h
  | destroy =>
    rw [Change.state_destroy]
    exact tight_empty s.name s.policy
  | close => exact h

/-- The run, by induction on the changes. -/
theorem Tight.run (h : s.Tight) (cs : List Change) : (Change.run cs s).Tight := by
  induction cs generalizing s with
  | nil => exact h
  | cons c cs ih => exact ih (h.perform c)

/-! ## Look-ups -/

theorem lists_star (hs : s.Consistent) (x : Entity) :
    Lists (fun p => p ∈ s.records ∧ x ∈ p.children) (s.parents.get x) :=
  ⟨s.parents.ascending_get x, fun _ => Index.mem_get.trans hs.mem_parents⟩

theorem lists_ego (hs : s.Consistent) (x : Entity) : ∃ as, ego s x = .ok as ∧
    Lists (fun a => ∃ p ∈ s.parents.get x, (Entity.atom a).Inside p) as := by
  refine ⟨_, rfl, ascending_toList _, fun a => ?_⟩
  rw [Std.ExtTreeSet.mem_toList, Entity.mem_foldl_addAtoms]
  have hedge : ∀ p ∈ s.parents.get x, (a ∈ Entity.addAtoms ∅ p ↔ (Entity.atom a).Inside p) := by
    intro p hp
    exact Entity.mem_addAtoms_edge (Entity.isEdge_of_mem_children ((lists_star hs x).2 p |>.1 hp).2)
  constructor
  · rintro (hempty | ⟨p, hp, ha⟩)
    · exact absurd hempty (by simp)
    · exact ⟨p, hp, (hedge p hp).1 ha⟩
  · rintro ⟨p, hp, ha⟩
    exact .inr ⟨p, hp, (hedge p hp).2 ha⟩

theorem lists_atomsWithRoot (hs : s.Consistent) (root : String) : ∃ as,
    atomsWithRoot s root = .ok as ∧
      Lists (fun a => root ≠ "" ∧ .atom a ∈ s.records ∧ a.root = root) as := by
  unfold atomsWithRoot
  split
  · next hempty =>
    have hroot : root = "" := by simpa using hempty
    exact ⟨[], rfl, .nil, by simp [hroot]⟩
  · next hne =>
    have hroot : root ≠ "" := by simpa using hne
    refine ⟨s.roots.get root, rfl, s.roots.ascending_get root, fun a => ?_⟩
    rw [Index.mem_get, hs.mem_roots]
    simp [hroot]

theorem lists_edgesWithAtoms (hs : s.Consistent) (atoms : List Atom) (root : Option String) :
    ∃ es, edgesWithAtoms s atoms root = .ok es ∧
      Lists (fun p => p ∈ s.records ∧ atoms ≠ [] ∧ (∀ a ∈ atoms, .atom a ∈ p.children) ∧
        ∀ r ∈ root, ∃ a, .atom a ∈ p.children ∧ a.root = r) es := by
  refine ⟨s.entities.filter (Entity.joins atoms root), ?_, (ascending_entities s).filter _, ?_⟩
  · exact congrArg _ (lookupAtoms_eq_filter hs atoms root)
  · intro p
    rw [List.mem_filter, mem_entities, ← mem_records, Entity.joins_iff]

/-- After any run of operations each index has a row just where a stored entity belongs, with exactly
the stored edges that hold the key or the stored atoms that have it as root, and every look-up gives
what is stored of the kind asked for, in order and each once. -/
theorem indexes_after_run (name : String) (policy : PrimaryPolicy) (ops : List Operation) :
    let s := Operation.run ops (empty name policy)
    (∀ x members, s.parents.rows[x]? = some members ↔
      members ≠ ∅ ∧ ∀ p, p ∈ members ↔ p ∈ s.records ∧ x ∈ p.children) ∧
    (∀ root members, s.roots.rows[root]? = some members ↔
      members ≠ ∅ ∧ ∀ a, a ∈ members ↔ .atom a ∈ s.records ∧ a.root = root) ∧
    (∀ x, ∃ es, Hypergraph.star s x none = .ok es ∧
      Lists (fun p => p ∈ s.records ∧ x ∈ p.children) es ∧
      (∀ n, Hypergraph.star s x (some n) = .ok (es.take n)) ∧
      Hypergraph.degree s x = .ok (es.countP fun p => s.records[p]?.any Record.isPrimary) ∧
      ∃ as, ego s x = .ok as ∧ Lists (fun a => ∃ p ∈ es, (Entity.atom a).Inside p) as) ∧
    (∀ root, ∃ as, atomsWithRoot s root = .ok as ∧
      Lists (fun a => root ≠ "" ∧ .atom a ∈ s.records ∧ a.root = root) as) ∧
    ∀ atoms root, ∃ es, edgesWithAtoms s atoms root = .ok es ∧
      Lists (fun p => p ∈ s.records ∧ atoms ≠ [] ∧ (∀ a ∈ atoms, .atom a ∈ p.children) ∧
        ∀ r ∈ root, ∃ a, .atom a ∈ p.children ∧ a.root = r) es := by
  intro s
  have hempty : SemanticHypergraph.Consistent (empty name policy) := consistent_empty name policy
  have hs : s.Consistent := Operation.consistent_run ops hempty
  have htight : s.Tight := by
    obtain ⟨cs, hcs⟩ := Operation.run_eq_run ops (empty name policy)
    have hrun := (tight_empty name policy).run cs
    rw [← hcs] at hrun
    exact hrun
  refine ⟨fun x members => ?_, fun root members => ?_, fun x => ?_, lists_atomsWithRoot hs,
    lists_edgesWithAtoms hs⟩
  · rw [htight.parents.getElem?_rows]
    simp only [hs.mem_parents]
  · rw [htight.roots.getElem?_rows]
    simp only [hs.mem_roots]
  · exact ⟨s.parents.get x, rfl, lists_star hs x, fun n => rfl, rfl, lists_ego hs x⟩

end OrderedStore

end SemanticHypergraph
