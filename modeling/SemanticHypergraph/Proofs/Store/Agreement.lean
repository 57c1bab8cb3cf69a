import SemanticHypergraph.Proofs.Store.Capture
import SemanticHypergraph.Proofs.Store.Operation
import SemanticHypergraph.Proofs.Store.Removal

/-!
# Stores with the same content

Two stores are alike if they are consistent and have the same name, policy and content. Alike lawful
stores answer every query in the same way, apart from the order in which they list entities, and a
call that is built from the contract leaves them alike. How two updates agree is passed on from the
parts of an update to the whole, so an operation is followed along its definition.
-/
namespace SemanticHypergraph

open SemanticHypergraph.Hypergraph LawfulHypergraph

namespace Entity

mutual

/-- The atoms that an entity adds do not depend on what is there already. -/
theorem mem_addAtoms (set : Std.ExtTreeSet Atom) (a : Atom) :
    (e : Entity) → (a ∈ addAtoms set e ↔ a ∈ set ∨ a ∈ addAtoms ∅ e)
  | .atom b => by simp [addAtoms, or_comm]
  | .edge cs => mem_addAtomsOf set a cs

theorem mem_addAtomsOf (set : Std.ExtTreeSet Atom) (a : Atom) :
    (es : List Entity) → (a ∈ addAtomsOf set es ↔ a ∈ set ∨ a ∈ addAtomsOf ∅ es)
  | [] => by simp [addAtomsOf]
  | e :: es => by
    rw [addAtomsOf, addAtomsOf, mem_addAtomsOf (addAtoms set e) a es,
      mem_addAtomsOf (addAtoms ∅ e) a es, mem_addAtoms set a e, or_assoc]

end

/-- An atom is collected from entities if one of them holds it somewhere. -/
theorem mem_foldl_addAtoms {set : Std.ExtTreeSet Atom} {es : List Entity} {a : Atom} :
    a ∈ es.foldl addAtoms set ↔ a ∈ set ∨ ∃ e ∈ es, a ∈ addAtoms ∅ e := by
  induction es generalizing set with
  | nil => simp
  | cons e es ih =>
    rw [List.foldl_cons, ih, mem_addAtoms, or_assoc, List.exists_mem_cons_iff]

end Entity

/-- The same members, each once in either list. -/
def SameMembers {α : Type} (xs ys : List α) : Prop :=
  xs.Nodup ∧ ys.Nodup ∧ ∀ x, x ∈ xs ↔ x ∈ ys

/-- Both results are errors, and the same, or both are values that are related. -/
inductive ResultsAgree {α β : Type} (R : α → β → Prop) : Except Error α → Except Error β → Prop
  | ok {a : α} {b : β} (h : R a b) : ResultsAgree R (.ok a) (.ok b)
  | error (e : Error) : ResultsAgree R (.error e) (.error e)

section SameMembers

variable {α β : Type} {xs ys : List α}

theorem SameMembers.perm (h : SameMembers xs ys) : xs.Perm ys :=
  (List.perm_ext_iff_of_nodup h.1 h.2.1).2 h.2.2

theorem SameMembers.filter (h : SameMembers xs ys) (p : α → Bool) :
    SameMembers (xs.filter p) (ys.filter p) := by
  refine ⟨h.1.filter p, h.2.1.filter p, fun x => ?_⟩
  rw [List.mem_filter, List.mem_filter, h.2.2]

theorem SameMembers.map (h : SameMembers xs ys) {f : α → β} (hf : Function.Injective f) :
    SameMembers (xs.map f) (ys.map f) := by
  refine ⟨h.1.map hf, h.2.1.map hf, fun x => ?_⟩
  exact (h.perm.map f).mem_iff

theorem sameMembers_refl (h : xs.Nodup) : SameMembers xs xs := ⟨h, h, fun _ => Iff.rfl⟩

end SameMembers

section Results

variable {α β γ δ : Type} {R : α → β → Prop} {S : γ → δ → Prop}

theorem ResultsAgree.of_eq {x y : Except Error α} (h : x = y) : ResultsAgree Eq x y := by
  subst h
  cases x with
  | ok a => exact .ok rfl
  | error e => exact .error e

theorem ResultsAgree.map {x : Except Error α} {y : Except Error β} {f : α → γ} {g : β → δ}
    (h : ResultsAgree R x y) (hfg : ∀ a b, R a b → S (f a) (g b)) :
    ResultsAgree S (x.map f) (y.map g) := by
  cases h with
  | ok hab => exact .ok (hfg _ _ hab)
  | error e => exact .error e

theorem ResultsAgree.bind {x : Except Error α} {y : Except Error β} {f : α → Except Error γ}
    {g : β → Except Error δ} (h : ResultsAgree R x y)
    (hfg : ∀ a b, R a b → ResultsAgree S (f a) (g b)) :
    ResultsAgree S (x >>= f) (y >>= g) := by
  cases h with
  | ok hab => exact hfg _ _ hab
  | error e => exact .error e

end Results

variable {σ τ : Type} [Hypergraph σ] [Hypergraph τ] [LawfulHypergraph σ] [LawfulHypergraph τ]

/-- Two consistent stores with the same name, policy and content. -/
structure Alike (s : σ) (t : τ) : Prop where
  left : Consistent s
  right : Consistent t
  name : Hypergraph.name s = Hypergraph.name t
  policy : StoreView.policy s = StoreView.policy t
  content : content s = content t

/-- The updates give related results in alike stores and leave them alike. -/
def UpdatesAgree {α β : Type} (R : α → β → Prop) (u : Update σ α) (v : Update τ β) : Prop :=
  ∀ (s : σ) (t : τ), Alike s t → ResultsAgree R (u s).1 (v t).1 ∧ Alike (u s).2 (v t).2

section Updates

variable {α β γ δ : Type} {R : α → β → Prop} {S : γ → δ → Prop}

theorem UpdatesAgree.pure {a : α} {b : β} (h : R a b) :
    UpdatesAgree R (pure a : Update σ α) (pure b : Update τ β) :=
  fun _ _ hst => ⟨.ok h, hst⟩

theorem UpdatesAgree.throw (e : Error) :
    UpdatesAgree R (throw e : Update σ α) (throw e : Update τ β) :=
  fun _ _ hst => ⟨.error e, hst⟩

theorem UpdatesAgree.ask {q : σ → Except Error α} {r : τ → Except Error β}
    (h : ∀ s t, Alike s t → ResultsAgree R (q s) (r t)) :
    UpdatesAgree R (Update.ask q) (Update.ask r) :=
  fun _ _ hst => ⟨h _ _ hst, hst⟩

theorem UpdatesAgree.bind {u : Update σ α} {v : Update τ β} {f : α → Update σ γ}
    {g : β → Update τ δ} (h : UpdatesAgree R u v)
    (hfg : ∀ a b, R a b → UpdatesAgree S (f a) (g b)) :
    UpdatesAgree S (u >>= f) (v >>= g) := by
  intro s t hst
  obtain ⟨hresult, hafter⟩ := h s t hst
  rw [Update.bind_apply, Update.bind_apply]
  generalize u s = p at hresult hafter
  generalize v t = q at hresult hafter
  obtain ⟨x, s'⟩ := p
  obtain ⟨y, t'⟩ := q
  cases hresult with
  | ok hab => exact hfg _ _ hab _ _ hafter
  | error e => exact ⟨.error e, hafter⟩

/-- What realizes the same change of contents agrees. -/
theorem UpdatesAgree.of_realizes {u : Update σ α} {v : Update τ α}
    {w : PrimaryPolicy → Update Content α} (hu : Realizes u w) (hv : Realizes v w) :
    UpdatesAgree Eq u v := by
  intro s t hst
  refine ⟨.of_eq ?_, hu.consistent hst.left, hv.consistent hst.right, ?_, ?_, ?_⟩
  · rw [hu.result hst.left, hv.result hst.right, hst.policy, hst.content]
  · rw [hu.name hst.left, hv.name hst.right, hst.name]
  · rw [hu.policy hst.left, hv.policy hst.right, hst.policy]
  · rw [hu.content hst.left, hv.content hst.right, hst.policy, hst.content]

end Updates

/-! ## Queries -/

section Queries

variable {s : σ} {t : τ}

theorem Alike.order (h : Alike s t) : SameMembers (order s) (order t) := by
  refine ⟨nodup_order h.left, nodup_order h.right, fun e => ?_⟩
  rw [mem_order h.left, mem_order h.right, h.content]

theorem Alike.contains (h : Alike s t) (e : Entity) :
    ResultsAgree Eq (contains s e) (contains t e) := by
  rw [contains_eq h.left, contains_eq h.right, h.content]
  exact .ok rfl

theorem Alike.isPrimary (h : Alike s t) (e : Entity) :
    ResultsAgree Eq (isPrimary s e) (isPrimary t e) := by
  rw [isPrimary_eq h.left, isPrimary_eq h.right, h.content]
  exact .ok rfl

theorem Alike.entities (h : Alike s t) : ResultsAgree SameMembers (entities s) (entities t) := by
  rw [entities_eq h.left, entities_eq h.right]
  exact .ok h.order

theorem Alike.attributeOf (h : Alike s t) (e : Entity) (name : String) :
    ResultsAgree Eq (attributeOf s e name) (attributeOf t e name) := by
  rw [attributeOf_eq h.left, attributeOf_eq h.right, h.content]
  exact .ok rfl

theorem Alike.degree (h : Alike s t) (e : Entity) :
    ResultsAgree Eq (degree s e) (degree t e) := by
  rw [degree_eq h.left, degree_eq h.right, h.content]
  exact .ok ((h.order.filter _).perm.countP_eq _)

theorem Alike.star (h : Alike s t) (e : Entity) :
    ResultsAgree SameMembers (star s e none) (star t e none) := by
  rw [star_eq h.left, star_eq h.right]
  exact .ok (h.order.filter _)

/-- With a limit only the number of edges is the same. -/
theorem Alike.star_some (h : Alike s t) (e : Entity) (n : Nat) :
    ResultsAgree (fun xs ys => xs.length = ys.length) (Hypergraph.star s e (some n))
      (Hypergraph.star t e (some n)) := by
  rw [star_some_eq h.left, star_some_eq h.right]
  refine .ok ?_
  rw [List.length_take, List.length_take, (h.order.filter _).perm.length_eq]

theorem countWhere_perm (c : Content) (keep : Entity → Record → Bool) {es fs : List Entity}
    (h : es.Perm fs) : c.countWhere keep es = c.countWhere keep fs := h.countP_eq _

theorem Alike.counts (h : Alike s t) : ResultsAgree Eq (counts s) (counts t) := by
  rw [counts_eq h.left, counts_eq h.right, h.content]
  refine .ok ?_
  simp only [Content.counts, countWhere_perm _ _ h.order.perm]

theorem Alike.deepDegree (h : Alike s t) (e : Entity) :
    ResultsAgree Eq (deepDegree s e) (deepDegree t e) := by
  obtain ⟨es, hes, hmem, hdeg⟩ := deepDegree_eq h.left e
  obtain ⟨fs, hfs, hmem', hdeg'⟩ := deepDegree_eq h.right e
  have hsame : SameMembers es fs := by
    refine ⟨hes, hfs, fun p => ?_⟩
    rw [hmem, hmem', h.content]
  rw [hdeg, hdeg', h.content]
  exact .ok (hsame.perm.countP_eq _)

theorem Alike.lookupRoot (h : Alike s t) (root : String) :
    ResultsAgree Eq (lookupRoot s root) (lookupRoot t root) := by
  obtain ⟨as, has, hmem, hfound⟩ := lookupRoot_eq h.left root
  obtain ⟨bs, hbs, hmem', hfound'⟩ := lookupRoot_eq h.right root
  rw [hfound, hfound']
  refine .ok (has.ext hbs fun a => ?_)
  rw [hmem, hmem', h.content]

theorem Alike.lookupAtoms (h : Alike s t) (atoms : List Atom) (root : Option String) :
    ResultsAgree SameMembers (lookupAtoms s atoms root) (lookupAtoms t atoms root) := by
  rw [lookupAtoms_eq h.left, lookupAtoms_eq h.right]
  exact .ok (h.order.filter _)

theorem Alike.search (h : Alike s t) (template : Entity) :
    ResultsAgree SameMembers (search s template) (search t template) := by
  rw [search_eq h.left, search_eq h.right]
  exact .ok (h.order.filter _)

theorem Alike.attributes (h : Alike s t) :
    ResultsAgree SameMembers (attributes s) (attributes t) := by
  rw [attributes_eq h.left, attributes_eq h.right, h.content]
  refine .ok ((h.order.map ?_).filter _)
  intro e f hef
  exact congrArg Prod.fst hef

/-- Selections with the same test and the same candidates. -/
def SelectionsAgree (x y : Selection) : Prop :=
  x.sieve = y.sieve ∧ SameMembers x.candidates y.candidates

theorem SelectionsAgree.toList {x y : Selection} (h : SelectionsAgree x y) :
    SameMembers x.toList y.toList := by
  unfold Selection.toList
  rw [h.1]
  exact h.2.filter _

theorem Alike.matchPattern (h : Alike s t) (p : Pattern) :
    ResultsAgree SelectionsAgree (matchPattern s p) (matchPattern t p) := by
  cases p with
  | anyEntity => exact h.entities.map fun _ _ hes => ⟨rfl, hes⟩
  | anyAtom => exact h.entities.map fun _ _ hes => ⟨rfl, hes⟩
  | anyEdge => exact h.entities.map fun _ _ hes => ⟨rfl, hes⟩
  | atom a =>
    refine (h.contains (.atom a)).bind fun b _ hb => ?_
    subst hb
    cases b with
    | false => exact .ok ⟨rfl, sameMembers_refl List.nodup_nil⟩
    | true => exact .ok ⟨rfl, sameMembers_refl (List.nodup_singleton _)⟩
  | edge template =>
    simp only [Hypergraph.matchPattern]
    split
    · exact h.entities.map fun _ _ hes => ⟨rfl, hes⟩
    · exact (h.search template).map fun _ _ hes => ⟨rfl, hes⟩

theorem Alike.matchText (h : Alike s t) (text : String) :
    ResultsAgree SelectionsAgree (matchText s text) (matchText t text) := by
  unfold Hypergraph.matchText
  cases Pattern.parse text with
  | ok p => exact h.matchPattern p
  | error e => exact .error e

theorem Alike.ego (h : Alike s t) (center : Entity) :
    ResultsAgree Eq (ego s center) (ego t center) := by
  refine (h.star center).bind fun es fs hes => .ok ?_
  refine (ascending_toList _).ext (ascending_toList _) fun a => ?_
  simp only [Std.ExtTreeSet.mem_toList, Entity.mem_foldl_addAtoms, hes.2.2]

theorem Alike.atomsWithRoot (h : Alike s t) (root : String) :
    ResultsAgree Eq (atomsWithRoot s root) (atomsWithRoot t root) := by
  unfold Hypergraph.atomsWithRoot
  split
  · exact .ok rfl
  · exact h.lookupRoot root

theorem Alike.exportBytes (h : Alike s t) :
    ∃ bs, exportBytes s = .ok bs ∧ exportBytes t = .ok bs := by
  have hleft := exportBytes_eq h.left
  refine ⟨_, hleft, ?_⟩
  rw [exportBytes_congr h.left h.right h.name.symm h.content.symm, hleft]

end Queries

end SemanticHypergraph
