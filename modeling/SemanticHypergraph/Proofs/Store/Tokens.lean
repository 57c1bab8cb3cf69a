import SemanticHypergraph.Proofs.Snapshot.Decoding
import SemanticHypergraph.Proofs.Store.Adding

/-!
# Pattern tokens in a store

Adding refuses what holds a pattern token. Inserting and restoring look at nothing but whether the
children are stored, so through them a bare token gets in, and once it is stored whatever holds it
can follow. No call lets in a token in another way.
-/
namespace SemanticHypergraph

open SemanticHypergraph.Hypergraph LawfulHypergraph

variable {σ : Type} [Hypergraph σ]

/-- No stored entity is a pattern token or has one inside it. -/
def HasNoToken (s : σ) : Prop := ∀ e, contains s e = .ok true →
  ∀ a : Atom, a.isPatternToken → e ≠ .atom a ∧ ¬ Entity.Inside (.atom a) e

/-- What a call puts into the store without a look at what it is. -/
def Operation.placed : Operation → List Entity
  | change (.insert e _) => [e]
  | restore snapshot => snapshot.entries.map Snapshot.Entry.entity
  | importBytes bs =>
    match Snapshot.ofBytes bs with
    | .ok snapshot => snapshot.entries.map Snapshot.Entry.entity
    | .error _ => []
  | _ => []

/-- None of the entities is a bare pattern token; inside them there may be some. -/
def AvoidTokens (es : List Entity) : Prop := ∀ a : Atom, a.isPatternToken → .atom a ∉ es

namespace Content

/-- No stored entity holds a pattern token. -/
def IsTokenFree (c : Content) : Prop := ∀ e, c.isStored e → e.isPattern = false

variable {c : Content} {e : Entity} {r : Record}

theorem isTokenFree_empty : empty.IsTokenFree := by
  intro e he
  cases he

theorem ofStored_isTokenFree : OfStored IsTokenFree := by
  intro c d hsame h e he
  rw [← hsame] at he
  exact h e he

theorem ofStored_isStored (x : Entity) : OfStored (·.isStored x) := by
  intro c d hsame h
  rwa [← hsame]

theorem IsTokenFree.put (h : c.IsTokenFree) (he : e.isPattern = false) :
    (c.put e r).IsTokenFree := by
  intro x hx
  rcases isStored_put_iff.1 hx with rfl | hx
  · exact he
  · exact h x hx

theorem IsTokenFree.drop (h : c.IsTokenFree) : (c.drop e).IsTokenFree :=
  fun x hx => h x (isStored_drop.1 hx).2

/-- Over stored children only a bare token is a pattern. -/
theorem IsTokenFree.isPattern_eq_false (h : c.IsTokenFree)
    (hchildren : ∀ x ∈ e.children, c.isStored x) (he : AvoidTokens [e]) : e.isPattern = false := by
  rw [Bool.eq_false_iff]
  intro hpattern
  obtain ⟨a, ha, heq | hin⟩ := e.isPattern_iff.1 hpattern
  · exact he a ha (List.mem_singleton.2 heq.symm)
  · obtain ⟨child, hchild, hin⟩ := Entity.inside_iff.1 hin
    have hplain := h child (hchildren child hchild)
    rw [child.isPattern_iff.2 ⟨a, ha, hin.imp_left Eq.symm⟩] at hplain
    cases hplain

end Content

section Lawful

variable [LawfulHypergraph σ] {s : σ}

theorem hasNoToken_iff (hs : Consistent s) : HasNoToken s ↔ (content s).IsTokenFree := by
  simp only [HasNoToken, Content.IsTokenFree, contains_eq_true_iff hs, Bool.eq_false_iff, ne_eq,
    Entity.isPattern_iff, not_exists, not_and, not_or]

/-! ## What keeps tokens out -/

theorem tokenFree_insert {e : Entity} (he : AvoidTokens [e]) (isPrimary : Bool) :
    Update.Keeps (Has Content.IsTokenFree) (insert e isPrimary : Update σ Unit) :=
  (insert_realizes e isPrimary).keeps fun _ =>
    Content.keeps_insert_of_put Content.ofStored_isTokenFree fun _ _ h hchildren =>
      h.put (h.isPattern_eq_false hchildren he)

theorem tokenFree_delete (e : Entity) :
    Update.Keeps (Has Content.IsTokenFree) (delete e : Update σ Bool) :=
  (delete_realizes e).keeps fun _ _ h => h.drop

theorem tokenFree_destroy : Update.Keeps (Has Content.IsTokenFree) (destroy : Update σ Unit) :=
  destroy_realizes.keeps fun _ _ _ => Content.isTokenFree_empty

/-- What is inside an entity without tokens holds none either. -/
theorem tokenFree_addWith (e : Entity) (isPrimary : Bool) :
    Update.Keeps (Has Content.IsTokenFree) (addWith e isPrimary : Update σ Entity) := by
  rintro s ⟨hs, hfree⟩
  cases he : e.isPattern with
  | true =>
    rw [addWith_eq_throw he]
    exact ⟨hs, hfree⟩
  | false =>
    obtain ⟨t, hadd, ht, -, -, hcontent⟩ := yields_addWith hs he isPrimary
    rw [hadd]
    refine ⟨ht, fun x hx => ?_⟩
    rw [hcontent, Content.isStored_added] at hx
    rcases hx with rfl | hx | hx
    · exact he
    · exact hfree x hx
    · exact Entity.isPattern_of_inside hx.inside he

theorem AvoidTokens.singleton {es : List Entity} {e : Entity} (h : AvoidTokens es) (he : e ∈ es) :
    AvoidTokens [e] :=
  fun a ha hmem => h a ha (List.mem_singleton.1 hmem ▸ he)

theorem tokenFree_restore {snapshot : Snapshot}
    (h : AvoidTokens (snapshot.entries.map Snapshot.Entry.entity)) :
    Update.Keeps (Has Content.IsTokenFree) (snapshot.restore : Update σ Nat) :=
  keeps_restore (fun e => tokenFree_addWith e false) Content.ofStored_isTokenFree.setPrimary
    Content.ofStored_isTokenFree.setAttribute fun entry hentry =>
      tokenFree_insert (h.singleton (List.mem_map_of_mem hentry)) entry.isPrimary

theorem Change.tokenFree_perform {c : Change} (h : AvoidTokens (Operation.change c).placed) :
    Update.Keeps (Has Content.IsTokenFree) (c.perform : Update σ Answer) := by
  cases c with
  | insert e isPrimary => exact (tokenFree_insert h isPrimary).bind fun _ => .pure _
  | delete e => exact (tokenFree_delete e).bind fun _ => .pure _
  | setPrimary e isPrimary =>
    exact (Content.ofStored_isTokenFree.setPrimary e isPrimary).bind fun _ => .pure _
  | setAttribute e name value =>
    exact (Content.ofStored_isTokenFree.setAttribute e name value).bind fun _ => .pure _
  | stepAttribute e name step =>
    exact (Content.ofStored_isTokenFree.stepAttribute e name step).bind fun _ => .pure _
  | destroy => exact tokenFree_destroy.bind fun _ => .pure _
  | close => exact keeps_close.bind fun _ => .pure _

/-- A call that puts in no bare token leaves a store without tokens as one, also where it fails. -/
theorem Operation.tokenFree_perform {op : Operation} (h : AvoidTokens op.placed) :
    Update.Keeps (Has Content.IsTokenFree) (op.perform : Update σ Answer) := by
  cases op with
  | ask q => exact .ask _
  | change c => exact Change.tokenFree_perform h
  | add e => exact (tokenFree_addWith e true).bind fun _ => .pure _
  | addWith e isPrimary => exact (tokenFree_addWith e isPrimary).bind fun _ => .pure _
  | remove e => exact (keeps_removeWith tokenFree_delete e .shallow).bind fun _ => .pure _
  | removeWith e removal =>
    exact (keeps_removeWith tokenFree_delete e removal).bind fun _ => .pure _
  | removeMatching p => exact (keeps_removeMatching tokenFree_delete p).bind fun _ => .pure _
  | removeText text => exact (keeps_removeText tokenFree_delete text).bind fun _ => .pure _
  | restore snapshot => exact (tokenFree_restore h).bind fun _ => .pure _
  | importBytes bs =>
    refine Update.Keeps.bind ?_ fun _ => .pure _
    cases hread : Snapshot.ofBytes bs with
    | ok snapshot =>
      rw [placed, hread] at h
      rw [importBytes_eq_restore hread]
      exact tokenFree_restore h
    | error e =>
      rw [importBytes_eq_throw hread]
      exact .throw e

theorem Operation.tokenFree_run {ops : List Operation} (h : ∀ op ∈ ops, AvoidTokens op.placed)
    (hs : Has Content.IsTokenFree s) : Has Content.IsTokenFree (Operation.run ops s) := by
  induction ops generalizing s with
  | nil => exact hs
  | cons op ops ih =>
    obtain ⟨hop, hops⟩ := List.forall_mem_cons.1 h
    exact ih hops (Operation.tokenFree_perform hop s hs)

/-! ## How a token gets in -/

theorem stored_insert (x e : Entity) (isPrimary : Bool) :
    Update.Keeps (Has (·.isStored x)) (insert e isPrimary : Update σ Unit) :=
  (insert_realizes e isPrimary).keeps fun _ =>
    Content.keeps_insert_of_put (Content.ofStored_isStored x) fun _ _ h _ =>
      Content.isStored_put_iff.2 (.inr h)

/-- Restoring takes nothing away. -/
theorem stored_restoreEntries (x : Entity) (entries : List Snapshot.Entry) :
    Update.Keeps (Has (·.isStored x)) (Snapshot.restoreEntries entries : Update σ Unit) :=
  keeps_restoreEntries (fun e => keeps_addWith (stored_insert x) e false)
    (Content.ofStored_isStored x).setPrimary (Content.ofStored_isStored x).setAttribute
    fun entry _ => stored_insert x entry.entity entry.isPrimary

/-- Only atoms come before an atom, and these are restored whatever is stored. -/
theorem stored_of_mem_entries {entries : List Snapshot.Entry} {a : Atom} (hs : Consistent s)
    (hsorted : entries.Pairwise fun x y => x.entity.depth ≤ y.entity.depth)
    (ha : .atom a ∈ entries.map Snapshot.Entry.entity) :
    Has (·.isStored (.atom a)) (Snapshot.restoreEntries entries s).2 := by
  induction entries generalizing s with
  | nil => cases ha
  | cons entry rest ih =>
    obtain ⟨hdepth, hsorted⟩ := List.pairwise_cons.1 hsorted
    have hleast : entry.entity.depth = 0 := by
      rcases List.mem_cons.1 ha with heq | hmem
      · rw [← heq, Entity.depth]
      · obtain ⟨other, hother, heq⟩ := List.mem_map.1 hmem
        have hle := hdepth other hother
        rwa [heq, Entity.depth, Nat.le_zero] at hle
    have hchildren := Entity.children_of_depth_eq_zero hleast
    obtain ⟨t, hentry, ht, -, -, hcontent⟩ : Yields (Snapshot.restoreEntry entry) s ()
        ((content s).restoredEntry entry) := Snapshot.yields_restoreEntry hs (by simp [hchildren])
    rw [Snapshot.restoreEntries, Update.bind_apply, hentry]
    rcases List.mem_cons.1 ha with heq | hmem
    · apply stored_restoreEntries _ rest t
      refine ⟨ht, ?_⟩
      rw [hcontent]
      exact Content.isStored_restoredEntry (.inr heq)
    · exact ih ht hsorted hmem

theorem stored_restore {snapshot : Snapshot} {a : Atom} (hs : Consistent s)
    (ha : .atom a ∈ snapshot.entries.map Snapshot.Entry.entity) :
    Has (·.isStored (.atom a)) (snapshot.restore s).2 := by
  have hmem : .atom a ∈ (Snapshot.byDepth snapshot.entries).map Snapshot.Entry.entity :=
    ((Snapshot.byDepth_perm snapshot.entries).map Snapshot.Entry.entity).mem_iff.2 ha
  exact Update.Keeps.after
    (stored_of_mem_entries hs (Snapshot.pairwise_byDepth snapshot.entries) hmem) fun _ => .pure _

/-- An atom has no children that could be missing. -/
theorem stored_insert_atom (hs : Consistent s) (a : Atom) (isPrimary : Bool) :
    Has (·.isStored (.atom a)) (insert (.atom a) isPrimary s).2 := by
  obtain ⟨t, hinsert, ht, -, -, hcontent⟩ := yields_addMissing isPrimary (.atom a) hs
  rw [addMissing] at hinsert
  rw [hinsert]
  refine ⟨ht, ?_⟩
  rw [hcontent]
  exact (Content.isStored_added _ isPrimary).2 (.inl rfl)

/-- An atom that a call puts in without a look at it is stored afterwards. -/
theorem Operation.stored_of_placed {op : Operation} {a : Atom} (hs : Consistent s)
    (ha : .atom a ∈ op.placed) : Has (·.isStored (.atom a)) (op.perform s).2 := by
  unfold placed at ha
  split at ha
  case h_1 e isPrimary =>
    rw [← List.mem_singleton.1 ha]
    exact Update.Keeps.after (stored_insert_atom hs a isPrimary) fun _ => .pure _
  case h_2 snapshot => exact Update.Keeps.after (stored_restore hs ha) fun _ => .pure _
  case h_3 bs =>
    split at ha
    case h_1 snapshot hread =>
      rw [perform, importBytes_eq_restore hread]
      exact Update.Keeps.after (stored_restore hs ha) fun _ => .pure _
    case h_2 => cases ha
  case h_4 => cases ha

end Lawful

/-- No state of a run from a new store holds a pattern token if and only if no call of the run puts
in a bare one: adding never does, inserting and restoring do when they are given one, and importing
does when it is among the entries of the file. -/
theorem Store.tokens_in_run (backend : BackendKind) (name : String) (policy : PrimaryPolicy)
    (ops : List Operation) :
    (∀ k, HasNoToken (Operation.run (ops.take k) (Store.empty backend name policy))) ↔
      ∀ op ∈ ops, ∀ a : Atom, a.isPatternToken → .atom a ∉ op.placed := by
  have hempty := Reachable.empty backend name policy
  constructor
  · intro h op hop a ha hplaced
    obtain ⟨before, after, rfl⟩ := List.append_of_mem hop
    obtain ⟨ht, hstored⟩ := Operation.stored_of_placed (hempty.run before).consistent hplaced
    have hfree := h (before.length + 1)
    have htake : (before ++ op :: after).take (before.length + 1) = before ++ [op] := by
      simp [List.take_append]
    rw [htake, Operation.run, List.foldl_append] at hfree
    exact (hfree _ ((contains_eq_true_iff ht).2 hstored) a ha).1 rfl
  · intro h k
    have hfree : Has Content.IsTokenFree (Store.empty backend name policy) := by
      refine ⟨hempty.consistent, ?_⟩
      rw [content_empty]
      exact Content.isTokenFree_empty
    have hops : ∀ op ∈ ops.take k, AvoidTokens op.placed :=
      fun op hop => h op (List.mem_of_mem_take hop)
    have hrun := Operation.tokenFree_run hops hfree
    exact (hasNoToken_iff hrun.1).2 hrun.2

/-- A file with a bare token as its only entry is imported as it is. -/
theorem tokens_in_run_imported :
    let bytes : List UInt8 :=
      [0x53, 0x4d, 0x48, 0x47, 0x01, 0x01, 0x78, 0x9f, 0x83, 0xd5, 0xe0, 0xb7, 0x8c, 0x94, 0xd9,
       0x51, 0x01, 0x00, 0x01, 0x2a, 0x00, 0x00, 0x00, 0x00]
    let star : Atom := { root := "*" }
    let s := Operation.run [.importBytes bytes] (Store.empty .file "test" .overwrite)
    contains s (.atom star) = .ok true ∧ ¬ HasNoToken s := by
  intro bytes star s
  let entries : List Snapshot.Entry := [⟨.atom star, false, ∅⟩]
  let snapshot : Snapshot := ⟨"x", Snapshot.checksumOf entries, entries⟩
  have hread : Snapshot.ofBytes bytes = .ok snapshot :=
    Snapshot.ofBytes_of_eq_toBytes (by decide +kernel) rfl (by decide)
  have hplaced : .atom star ∈ (Operation.importBytes bytes).placed := by
    rw [Operation.placed, hread]
    exact List.mem_singleton_self _
  have hempty : Consistent (Store.empty .file "test" .overwrite) := Store.consistent_empty _ _ _
  obtain ⟨hs, hstored⟩ := Operation.stored_of_placed hempty hplaced
  have hcontains : contains s (.atom star) = .ok true := (contains_eq_true_iff hs).2 hstored
  exact ⟨hcontains, fun h => (h _ hcontains star (by decide)).1 rfl⟩

end SemanticHypergraph
