import SemanticHypergraph.Proofs.Entity.AtomText

/-!
# The grammar of entities

`Spells` is the grammar over characters, `Derives` the same grammar over lexemes, where blanks are
gone. A text between blanks spells an entity exactly where its lexemes derive the entity, and lexemes
derive one entity at most.
-/
namespace SemanticHypergraph

open Text

mutual

/-- The text, with no blank around it, spells the entity. -/
inductive Spells : List Char → Entity → Prop
  | atom {w : List Char} {a : Atom} (ha : SpellsAtom w a) : Spells w (.atom a)
  | edge {before inner after : List Char} {cs : List Entity} (hbefore : IsBlanks before)
      (hinner : SpellsAll inner cs) (hafter : IsBlanks after) :
      Spells ('(' :: (before ++ inner ++ after ++ [')'])) (.edge cs)

/-- The text spells the entities in their order. Blanks may stand between neighbours, and they must
between two atoms. -/
inductive SpellsAll : List Char → List Entity → Prop
  | one {s : List Char} {e : Entity} (he : Spells s e) : SpellsAll s [e]
  | more {s gap t : List Char} {d e : Entity} {es : List Entity} (hd : Spells s d)
      (hgap : IsBlanks gap) (hneighbours : d.isAtom = true → e.isAtom = true → gap ≠ [])
      (hes : SpellsAll t (e :: es)) : SpellsAll (s ++ gap ++ t) (d :: e :: es)

end

/-- The text spells the entity between blanks. -/
def Denotes (cs : List Char) (e : Entity) : Prop :=
  ∃ before s after, cs = before ++ s ++ after ∧ IsBlanks before ∧ Spells s e ∧ IsBlanks after

mutual

inductive Derives : List Lexeme → Entity → Prop
  | atom {w : List Char} {a : Atom} (ha : SpellsAtom w a) : Derives [.word w] (.atom a)
  | edge {xs : List Lexeme} {cs : List Entity} (hne : cs ≠ []) (hcs : DerivesAll xs cs) :
      Derives (.opening :: (xs ++ [.closing])) (.edge cs)

inductive DerivesAll : List Lexeme → List Entity → Prop
  | nil : DerivesAll [] []
  | cons {xs ys : List Lexeme} {e : Entity} {es : List Entity} (he : Derives xs e)
      (hes : DerivesAll ys es) : DerivesAll (xs ++ ys) (e :: es)

end

/-! ## From characters to lexemes -/

/-- Where an entity begins a word has ended, unless the entity is an atom. -/
theorem Spells.endsWord_append {s : List Char} {e : Entity} (h : Spells s e) (rest : List Char) :
    EndsWord (s ++ rest) ↔ e.isAtom = false := by
  cases h with
  | atom ha => simp [Entity.isAtom, ha.isWord.not_endsWord_append rest]
  | edge => simp [Entity.isAtom, endsWord_cons, Token.isDelimiter]

theorem SpellsAll.endsWord_append {s : List Char} {e : Entity} {es : List Entity}
    (h : SpellsAll s (e :: es)) (rest : List Char) :
    EndsWord (s ++ rest) ↔ e.isAtom = false := by
  cases h with
  | one he => exact he.endsWord_append rest
  | more hd =>
    rw [List.append_assoc, List.append_assoc]
    exact hd.endsWord_append _

theorem SpellsAll.ne_nil {s : List Char} {es : List Entity} (h : SpellsAll s es) : es ≠ [] := by
  cases h <;> simp

mutual

theorem Spells.exists_derives {s : List Char} {e : Entity} : Spells s e →
    ∃ xs, Derives xs e ∧ ∀ rest, (e.isAtom = true → EndsWord rest) →
      lexemes (s ++ rest) = xs ++ lexemes rest
  | @Spells.atom w _ ha =>
    ⟨[.word w], .atom ha, fun rest hrest => lexemes_word_append ha.isWord (hrest rfl)⟩
  | @Spells.edge before inner after _ hbefore hinner hafter => by
    obtain ⟨xs, hxs, hlex⟩ := hinner.exists_derives
    refine ⟨.opening :: (xs ++ [.closing]), .edge hinner.ne_nil hxs, ?_⟩
    intro rest _
    have hends : EndsWord (after ++ ')' :: rest) :=
      hafter.endsWord_append (fun _ => endsWord_cons.2 (by decide))
    have hbody : lexemes (before ++ (inner ++ (after ++ ')' :: rest))) =
        xs ++ .closing :: lexemes rest := by
      rw [lexemes_blanks_append hbefore, hlex _ hends, lexemes_blanks_append hafter,
        lexemes_closing]
    simp [hbody]

theorem SpellsAll.exists_derives {s : List Char} {es : List Entity} : SpellsAll s es →
    ∃ xs, DerivesAll xs es ∧ ∀ rest, EndsWord rest → lexemes (s ++ rest) = xs ++ lexemes rest
  | .one he => by
    obtain ⟨xs, hxs, hlex⟩ := he.exists_derives
    refine ⟨xs, ?_, fun rest hrest => hlex rest (fun _ => hrest)⟩
    simpa using DerivesAll.cons hxs .nil
  | @SpellsAll.more s gap t d e _ hd hgap hneighbours hes => by
    obtain ⟨xs, hxs, hlex⟩ := hd.exists_derives
    obtain ⟨ys, hys, hlexs⟩ := hes.exists_derives
    refine ⟨xs ++ ys, .cons hxs hys, ?_⟩
    intro rest hrest
    -- An atom in front ends where the gap begins, or where the edge after it does.
    have hends : d.isAtom = true → EndsWord (gap ++ (t ++ rest)) := by
      intro hatom
      apply hgap.endsWord_append
      intro hempty
      apply (hes.endsWord_append rest).2
      exact Bool.eq_false_iff.2 fun he => hneighbours hatom he hempty
    calc lexemes (s ++ gap ++ t ++ rest) = lexemes (s ++ (gap ++ (t ++ rest))) := by simp
      _ = xs ++ lexemes (t ++ rest) := by rw [hlex _ hends, lexemes_blanks_append hgap]
      _ = xs ++ ys ++ lexemes rest := by rw [hlexs rest hrest, List.append_assoc]

end

/-! ## From lexemes to characters -/

mutual

theorem Derives.exists_spells {xs ys : List Lexeme} {e : Entity} {cs : List Char} :
    Derives xs e → lexemes cs = xs ++ ys →
      ∃ gap s rest, cs = gap ++ (s ++ rest) ∧ IsBlanks gap ∧ Spells s e ∧ lexemes rest = ys ∧
        (e.isAtom = true → EndsWord rest)
  | @Derives.atom w _ ha, h => by
    obtain ⟨gap, rest, rfl, hgap, hrest, hword⟩ := eq_append_of_lexemes_eq_cons h
    exact ⟨gap, w, rest, rfl, hgap, .atom ha, hrest, fun _ => (hword w rfl).2⟩
  | @Derives.edge xs _ hne hcs, h => by
    have hopening : lexemes cs = .opening :: (xs ++ .closing :: ys) := by simpa using h
    obtain ⟨gap, inside, rfl, hgap, hinside, -⟩ := eq_append_of_lexemes_eq_cons hopening
    obtain ⟨before, inner, last, rfl, hbefore, hinner, hlast⟩ := hcs.exists_spells hne hinside
    obtain ⟨after, rest, rfl, hafter, hrest, -⟩ := eq_append_of_lexemes_eq_cons hlast
    have hspells := Spells.edge hbefore hinner hafter
    refine ⟨gap, _, rest, ?_, hgap, hspells, hrest, by simp [Entity.isAtom]⟩
    simp [Lexeme.chars]

theorem DerivesAll.exists_spells {xs ys : List Lexeme} {es : List Entity} {cs : List Char} :
    DerivesAll xs es → es ≠ [] → lexemes cs = xs ++ ys →
      ∃ gap s rest, cs = gap ++ (s ++ rest) ∧ IsBlanks gap ∧ SpellsAll s es ∧ lexemes rest = ys
  | .nil, hne, _ => absurd rfl hne
  | @DerivesAll.cons _ zs _ es hd hes, _, h => by
    obtain ⟨gap, s, rest, rfl, hgap, hs, hrest, hends⟩ :=
      hd.exists_spells (h.trans (List.append_assoc _ zs ys))
    have ih := fun hne => hes.exists_spells hne hrest
    cases es with
    | nil =>
      cases hes
      exact ⟨gap, s, rest, rfl, hgap, .one hs, hrest⟩
    | cons e es =>
      obtain ⟨between, t, rest, rfl, hbetween, ht, hlast⟩ := ih (List.cons_ne_nil e es)
      refine ⟨gap, s ++ between ++ t, rest, by simp, hgap, ?_, hlast⟩
      apply SpellsAll.more hs hbetween _ ht
      -- With no blank between two atoms the first would have gone on into the second.
      intro hatom hatom' hempty
      have hends := hends hatom
      rw [hempty, List.nil_append, ht.endsWord_append rest, hatom'] at hends
      cases hends

end

theorem denotes_iff {cs : List Char} {e : Entity} : Denotes cs e ↔ Derives (lexemes cs) e := by
  constructor
  · rintro ⟨before, s, after, rfl, hbefore, hs, hafter⟩
    obtain ⟨xs, hxs, hlex⟩ := hs.exists_derives
    have hends : EndsWord (after ++ []) := hafter.endsWord_append (fun _ => endsWord_nil)
    have hnone : lexemes (after ++ []) = [] := lexemes_blanks_append hafter []
    rw [List.append_nil] at hends hnone
    rw [List.append_assoc, lexemes_blanks_append hbefore, hlex after (fun _ => hends), hnone,
      List.append_nil]
    exact hxs
  · intro h
    obtain ⟨before, s, after, rfl, hbefore, hs, hafter, -⟩ :=
      h.exists_spells (List.append_nil _).symm
    exact ⟨before, s, after, by simp, hbefore, hs, isBlanks_of_lexemes_eq_nil hafter⟩

/-! ## One derivation at most -/

theorem Derives.closing_ne {xs ys zs : List Lexeme} {e : Entity} (h : Derives xs e) :
    xs ++ ys ≠ .closing :: zs := by
  cases h <;> simp

mutual

theorem Derives.append_inj {xs xs' ys ys' : List Lexeme} {e e' : Entity} :
    Derives xs e → Derives xs' e' → xs ++ ys = xs' ++ ys' → e = e' ∧ ys = ys'
  | .atom ha, .atom hb, h => by
    obtain ⟨hword, hrest⟩ := List.cons.inj h
    cases hword
    exact ⟨congrArg Entity.atom (ha.unique hb), hrest⟩
  | .atom _, .edge _ _, h => by cases h
  | .edge _ _, .atom _, h => by cases h
  | @Derives.edge inner _ _ hcs, @Derives.edge inner' _ _ hds, h => by
    have hinside : inner ++ .closing :: ys = inner' ++ .closing :: ys' := by simpa using h
    obtain ⟨hchildren, hrest⟩ := hcs.append_inj hds hinside
    exact ⟨congrArg Entity.edge hchildren, hrest⟩

/-- The closing parenthesis tells where the children end. -/
theorem DerivesAll.append_inj {xs xs' ys ys' : List Lexeme} {es es' : List Entity} :
    DerivesAll xs es → DerivesAll xs' es' → xs ++ .closing :: ys = xs' ++ .closing :: ys' →
      es = es' ∧ ys = ys'
  | .nil, .nil, h => ⟨rfl, (List.cons.inj h).2⟩
  | .nil, .cons he _, h => by
    rw [List.append_assoc] at h
    exact absurd h.symm he.closing_ne
  | .cons he _, .nil, h => by
    rw [List.append_assoc] at h
    exact absurd h he.closing_ne
  | .cons hd hes, .cons hd' hes', h => by
    rw [List.append_assoc, List.append_assoc] at h
    obtain ⟨rfl, hrest⟩ := hd.append_inj hd' h
    obtain ⟨rfl, hlast⟩ := hes.append_inj hes' hrest
    exact ⟨rfl, hlast⟩

end

theorem Derives.unique {xs : List Lexeme} {e e' : Entity} (h : Derives xs e) (h' : Derives xs e') :
    e = e' :=
  (h.append_inj h' (rfl : xs ++ [] = xs ++ [])).1

end SemanticHypergraph
