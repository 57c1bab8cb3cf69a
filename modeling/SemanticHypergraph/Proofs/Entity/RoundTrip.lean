import SemanticHypergraph.Entity.Printing
import SemanticHypergraph.Proofs.Entity.Reading

/-!
# The text of an entity

An entity built by hand may have a text that spells another entity or none: parts of an atom may be
empty or hold separators, and an edge may be empty. Where nothing of this kind occurs the text spells
the entity, and no text at all denotes an entity in which it does.
-/
namespace SemanticHypergraph

/-- Every part that the atom has can stand between slashes. -/
structure Atom.WellFormed (a : Atom) : Prop where
  root : IsPart a.root.toList
  kind : ∀ k ∈ a.kind, IsPart k.toList
  scope : ∀ n ∈ a.scope, IsPart n.toList

/-- No edge is empty and every atom is well-formed, at any depth. -/
inductive Entity.WellFormed : Entity → Prop
  | atom {a : Atom} (ha : a.WellFormed) : WellFormed (.atom a)
  | edge {cs : List Entity} (hne : cs ≠ []) (hcs : ∀ c ∈ cs, c.WellFormed) : WellFormed (.edge cs)

/-! ## What is denoted is well-formed -/

theorem SpellsAtom.wellFormed {w : List Char} {a : Atom} (h : SpellsAtom w a) : a.WellFormed := by
  cases h with
  | root hr => exact ⟨by simpa using hr, by simp, by simp⟩
  | kind hr hk => exact ⟨by simpa using hr, by simpa using hk, by simp⟩
  | scope hr hk hn => exact ⟨by simpa using hr, by simpa using hk, by simpa using hn⟩
  | untyped hr hn => exact ⟨by simpa using hr, by simp, by simpa using hn⟩

mutual

theorem Derives.wellFormed {xs : List Lexeme} {e : Entity} : Derives xs e → e.WellFormed
  | .atom ha => .atom ha.wellFormed
  | .edge hne hcs => .edge hne hcs.wellFormed

theorem DerivesAll.wellFormed {xs : List Lexeme} {es : List Entity} :
    DerivesAll xs es → ∀ e ∈ es, e.WellFormed
  | .nil => by simp
  | .cons he hes => List.forall_mem_cons.2 ⟨he.wellFormed, hes.wellFormed⟩

end

/-! ## What is well-formed is spelled by its text -/

theorem Atom.WellFormed.spells {a : Atom} (h : a.WellFormed) : SpellsAtom a.toText.toList a := by
  obtain ⟨root, kind, scope⟩ := a
  obtain ⟨hroot, hkind, hscope⟩ := h
  cases kind with
  | none =>
    cases scope with
    | none => simpa [Atom.toText] using SpellsAtom.root hroot
    | some n => simpa [Atom.toText] using SpellsAtom.untyped hroot (hscope n rfl)
  | some k =>
    cases scope with
    | none => simpa [Atom.toText] using SpellsAtom.kind hroot (hkind k rfl)
    | some n => simpa [Atom.toText] using SpellsAtom.scope hroot (hkind k rfl) (hscope n rfl)

namespace Entity

theorem charsAll_cons_cons (c d : Entity) (cs : List Entity) :
    charsAll (c :: d :: cs) = c.chars ++ [' '] ++ charsAll (d :: cs) := by
  simp [charsAll, charsAfter]

theorem spellsAll_charsAll {cs : List Entity} (hne : cs ≠ []) (h : ∀ c ∈ cs, Spells c.chars c) :
    SpellsAll (charsAll cs) cs := by
  induction cs with
  | nil => exact absurd rfl hne
  | cons c cs ih =>
    obtain ⟨hc, hcs⟩ := List.forall_mem_cons.1 h
    cases cs with
    | nil => simpa [charsAll, charsAfter] using SpellsAll.one hc
    | cons d cs =>
      have hgap : IsBlanks [' '] := by simp [IsBlanks, Text.isBlank]
      rw [charsAll_cons_cons]
      exact .more hc hgap (fun _ _ => List.cons_ne_nil _ _) (ih (List.cons_ne_nil _ _) hcs)

theorem WellFormed.spells {e : Entity} (h : e.WellFormed) : Spells e.chars e := by
  induction h with
  | atom ha => exact .atom ha.spells
  | edge hne _ ih =>
    have hinner := spellsAll_charsAll hne ih
    simpa [chars] using Spells.edge isBlanks_nil hinner isBlanks_nil

theorem WellFormed.denotes {e : Entity} (h : e.WellFormed) : Denotes e.chars e :=
  ⟨[], e.chars, [], by simp, isBlanks_nil, h.spells, isBlanks_nil⟩

/-- What a text denotes is well-formed, and its own text denotes it too. -/
theorem denotes_chars_iff {e : Entity} : Denotes e.chars e ↔ e.WellFormed :=
  ⟨fun h => (denotes_iff.1 h).wellFormed, WellFormed.denotes⟩

theorem parse_eq_ok_iff {text : String} {e : Entity} : parse text = .ok e ↔
    text.utf8ByteSize ≤ maxTextLength ∧ e.depth ≤ maxNesting ∧ Denotes text.toList e := by
  rw [← readSized_eq_ok_iff, parse]
  cases readSized text.utf8ByteSize text.toList <;> simp [Except.mapError]

/-- Reading undoes printing exactly for the well-formed entities that are not nested too deep and
whose text is not too long. -/
theorem parse_toText_iff (e : Entity) : parse e.toText = .ok e ↔
    e.WellFormed ∧ e.depth ≤ maxNesting ∧ e.toText.utf8ByteSize ≤ maxTextLength := by
  rw [parse_eq_ok_iff, toList_toText, denotes_chars_iff]
  constructor
  · rintro ⟨hlength, hdepth, hformed⟩
    exact ⟨hformed, hdepth, hlength⟩
  · rintro ⟨hformed, hdepth, hlength⟩
    exact ⟨hlength, hdepth, hformed⟩

/-- With a slash in its root an atom has the text of another one. -/
example : parse (atom { root := "a/b" }).toText = .ok (.atom { root := "a", kind := some "b" }) := by
  rfl

end Entity

end SemanticHypergraph
