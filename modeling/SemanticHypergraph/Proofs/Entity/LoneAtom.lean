import SemanticHypergraph.Proofs.Entity.Containment
import SemanticHypergraph.Proofs.Entity.Refusals
import SemanticHypergraph.Proofs.Entity.RoundTrip

/-!
# Atoms read alone

An atom is read from a text of its own, in which blanks and parentheses are refused, or it is met in the
text of an entity, where words are cut out at blanks and parentheses before anything is read from them.
Both ways read the same atoms: an entity that is one atom is what its trimmed text spells alone, and the
atoms inside an edge are what its words spell alone. What is cut out is a word, so that the reader of
entities never finds a word empty or a separator in it.
-/
namespace SemanticHypergraph

open Text

/-! ## Trimming -/

theorem trimStart_blanks_append {gap : List Char} (h : IsBlanks gap) (cs : List Char) :
    trimStart (gap ++ cs) = trimStart cs :=
  List.dropWhile_append_of_pos h

theorem trimStart_word_append {w : List Char} (h : IsWord w) (cs : List Char) :
    trimStart (w ++ cs) = w ++ cs := by
  obtain ⟨c, w, rfl⟩ := List.exists_cons_of_ne_nil h.ne_nil
  have hc := (isDelimiter_eq_false.1 (h.no_delimiter c List.mem_cons_self)).1
  rw [trimStart, List.cons_append, List.dropWhile_cons_of_neg (by simp [hc])]

theorem IsBlanks.reverse {gap : List Char} (h : IsBlanks gap) : IsBlanks gap.reverse :=
  fun c hc => h c (List.mem_reverse.1 hc)

theorem IsWord.reverse {w : List Char} (h : IsWord w) : IsWord w.reverse where
  ne_nil := by simpa using h.ne_nil
  no_delimiter c hc := h.no_delimiter c (List.mem_reverse.1 hc)

theorem trim_word {before w after : List Char} (hbefore : IsBlanks before) (hw : IsWord w)
    (hafter : IsBlanks after) : trim (before ++ w ++ after) = w := by
  have hword : trimStart w.reverse = w.reverse := by
    have hstart := trimStart_word_append hw.reverse []
    rwa [List.append_nil] at hstart
  rw [trim, List.append_assoc, trimStart_blanks_append hbefore, trimStart_word_append hw, trimEnd,
    List.reverse_append, trimStart_blanks_append hafter.reverse, hword, List.reverse_reverse]

theorem exists_eq_append_trimStart (cs : List Char) :
    ∃ gap, cs = gap ++ trimStart cs ∧ IsBlanks gap :=
  ⟨cs.takeWhile isBlank, List.takeWhile_append_dropWhile.symm, List.all_eq_true.1 List.all_takeWhile⟩

/-- Trimming takes away blanks at the two ends. -/
theorem exists_eq_append_trim (cs : List Char) :
    ∃ before after, cs = before ++ trim cs ++ after ∧ IsBlanks before ∧ IsBlanks after := by
  obtain ⟨before, hcs, hbefore⟩ := exists_eq_append_trimStart cs
  obtain ⟨after, hrest, hafter⟩ := exists_eq_append_trimStart (trimStart cs).reverse
  have hend : trimStart cs = trim cs ++ after.reverse := by
    have hreverse := congrArg List.reverse hrest
    rwa [List.reverse_reverse, List.reverse_append] at hreverse
  refine ⟨before, after.reverse, ?_, hbefore, hafter.reverse⟩
  rw [List.append_assoc, ← hend]
  exact hcs

/-! ## Which atoms are read -/

theorem Atom.parse_eq_ok_iff {text : String} {a : Atom} :
    parse text = .ok a ↔ SpellsAtom text.toList a := by
  have hword : ofWord 0 text.toList = .ok a ↔ SpellsAtom text.toList a := ofWord_eq_ok_iff
  rw [← hword, parse, read]
  cases ofWord 0 text.toList <;> simp [Except.mapError]

/-- A text denotes an atom if it spells it between blanks. -/
theorem denotes_atom_iff {cs : List Char} {a : Atom} :
    Denotes cs (.atom a) ↔ SpellsAtom (trim cs) a := by
  constructor
  · rintro ⟨before, s, after, rfl, hbefore, hs, hafter⟩
    cases hs with
    | atom ha =>
      rw [trim_word hbefore ha.isWord hafter]
      exact ha
  · intro h
    obtain ⟨before, after, hcs, hbefore, hafter⟩ := exists_eq_append_trim cs
    exact ⟨before, trim cs, after, hcs, hbefore, .atom h, hafter⟩

mutual

/-- The atoms of an entity, at any depth, are those that its words spell. -/
theorem Derives.atom_iff {xs : List Lexeme} {e : Entity} (a : Atom) : Derives xs e →
    ((.atom a = e ∨ (Entity.atom a).Inside e) ↔ ∃ w, .word w ∈ xs ∧ SpellsAtom w a)
  | @Derives.atom w b hb => by
    rw [Entity.inside_iff]
    constructor
    · rintro (heq | ⟨c, hc, -⟩)
      · cases heq
        exact ⟨w, List.mem_singleton.2 rfl, hb⟩
      · cases hc
    · rintro ⟨v, hv, ha⟩
      cases List.mem_singleton.1 hv
      exact .inl (congrArg Entity.atom (ha.unique hb))
  | .edge _ hcs => by
    have hchildren := hcs.atom_iff a
    rw [Entity.inside_iff, Entity.children_edge, hchildren]
    simp

theorem DerivesAll.atom_iff {xs : List Lexeme} {es : List Entity} (a : Atom) : DerivesAll xs es →
    ((∃ e ∈ es, .atom a = e ∨ (Entity.atom a).Inside e) ↔ ∃ w, .word w ∈ xs ∧ SpellsAtom w a)
  | .nil => by simp
  | .cons he hes => by
    have hhead := he.atom_iff a
    have htail := hes.atom_iff a
    rw [List.exists_mem_cons_iff, hhead, htail]
    simp only [List.mem_append, or_and_right, exists_or]

end

/-! ## Which faults are found -/

namespace Fault

/-- The words that the message begins with, whatever the fault is about. -/
def heading : Fault → String
  | textTooLong _ => "input length "
  | unexpectedEnd => "unexpected end"
  | unbalancedClosing => "unbalanced"
  | trailingInput => "unexpected input"
  | missingClosing => "unbalanced"
  | emptyEdge => "empty edge"
  | tooDeep => "nesting deeper than "
  | emptyWord => "empty atom token"
  | invalidCharacter _ => "invalid character "
  | tooManyParts _ => "atom '"
  | emptyRoot => "empty atom root"
  | emptyNamespace _ => "empty namespace in atom '"
  | emptyType _ => "empty type in atom '"

theorem heading_begins_message (f : Fault) : f.heading.toList <+: f.message.toList := by
  cases f <;> unfold heading message <;> simp [String.toList_append]

/-- Neither text is the beginning of the other. -/
def Apart (s t : List Char) : Prop := ¬ s <+: t ∧ ¬ t <+: s

instance (s t : List Char) : Decidable (Apart s t) := inferInstanceAs (Decidable (_ ∧ _))

theorem Apart.not_begins {s t u : List Char} (h : Apart s t) (hs : s <+: u) : ¬ t <+: u := by
  intro ht
  rcases List.prefix_or_prefix_of_prefix hs ht with hst | hts
  · exact h.1 hst
  · exact h.2 hts

/-- The faults that a separate word can have and one that was cut out cannot are told from all others by
their messages. -/
theorem message_apart {f : Fault} (hempty : f ≠ .emptyWord)
    (hcharacter : ∀ c, f ≠ .invalidCharacter c) :
    ¬ "empty atom token".toList <+: f.message.toList ∧
      ¬ "invalid character".toList <+: f.message.toList := by
  have hapart : Apart f.heading.toList "empty atom token".toList ∧
      Apart f.heading.toList "invalid character".toList := by
    cases f with
    | emptyWord => exact absurd rfl hempty
    | invalidCharacter c => exact absurd rfl (hcharacter c)
    | _ => simp only [heading]; decide
  have hheading := f.heading_begins_message
  exact ⟨hapart.1.not_begins hheading, hapart.2.not_begins hheading⟩

end Fault

/-- What is cut out of a text is neither empty nor holds a separator. -/
theorem Refusal.PointsInto.fault_ne {text : String} {r : Refusal} (h : r.PointsInto text) :
    r.fault ≠ .emptyWord ∧ ∀ c, r.fault ≠ .invalidCharacter c := by
  obtain ⟨before, after, -, -, hfault⟩ := h
  constructor
  · intro heq
    rwa [heq] at hfault
  · intro c heq
    rwa [heq] at hfault

namespace Entity

theorem parse_eq_ok_atom_iff {text : String} {a : Atom} : parse text = .ok (.atom a) ↔
    text.utf8ByteSize ≤ maxTextLength ∧ SpellsAtom (trim text.toList) a := by
  have hdepth : (Entity.atom a).depth ≤ maxNesting := Nat.zero_le _
  rw [parse_eq_ok_iff, denotes_atom_iff, and_iff_right hdepth]

theorem exists_message_of_parse_error {text : String} {error : Error} (h : parse text = .error error) :
    ∃ message p, error = .parse message p ∧ ¬ "empty atom token".toList <+: message.toList ∧
      ¬ "invalid character".toList <+: message.toList := by
  unfold parse at h
  cases hread : readSized text.utf8ByteSize text.toList with
  | ok e =>
    rw [hread] at h
    cases h
  | error r =>
    rw [hread] at h
    cases h
    obtain ⟨hempty, hcharacter⟩ := (pointsInto_of_readSized hread).fault_ne
    exact ⟨_, _, rfl, Fault.message_apart hempty hcharacter⟩

/-- A text within the limit that is read as an atom by itself is read as the entity that is this atom, and
what is read as an atom among entities is read as the same one by itself once it is trimmed. No refusal
says that a word is empty or holds a separator, and at every depth the atoms of what is read are those that
the words of the text are read as by themselves. -/
theorem parse_agrees_on_atoms :
    (∀ (text : String) (a : Atom), Atom.parse text = .ok a → text.utf8ByteSize ≤ maxTextLength →
      parse text = .ok (.atom a)) ∧
    (∀ (text : String) (a : Atom), parse text = .ok (.atom a) ↔
      text.utf8ByteSize ≤ maxTextLength ∧ Atom.parse (String.ofList (trim text.toList)) = .ok a) ∧
    (∀ (text : String) (error : Error), parse text = .error error →
      ∃ message p, error = .parse message p ∧ ¬ "empty atom token".toList <+: message.toList ∧
        ¬ "invalid character".toList <+: message.toList) ∧
    ∀ (text : String) (e : Entity), parse text = .ok e → ∀ a : Atom,
      (.atom a = e ∨ (Entity.atom a).Inside e) ↔
        ∃ w, .word w ∈ lexemes text.toList ∧ Atom.parse (String.ofList w) = .ok a := by
  refine ⟨fun text a ha hsize => ?_, fun text a => ?_, fun text error => ?_, fun text e he a => ?_⟩
  · have hspells := Atom.parse_eq_ok_iff.1 ha
    have htrim : trim text.toList = text.toList := by
      simpa using trim_word isBlanks_nil hspells.isWord isBlanks_nil
    exact parse_eq_ok_atom_iff.2 ⟨hsize, by rwa [htrim]⟩
  · rw [parse_eq_ok_atom_iff, Atom.parse_eq_ok_iff, String.toList_ofList]
  · exact exists_message_of_parse_error
  · obtain ⟨-, -, hdenotes⟩ := parse_eq_ok_iff.1 he
    rw [(denotes_iff.1 hdenotes).atom_iff a]
    simp only [Atom.parse_eq_ok_iff, String.toList_ofList]

/-- An atom with a letter of two bytes: alone, between blanks, at fault inside an edge, and two levels
down. -/
theorem parse_agrees_on_atoms_nested :
    let a : Atom := { root := "né", kind := some "c" }
    let e : Entity := .edge [.atom { root := "x" }, .edge [.atom a]]
    (Atom.parse "né/c" = .ok a ∧ "né/c".utf8ByteSize ≤ maxTextLength ∧
      parse "né/c" = .ok (.atom a)) ∧
    (parse "\u3000né/c\t" = .ok (.atom a) ∧
      Atom.parse (String.ofList (trim "\u3000né/c\t".toList)) = .ok a) ∧
    (parse "(x (né/))" = .error (.parse "empty type in atom 'né/'" 4) ∧
      ∃ message p, Error.parse "empty type in atom 'né/'" 4 = .parse message p ∧
        ¬ "empty atom token".toList <+: message.toList ∧
        ¬ "invalid character".toList <+: message.toList) ∧
    parse "(x(né/c))" = .ok e ∧ (.atom a = e ∨ (Entity.atom a).Inside e) := by
  intro a e
  obtain ⟨halone, hamong, hrefused, hinside⟩ := parse_agrees_on_atoms
  have hatom : Atom.parse "né/c" = .ok a := rfl
  have hshort : "né/c".utf8ByteSize ≤ maxTextLength := by decide +kernel
  have hblanks : parse "\u3000né/c\t" = .ok (.atom a) := rfl
  have hfault : parse "(x (né/))" = .error (.parse "empty type in atom 'né/'" 4) := by decide +kernel
  have hedge : parse "(x(né/c))" = .ok e := rfl
  have hlexemes : lexemes "(x(né/c))".toList =
      [.opening, .word ['x'], .opening, .word ['n', 'é', '/', 'c'], .closing, .closing] := rfl
  have hword : .word ['n', 'é', '/', 'c'] ∈ lexemes "(x(né/c))".toList := by
    rw [hlexemes]
    simp
  exact ⟨⟨hatom, hshort, halone _ a hatom hshort⟩, ⟨hblanks, ((hamong _ a).1 hblanks).2⟩,
    ⟨hfault, hrefused _ _ hfault⟩, hedge, (hinside _ e hedge a).2 ⟨_, hword, hatom⟩⟩

/-- By itself a text may be refused for what is never found in a word that was cut out. -/
example : Atom.parse "" = .error (.parse "empty atom token" 0) ∧
    Atom.parse "a b" = .error (.parse "invalid character ' ' in atom token" 1) := by
  decide +kernel

end Entity

end SemanticHypergraph
