import SemanticHypergraph.Entity.Reading
import SemanticHypergraph.Proofs.Entity.Lexeme

/-!
# The texts of atoms

A word spells an atom by its parts between slashes. Reading a word succeeds exactly where the word
spells an atom, and it gives that atom.
-/
namespace SemanticHypergraph

open Text

/-- What can stand between the slashes of an atom. -/
structure IsPart (cs : List Char) : Prop where
  ne_nil : cs ≠ []
  no_delimiter : ∀ c ∈ cs, isBlank c = false ∧ c ≠ '(' ∧ c ≠ ')' ∧ c ≠ '/'

inductive SpellsAtom : List Char → Atom → Prop
  | root {r : List Char} (hr : IsPart r) : SpellsAtom r { root := String.ofList r }
  | kind {r k : List Char} (hr : IsPart r) (hk : IsPart k) :
      SpellsAtom (r ++ '/' :: k) { root := String.ofList r, kind := some (String.ofList k) }
  | scope {r k n : List Char} (hr : IsPart r) (hk : IsPart k) (hn : IsPart n) :
      SpellsAtom (r ++ '/' :: (k ++ '/' :: n))
        { root := String.ofList r, kind := some (String.ofList k), scope := some (String.ofList n) }
  | untyped {r n : List Char} (hr : IsPart r) (hn : IsPart n) :
      SpellsAtom (r ++ '/' :: '/' :: n)
        { root := String.ofList r, scope := some (String.ofList n) }

theorem IsPart.slash_not_mem {cs : List Char} (h : IsPart cs) : '/' ∉ cs :=
  fun hmem => (h.no_delimiter _ hmem).2.2.2 rfl

theorem isDelimiter_eq_false {c : Char} :
    Token.isDelimiter c = false ↔ isBlank c = false ∧ c ≠ '(' ∧ c ≠ ')' := by
  simp [Token.isDelimiter, and_assoc]

theorem isDelimiter_slash : Token.isDelimiter '/' = false := by decide

theorem IsPart.isWord {cs : List Char} (h : IsPart cs) : IsWord cs where
  ne_nil := h.ne_nil
  no_delimiter c hc := by
    obtain ⟨hblank, hopening, hclosing, -⟩ := h.no_delimiter c hc
    exact isDelimiter_eq_false.2 ⟨hblank, hopening, hclosing⟩

theorem isPart_of_isWord {cs : List Char} (h : ∀ c ∈ cs, Token.isDelimiter c = false)
    (hne : cs ≠ []) (hslash : '/' ∉ cs) : IsPart cs where
  ne_nil := hne
  no_delimiter c hc := by
    obtain ⟨hblank, hopening, hclosing⟩ := isDelimiter_eq_false.1 (h c hc)
    exact ⟨hblank, hopening, hclosing, fun heq => hslash (heq ▸ hc)⟩

theorem SpellsAtom.isWord {w : List Char} {a : Atom} (h : SpellsAtom w a) : IsWord w := by
  cases h with
  | root hr => exact hr.isWord
  | kind hr hk =>
    refine ⟨by simp, ?_⟩
    simpa [or_imp, forall_and, isDelimiter_slash] using
      ⟨hr.isWord.no_delimiter, hk.isWord.no_delimiter⟩
  | scope hr hk hn =>
    refine ⟨by simp, ?_⟩
    simpa [or_imp, forall_and, isDelimiter_slash] using
      ⟨hr.isWord.no_delimiter, hk.isWord.no_delimiter, hn.isWord.no_delimiter⟩
  | untyped hr hn =>
    refine ⟨by simp, ?_⟩
    simpa [or_imp, forall_and, isDelimiter_slash] using
      ⟨hr.isWord.no_delimiter, hn.isWord.no_delimiter⟩

/-- No separator is left in what stands between separators. -/
theorem not_mem_of_mem_splitOn {α : Type} [BEq α] [LawfulBEq α] {x : α} {w p : List α}
    (h : p ∈ w.splitOn x) : x ∉ p := by
  by_cases hw : x ∈ w
  · obtain ⟨q, rest, rfl, hq⟩ := List.eq_append_cons_of_mem hw
    rw [List.splitOn_append_cons_self_of_not_mem hq] at h
    rcases List.mem_cons.1 h with rfl | hrest
    · exact hq
    · exact not_mem_of_mem_splitOn hrest
  · rw [List.splitOn_eq_singleton hw] at h
    rwa [List.mem_singleton.1 h]
  termination_by w.length

namespace Atom

theorem splitFrom_eq (done : List (List Char)) (letters cs : List Char) :
    splitFrom done letters cs =
      done.reverse ++ List.splitOnPPrepend (fun c => c == '/') cs letters := by
  induction cs generalizing done letters with
  | nil => simp [splitFrom]
  | cons c cs ih =>
    by_cases hc : c = '/'
    · rw [splitFrom, if_pos hc, ih, List.splitOnPPrepend_cons_pos (by simpa using hc)]
      simp
    · rw [splitFrom, if_neg hc, ih, List.splitOnPPrepend_cons_neg (by simpa using hc)]

theorem parts_eq_splitOn (w : List Char) : parts w = w.splitOn '/' := by
  rw [parts, splitFrom_eq, List.splitOnPPrepend_nil_right]
  rfl

theorem slash_not_mem_of_mem_parts {w p : List Char} (h : p ∈ parts w) : '/' ∉ p := by
  rw [parts_eq_splitOn] at h
  exact not_mem_of_mem_splitOn h

theorem parts_eq_iff {w : List Char} {ps : List (List Char)} :
    parts w = ps ↔ ps ≠ [] ∧ (∀ p ∈ ps, '/' ∉ p) ∧ w = ['/'].intercalate ps := by
  constructor
  · rintro rfl
    refine ⟨?_, fun p => slash_not_mem_of_mem_parts, ?_⟩
    · rw [parts_eq_splitOn]
      exact List.splitOn_ne_nil _ _
    · rw [parts_eq_splitOn, List.intercalate_splitOn]
  · rintro ⟨hne, hslash, rfl⟩
    rw [parts_eq_splitOn, List.splitOn_intercalate _ hslash hne]

theorem findDelimiter_eq_none {position : Nat} {w : List Char} :
    findDelimiter position w = none ↔ ∀ c ∈ w, Token.isDelimiter c = false := by
  induction w generalizing position with
  | nil => simp [findDelimiter]
  | cons c w ih => cases hc : Token.isDelimiter c <;> simp [findDelimiter, hc, ih]

theorem ofWord_of_isWord {w : List Char} (h : IsWord w) (position : Nat) :
    ofWord position w = ofParts position w (parts w) := by
  have hne : w.isEmpty = false := by simpa using h.ne_nil
  have hnone : findDelimiter position w = none := findDelimiter_eq_none.2 h.no_delimiter
  simp [ofWord, hne, hnone]

theorem isWord_of_ofWord {position : Nat} {w : List Char} {a : Atom}
    (h : ofWord position w = .ok a) : IsWord w := by
  unfold ofWord at h
  split at h
  · cases h
  · next hne =>
    split at h
    · cases h
    · next hnone => exact ⟨by simpa using hne, findDelimiter_eq_none.1 hnone⟩

theorem ofWord_of_spells {w : List Char} {a : Atom} (h : SpellsAtom w a) (position : Nat) :
    ofWord position w = .ok a := by
  rw [ofWord_of_isWord h.isWord]
  cases h with
  | root hr =>
    have hparts : parts w = [w] := parts_eq_iff.2 ⟨by simp, by simp [hr.slash_not_mem], by simp⟩
    simp [hparts, ofParts, hr.ne_nil]
  | @kind r k hr hk =>
    have hparts : parts (r ++ '/' :: k) = [r, k] :=
      parts_eq_iff.2 ⟨by simp, by simp [hr.slash_not_mem, hk.slash_not_mem], by simp⟩
    simp [hparts, ofParts, hr.ne_nil, hk.ne_nil]
  | @scope r k n hr hk hn =>
    have hparts : parts (r ++ '/' :: (k ++ '/' :: n)) = [r, k, n] :=
      parts_eq_iff.2
        ⟨by simp, by simp [hr.slash_not_mem, hk.slash_not_mem, hn.slash_not_mem], by simp⟩
    simp [hparts, ofParts, hr.ne_nil, hk.ne_nil, hn.ne_nil]
  | @untyped r n hr hn =>
    have hparts : parts (r ++ '/' :: '/' :: n) = [r, [], n] :=
      parts_eq_iff.2 ⟨by simp, by simp [hr.slash_not_mem, hn.slash_not_mem], by simp⟩
    simp [hparts, ofParts, hr.ne_nil, hn.ne_nil]

theorem subset_intercalate {ps : List (List Char)} {p : List Char} (h : p ∈ ps) :
    p ⊆ ['/'].intercalate ps := by
  induction ps with
  | nil => cases h
  | cons q ps ih =>
    cases ps with
    | nil =>
      rw [List.mem_singleton.1 h, List.intercalate_singleton]
      exact List.Subset.refl q
    | cons q' ps =>
      rw [List.intercalate_cons_cons, List.append_assoc]
      rcases List.mem_cons.1 h with rfl | hp
      · exact List.subset_append_left _ _
      · exact fun c hc => List.mem_append_right _ (List.mem_append_right _ (ih hp hc))

theorem isPart_of_mem_parts {w p : List Char} (hw : IsWord w) (hp : p ∈ parts w) (hne : p ≠ []) :
    IsPart p := by
  obtain ⟨-, hslash, hjoin⟩ := parts_eq_iff.1 (rfl : parts w = parts w)
  have hsubset : p ⊆ w := by
    rw [hjoin]
    exact subset_intercalate hp
  exact isPart_of_isWord (fun c hc => hw.no_delimiter c (hsubset hc)) hne (hslash p hp)

theorem spells_of_ofWord {position : Nat} {w : List Char} {a : Atom}
    (h : ofWord position w = .ok a) : SpellsAtom w a := by
  have hw := isWord_of_ofWord h
  rw [ofWord_of_isWord hw] at h
  obtain ⟨-, -, hjoin⟩ := parts_eq_iff.1 (rfl : parts w = parts w)
  have hpart := fun p => isPart_of_mem_parts (p := p) hw
  generalize parts w = ps at h hjoin hpart
  rcases ps with _ | ⟨r, _ | ⟨k, _ | ⟨n, _ | ⟨p, ps⟩⟩⟩⟩
  · cases h
  · simp only [ofParts] at h
    split_ifs at h with hr
    cases h
    rw [hjoin, List.intercalate_singleton]
    exact .root (hpart r (by simp) (by simpa using hr))
  · simp only [ofParts] at h
    split_ifs at h with hr hk
    cases h
    have hspells := SpellsAtom.kind (hpart r (by simp) (by simpa using hr))
      (hpart k (by simp) (by simpa using hk))
    simpa [hjoin] using hspells
  · simp only [ofParts] at h
    split_ifs at h with hr hn hk
    · have hspells := SpellsAtom.untyped (hpart r (by simp) (by simpa using hr))
        (hpart n (by simp) (by simpa using hn))
      cases h
      rw [List.isEmpty_iff] at hk
      simpa [hjoin, hk] using hspells
    · have hspells := SpellsAtom.scope (hpart r (by simp) (by simpa using hr))
        (hpart k (by simp) (by simpa using hk)) (hpart n (by simp) (by simpa using hn))
      cases h
      simpa [hjoin] using hspells
  · cases h

theorem ofWord_eq_ok_iff {position : Nat} {w : List Char} {a : Atom} :
    ofWord position w = .ok a ↔ SpellsAtom w a :=
  ⟨spells_of_ofWord, fun h => ofWord_of_spells h position⟩

end Atom

/-- A word spells one atom at most. -/
theorem SpellsAtom.unique {w : List Char} {a b : Atom} (ha : SpellsAtom w a)
    (hb : SpellsAtom w b) : a = b := by
  have heq := (Atom.ofWord_of_spells ha 0).symm.trans (Atom.ofWord_of_spells hb 0)
  exact Except.ok.inj heq

end SemanticHypergraph
