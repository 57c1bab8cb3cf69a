import Mathlib.Tactic.SplitIfs
import SemanticHypergraph.Entity.Token

/-!
# The lexemes of a text

What the grammar sees of a text is the sequence of its lexemes. A text is cut into them in one way:
blanks are skipped, a parenthesis stands for itself, and a word goes on as far as it can.
-/
namespace SemanticHypergraph

open Text

/-- A token without its place. -/
inductive Lexeme where
  | opening
  | closing
  | word (letters : List Char)

def Lexeme.chars : Lexeme → List Char
  | opening => ['(']
  | closing => [')']
  | word w => w

def Token.lexeme : Token → Lexeme
  | opening _ => .opening
  | closing _ => .closing
  | word _ w => .word w

def IsBlanks (cs : List Char) : Prop := ∀ c ∈ cs, isBlank c = true

structure IsWord (w : List Char) : Prop where
  ne_nil : w ≠ []
  no_delimiter : ∀ c ∈ w, Token.isDelimiter c = false

/-- A word that stands before `cs` cannot go on into it. -/
def EndsWord (cs : List Char) : Prop := ∀ c ∈ cs.head?, Token.isDelimiter c = true

theorem isBlanks_nil : IsBlanks [] := by simp [IsBlanks]

theorem isBlanks_cons {c : Char} {cs : List Char} :
    IsBlanks (c :: cs) ↔ isBlank c = true ∧ IsBlanks cs := by
  simp [IsBlanks]

theorem endsWord_nil : EndsWord [] := by simp [EndsWord]

theorem endsWord_cons {c : Char} {cs : List Char} :
    EndsWord (c :: cs) ↔ Token.isDelimiter c = true := by
  simp [EndsWord]

theorem isDelimiter_of_isBlank {c : Char} (h : isBlank c = true) : Token.isDelimiter c = true := by
  simp [Token.isDelimiter, h]

theorem IsBlanks.endsWord_append {gap cs : List Char} (h : IsBlanks gap)
    (hcs : gap = [] → EndsWord cs) : EndsWord (gap ++ cs) := by
  cases gap with
  | nil => exact hcs rfl
  | cons c gap => exact endsWord_cons.2 (isDelimiter_of_isBlank (isBlanks_cons.1 h).1)

theorem IsWord.not_endsWord_append {w : List Char} (h : IsWord w) (cs : List Char) :
    ¬ EndsWord (w ++ cs) := by
  obtain ⟨c, w, rfl⟩ := List.exists_cons_of_ne_nil h.ne_nil
  have hc := h.no_delimiter c (by simp)
  rw [List.cons_append, endsWord_cons, hc]
  decide

namespace Lexeme

/-- The word that ends here, if it has letters (latest first), before the lexemes that follow. -/
def ended (letters : List Char) (xs : List Lexeme) : List Lexeme :=
  if letters.isEmpty then xs else word letters.reverse :: xs

/-- The lexemes of what follows the letters (latest first) of a word that may go on. -/
def scanFrom (letters : List Char) : List Char → List Lexeme
  | [] => ended letters []
  | c :: cs =>
    if isBlank c then ended letters (scanFrom [] cs)
    else if c == '(' then ended letters (opening :: scanFrom [] cs)
    else if c == ')' then ended letters (closing :: scanFrom [] cs)
    else scanFrom (c :: letters) cs

end Lexeme

def lexemes (cs : List Char) : List Lexeme := Lexeme.scanFrom [] cs

namespace Token

theorem map_lexeme_close (found : List Token) (start : Nat) (letters : List Char)
    (xs : List Lexeme) :
    (close found start letters).reverse.map lexeme ++ xs =
      found.reverse.map lexeme ++ Lexeme.ended letters xs := by
  cases letters <;> simp [close, Lexeme.ended, lexeme]

theorem map_lexeme_scanFrom (found : List Token) (position start : Nat) (letters cs : List Char) :
    (scanFrom found position start letters cs).map lexeme =
      found.reverse.map lexeme ++ Lexeme.scanFrom letters cs := by
  -- The tokens found so far and the places change at every step.
  induction cs generalizing found position start letters with
  | nil =>
    have hclose := map_lexeme_close found start letters []
    simpa [scanFrom, Lexeme.scanFrom] using hclose
  | cons c cs ih =>
    simp only [scanFrom, Lexeme.scanFrom]
    split_ifs
    · rw [ih, map_lexeme_close]
    · rw [ih, ← map_lexeme_close found start]
      simp [lexeme]
    · rw [ih, ← map_lexeme_close found start]
      simp [lexeme]
    · rw [ih]

theorem map_lexeme_scan (cs : List Char) : (scan cs).map lexeme = lexemes cs := by
  have hscan := map_lexeme_scanFrom [] 0 0 [] cs
  simpa [scan, lexemes] using hscan

end Token

@[simp] theorem lexemes_nil : lexemes [] = [] := rfl

theorem lexemes_blank {c : Char} (h : isBlank c = true) (cs : List Char) :
    lexemes (c :: cs) = lexemes cs := by
  simp [lexemes, Lexeme.scanFrom, Lexeme.ended, h]

@[simp] theorem lexemes_opening (cs : List Char) :
    lexemes ('(' :: cs) = .opening :: lexemes cs := rfl

@[simp] theorem lexemes_closing (cs : List Char) :
    lexemes (')' :: cs) = .closing :: lexemes cs := rfl

theorem lexemes_blanks_append {gap : List Char} (h : IsBlanks gap) (cs : List Char) :
    lexemes (gap ++ cs) = lexemes cs := by
  induction gap with
  | nil => rfl
  | cons c gap ih =>
    obtain ⟨hc, hgap⟩ := isBlanks_cons.1 h
    rw [List.cons_append, lexemes_blank hc, ih hgap]

/-- Where a word can go on no further it ends. -/
theorem scanFrom_of_endsWord {cs : List Char} (h : EndsWord cs) (letters : List Char) :
    Lexeme.scanFrom letters cs = Lexeme.ended letters (lexemes cs) := by
  cases cs with
  | nil => rfl
  | cons c cs =>
    have hc := endsWord_cons.1 h
    simp only [lexemes, Lexeme.scanFrom]
    split_ifs
    · rfl
    · rfl
    · rfl
    · simp_all [Token.isDelimiter]

/-- Letters are taken into the word as they come. -/
theorem scanFrom_append {w : List Char} (h : ∀ c ∈ w, Token.isDelimiter c = false)
    (letters cs : List Char) :
    Lexeme.scanFrom letters (w ++ cs) = Lexeme.scanFrom (w.reverse ++ letters) cs := by
  induction w generalizing letters with
  | nil => rfl
  | cons c w ih =>
    have hc := h c (by simp)
    simp only [Token.isDelimiter, Bool.or_eq_false_iff] at hc
    obtain ⟨⟨hblank, hopening⟩, hclosing⟩ := hc
    have hw := ih (fun d hd => h d (by simp [hd])) (c :: letters)
    simp [Lexeme.scanFrom, hblank, hopening, hclosing, hw]

theorem lexemes_word_append {w cs : List Char} (hw : IsWord w) (hcs : EndsWord cs) :
    lexemes (w ++ cs) = .word w :: lexemes cs := by
  have hletters : w.reverse.isEmpty = false := by simpa using hw.ne_nil
  calc lexemes (w ++ cs) = Lexeme.scanFrom (w.reverse ++ []) cs :=
        scanFrom_append hw.no_delimiter [] cs
    _ = Lexeme.ended w.reverse (lexemes cs) := by
        rw [List.append_nil, scanFrom_of_endsWord hcs]
    _ = .word w :: lexemes cs := by simp [Lexeme.ended, hletters]

/-- A text that begins with a letter begins with a word that cannot go on. -/
theorem exists_word {c : Char} (h : Token.isDelimiter c = false) (cs : List Char) :
    ∃ w rest, c :: cs = w ++ rest ∧ IsWord w ∧ EndsWord rest := by
  induction cs generalizing c with
  | nil => exact ⟨[c], [], rfl, ⟨by simp, by simpa using h⟩, endsWord_nil⟩
  | cons d cs ih =>
    cases hd : Token.isDelimiter d with
    | true => exact ⟨[c], d :: cs, rfl, ⟨by simp, by simpa using h⟩, endsWord_cons.2 hd⟩
    | false =>
      obtain ⟨w, rest, heq, hw, hrest⟩ := ih hd
      refine ⟨c :: w, rest, by rw [heq, List.cons_append], ⟨by simp, ?_⟩, hrest⟩
      simpa [h] using hw.no_delimiter

/-- A text that does not begin with a blank begins with its first lexeme; a word among these has
nothing after it that it could go on with. -/
theorem lexemes_cons_cases (c : Char) (cs : List Char) :
    (isBlank c = true ∧ lexemes (c :: cs) = lexemes cs) ∨
      ∃ x rest, c :: cs = x.chars ++ rest ∧ lexemes (c :: cs) = x :: lexemes rest ∧
        ∀ w, x = .word w → IsWord w ∧ EndsWord rest := by
  by_cases hblank : isBlank c = true
  · exact .inl ⟨hblank, lexemes_blank hblank cs⟩
  right
  by_cases hopening : c = '('
  · subst hopening
    exact ⟨.opening, cs, rfl, rfl, by simp⟩
  by_cases hclosing : c = ')'
  · subst hclosing
    exact ⟨.closing, cs, rfl, rfl, by simp⟩
  have hletter : Token.isDelimiter c = false := by
    simp [Token.isDelimiter, hblank, hopening, hclosing]
  obtain ⟨w, rest, heq, hw, hrest⟩ := exists_word hletter cs
  refine ⟨.word w, rest, heq, by rw [heq, lexemes_word_append hw hrest], ?_⟩
  intro v hv
  cases hv
  exact ⟨hw, hrest⟩

theorem isBlanks_of_lexemes_eq_nil {cs : List Char} (h : lexemes cs = []) : IsBlanks cs := by
  induction cs with
  | nil => exact isBlanks_nil
  | cons c cs ih =>
    obtain ⟨hc, heq⟩ | ⟨x, rest, -, heq, -⟩ := lexemes_cons_cases c cs
    · rw [heq] at h
      exact isBlanks_cons.2 ⟨hc, ih h⟩
    · rw [heq] at h
      cases h

/-- Before the first lexeme stand blanks only. -/
theorem eq_append_of_lexemes_eq_cons {cs : List Char} {x : Lexeme} {xs : List Lexeme}
    (h : lexemes cs = x :: xs) :
    ∃ gap rest, cs = gap ++ (x.chars ++ rest) ∧ IsBlanks gap ∧ lexemes rest = xs ∧
      ∀ w, x = .word w → IsWord w ∧ EndsWord rest := by
  induction cs with
  | nil => cases h
  | cons c cs ih =>
    obtain ⟨hc, heq⟩ | ⟨y, rest, htext, heq, hword⟩ := lexemes_cons_cases c cs
    · rw [heq] at h
      obtain ⟨gap, rest, rfl, hgap, hrest⟩ := ih h
      exact ⟨c :: gap, rest, rfl, isBlanks_cons.2 ⟨hc, hgap⟩, hrest⟩
    · rw [heq] at h
      obtain ⟨rfl, hxs⟩ := List.cons.inj h
      exact ⟨[], rest, htext, isBlanks_nil, hxs, hword⟩

end SemanticHypergraph
