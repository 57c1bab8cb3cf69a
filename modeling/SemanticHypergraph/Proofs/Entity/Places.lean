import SemanticHypergraph.Proofs.Entity.Lexeme

/-!
# Where tokens stand

A token has the byte at which its first character stands. What is before a token is scanned to the tokens
before it, and what is after it to those after it; a word has a delimiter or an end of the text on either
side.
-/
namespace SemanticHypergraph

open Text

theorem EndsWord.of_append {xs ys : List Char} (h : EndsWord (xs ++ ys)) : EndsWord xs := by
  cases xs with
  | nil => exact endsWord_nil
  | cons c xs => exact endsWord_cons.2 (endsWord_cons.1 h)

theorem EndsWord.append {xs ys : List Char} (h : EndsWord xs) (hne : xs ≠ []) :
    EndsWord (xs ++ ys) := by
  obtain ⟨c, xs, rfl⟩ := List.exists_cons_of_ne_nil hne
  exact endsWord_cons.2 (endsWord_cons.1 h)

theorem IsBlanks.endsWord_reverse {gap : List Char} (h : IsBlanks gap) : EndsWord gap.reverse := by
  intro c hc
  exact isDelimiter_of_isBlank (h c (List.mem_reverse.1 (List.mem_of_mem_head? hc)))

/-- The token of a lexeme that stands at the byte. -/
def Lexeme.token (position : Nat) : Lexeme → Token
  | opening => .opening position
  | closing => .closing position
  | word w => .word position w

namespace Token

variable {p : Nat} {cs : List Char}

/-- The tokens of what follows the byte. -/
def scanAt (p : Nat) (cs : List Char) : List Token := scanFrom [] p p [] cs

theorem map_lexeme_scanAt (p : Nat) (cs : List Char) : (scanAt p cs).map lexeme = lexemes cs :=
  map_lexeme_scanFrom [] p p [] cs

theorem scanAt_blank {c : Char} (h : isBlank c = true) (p : Nat) (cs : List Char) :
    scanAt p (c :: cs) = scanAt (p + c.utf8Size) cs := by
  simp [scanAt, scanFrom, close, h]

theorem scanAt_blanks_append {gap : List Char} (h : IsBlanks gap) (p : Nat) (cs : List Char) :
    scanAt p (gap ++ cs) = scanAt (p + byteLength gap) cs := by
  induction gap generalizing p with
  | nil => rfl
  | cons c gap ih =>
    obtain ⟨hc, hgap⟩ := isBlanks_cons.1 h
    rw [List.cons_append, scanAt_blank hc, ih hgap, byteLength_cons, Nat.add_assoc]

theorem scanAt_opening (p : Nat) (cs : List Char) :
    scanAt p ('(' :: cs) = .opening p :: scanAt (p + 1) cs :=
  scanFrom_append [.opening p] (p + 1) (p + 1) [] cs

theorem scanAt_closing (p : Nat) (cs : List Char) :
    scanAt p (')' :: cs) = .closing p :: scanAt (p + 1) cs :=
  scanFrom_append [.closing p] (p + 1) (p + 1) [] cs

/-- Letters are taken into the word that began at `start`. -/
theorem scanFrom_letters {w : List Char} (h : ∀ c ∈ w, isDelimiter c = false) (p start : Nat)
    (letters cs : List Char) : scanFrom [] p start letters (w ++ cs) =
      scanFrom [] (p + byteLength w) start (w.reverse ++ letters) cs := by
  induction w generalizing p letters with
  | nil => rfl
  | cons c w ih =>
    have hc := h c List.mem_cons_self
    simp only [isDelimiter, Bool.or_eq_false_iff] at hc
    obtain ⟨⟨hblank, hopening⟩, hclosing⟩ := hc
    have hw := ih (fun d hd => h d (List.mem_cons_of_mem c hd)) (p + c.utf8Size) (c :: letters)
    simp [scanFrom, hblank, hopening, hclosing, hw, Nat.add_assoc]

/-- Where a word can go on no further its token is made. -/
theorem scanFrom_of_endsWord (h : EndsWord cs) {letters : List Char} (hne : letters ≠ [])
    (p start : Nat) :
    scanFrom [] p start letters cs = .word start letters.reverse :: scanAt p cs := by
  have hclose : close [] start letters = [.word start letters.reverse] := by simp [close, hne]
  cases cs with
  | nil => simp [scanFrom, scanAt, close, hne]
  | cons c cs =>
    have hc := endsWord_cons.1 h
    simp only [scanFrom, scanAt, hclose]
    split_ifs
    · rw [scanFrom_append]
      rfl
    · rw [scanFrom_append, scanFrom_append (opening p :: close [] p [])]
      rfl
    · rw [scanFrom_append, scanFrom_append (closing p :: close [] p [])]
      rfl
    · simp_all [isDelimiter]

theorem scanAt_word_append {w : List Char} (hw : IsWord w) (hcs : EndsWord cs) (p : Nat) :
    scanAt p (w ++ cs) = .word p w :: scanAt (p + byteLength w) cs := by
  have hne : w.reverse ++ [] ≠ [] := by simpa using hw.ne_nil
  rw [scanAt, scanFrom_letters hw.no_delimiter, scanFrom_of_endsWord hcs hne, List.append_nil,
    List.reverse_reverse]

theorem scanAt_lexeme_append {x : Lexeme} (hx : ∀ w, x = .word w → IsWord w ∧ EndsWord cs)
    (p : Nat) : scanAt p (x.chars ++ cs) = x.token p :: scanAt (p + byteLength x.chars) cs := by
  cases x with
  | opening => exact scanAt_opening p cs
  | closing => exact scanAt_closing p cs
  | word w =>
    obtain ⟨hw, hcs⟩ := hx w rfl
    exact scanAt_word_append hw hcs p

theorem isBlanks_of_scanAt_eq_nil (h : scanAt p cs = []) : IsBlanks cs := by
  refine isBlanks_of_lexemes_eq_nil ?_
  rw [← map_lexeme_scanAt p, h, List.map_nil]

theorem scanAt_of_isBlanks (h : IsBlanks cs) (p : Nat) : scanAt p cs = [] := by
  have hscan := scanAt_blanks_append h p []
  rw [List.append_nil] at hscan
  rw [hscan]
  rfl

theorem token_lexeme (t : Token) : t.lexeme.token t.position = t := by cases t <;> rfl

theorem position_token (x : Lexeme) (p : Nat) : (x.token p).position = p := by cases x <;> rfl

/-- Before the first token stand blanks, and the others are those of what is after it. -/
theorem scanAt_eq_cons {t : Token} {ts : List Token} (h : scanAt p cs = t :: ts) :
    ∃ gap rest, cs = gap ++ (t.lexeme.chars ++ rest) ∧ IsBlanks gap ∧
      t.position = p + byteLength gap ∧ ts = scanAt (t.position + byteLength t.lexeme.chars) rest ∧
      ∀ w, t.lexeme = .word w → IsWord w ∧ EndsWord rest := by
  have hlexemes := map_lexeme_scanAt p cs
  rw [h, List.map_cons] at hlexemes
  obtain ⟨gap, rest, rfl, hgap, -, hword⟩ := eq_append_of_lexemes_eq_cons hlexemes.symm
  rw [scanAt_blanks_append hgap, scanAt_lexeme_append hword] at h
  obtain ⟨ht, hts⟩ := List.cons.inj h
  have hposition : t.position = p + byteLength gap := by rw [← ht, position_token]
  exact ⟨gap, rest, rfl, hgap, hposition, by rw [hposition, hts], hword⟩

/-- The text at a token: what is before it is scanned to the tokens before it, and a word is as long as
it can be on either side. -/
theorem exists_eq_append_of_scanAt {done rest : List Token} {t : Token}
    (h : scanAt p cs = done ++ t :: rest) : ∃ before after,
      cs = before ++ (t.lexeme.chars ++ after) ∧ t.position = p + byteLength before ∧
      scanAt p before = done ∧
      ∀ w, t.lexeme = .word w → IsWord w ∧ EndsWord after ∧ EndsWord before.reverse := by
  induction done generalizing p cs with
  | nil =>
    obtain ⟨gap, after, rfl, hgap, hposition, -, hword⟩ := scanAt_eq_cons h
    refine ⟨gap, after, rfl, hposition, scanAt_of_isBlanks hgap p, fun w hw => ?_⟩
    exact ⟨(hword w hw).1, (hword w hw).2, hgap.endsWord_reverse⟩
  | cons d done ih =>
    obtain ⟨gap, others, rfl, hgap, hd, hothers, hends⟩ := scanAt_eq_cons h
    obtain ⟨before, after, rfl, hposition, hbefore, hword⟩ := ih hothers.symm
    have hends' : ∀ w, d.lexeme = .word w → IsWord w ∧ EndsWord before :=
      fun w hw => ⟨(hends w hw).1, (hends w hw).2.of_append⟩
    have htoken : d.lexeme.token (p + byteLength gap) = d := by rw [← hd, token_lexeme]
    refine ⟨gap ++ (d.lexeme.chars ++ before), after, by simp, ?_, ?_, fun w hw => ?_⟩
    · rw [hposition, hd, byteLength_append, byteLength_append]
      omega
    · rw [scanAt_blanks_append hgap, scanAt_lexeme_append hends', htoken, ← hd, hbefore]
    · obtain ⟨hw', hafter, hreverse⟩ := hword w hw
      refine ⟨hw', hafter, ?_⟩
      rw [List.reverse_append, List.reverse_append, List.append_assoc]
      cases before with
      | cons c before => exact hreverse.append (by simp)
      | nil =>
        -- no word can follow another one without anything between them
        cases hlexeme : d.lexeme with
        | opening => exact endsWord_cons.2 (by decide)
        | closing => exact endsWord_cons.2 (by decide)
        | word v =>
          have hno := (hends v hlexeme).2
          rw [hw] at hno
          exact absurd hno (hw'.not_endsWord_append after)

end Token

end SemanticHypergraph
