import SemanticHypergraph.Text.Blank

/-!
# Tokens

The grammar sees a text as parentheses and words. A word is a longest run of characters that are
neither blank nor parentheses; each token knows the byte at which it starts.
-/
namespace SemanticHypergraph

open Text

inductive Token where
  | opening (position : Nat)
  | closing (position : Nat)
  | word (position : Nat) (chars : List Char)
  deriving DecidableEq, Repr

namespace Token

def position : Token → Nat
  | opening p => p
  | closing p => p
  | word p _ => p

/-- A character that cannot stand in a word. -/
def isDelimiter (c : Char) : Bool := isBlank c || c == '(' || c == ')'

/-- The tokens found so far, latest first, and the word that ends here. -/
def close (found : List Token) (start : Nat) (letters : List Char) : List Token :=
  if letters.isEmpty then found else word start letters.reverse :: found

/-- Scans on at byte `position` inside the word whose letters, latest first, began at `start`. -/
def scanFrom (found : List Token) (position start : Nat) (letters : List Char) :
    List Char → List Token
  | [] => (close found start letters).reverse
  | c :: cs =>
    let next := position + c.utf8Size
    if isBlank c then scanFrom (close found start letters) next next [] cs
    else if c == '(' then scanFrom (opening position :: close found start letters) next next [] cs
    else if c == ')' then scanFrom (closing position :: close found start letters) next next [] cs
    else scanFrom found next start (c :: letters) cs

def scan (cs : List Char) : List Token := scanFrom [] 0 0 [] cs

theorem scanFrom_append (found : List Token) (position start : Nat) (letters cs : List Char) :
    scanFrom found position start letters cs =
      found.reverse ++ scanFrom [] position start letters cs := by
  induction cs generalizing found position start letters with
  | nil => cases letters <;> simp [scanFrom, close]
  | cons c cs ih =>
    simp only [scanFrom]
    split
    · rw [ih, ih (close [] start letters)]
      cases letters <;> simp [close]
    · split
      · rw [ih, ih (opening position :: close [] start letters)]
        cases letters <;> simp [close]
      · split
        · rw [ih, ih (closing position :: close [] start letters)]
          cases letters <;> simp [close]
        · rw [ih]

end Token

end SemanticHypergraph
