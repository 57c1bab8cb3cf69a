import SemanticHypergraph.Json.Basic
import SemanticHypergraph.Text.Numeral

/-!
# JSON numerals

A numeral is an optional minus, digits without a leading zero, an optional fraction and an optional
exponent. Its value is not always the nearest floating-point number: the digits that a word of 64
bits can hold become a number, which is then multiplied or divided by powers of ten, each step
rounding.
-/
namespace SemanticHypergraph.Json

open Text

structure Numeral where
  negative : Bool
  whole : List Char
  fraction : Option (List Char)
  exponent : Option Int
  deriving DecidableEq, Repr

namespace Numeral

/-- One digit at least. -/
def digits (cs : List Char) : Option (List Char × List Char) :=
  let ds := cs.takeWhile isDigit
  if ds.isEmpty then none else some (ds, cs.dropWhile isDigit)

/-- The exponent that comes next, if one does. -/
def readExponent (cs : List Char) : Option (Option Int × List Char) :=
  match cs with
  | c :: rest =>
    if c = 'e' ∨ c = 'E' then
      let (negative, unsigned) := match rest with
        | '-' :: ds => (true, ds)
        | '+' :: ds => (false, ds)
        | ds => (false, ds)
      (digits unsigned).map fun (ds, after) =>
        let n : Int := digitsValue 0 ds
        (some (if negative then -n else n), after)
    else some (none, cs)
  | [] => some (none, [])

/-- The fraction that comes next, if one does. -/
def readFraction (cs : List Char) : Option (Option (List Char) × List Char) :=
  match cs with
  | '.' :: rest => (digits rest).map fun (ds, after) => (some ds, after)
  | _ => some (none, cs)

/-- The longest numeral at the start of the text, and what follows it. -/
def read (cs : List Char) : Option (Numeral × List Char) := do
  let (negative, unsigned) := match cs with
    | '-' :: rest => (true, rest)
    | _ => (false, cs)
  let (whole, afterWhole) ← digits unsigned
  if whole.head? = some '0' ∧ whole.length ≠ 1 then none
  else
    let (fraction, afterFraction) ← readFraction afterWhole
    let (exponent, rest) ← readExponent afterFraction
    return (⟨negative, whole, fraction, exponent⟩, rest)

/-- Takes digits into a word of 64 bits until one does not fit; answers the word and how many digits
were taken. -/
def fill (word taken : Nat) : List Char → Nat × Nat
  | [] => (word, taken)
  | d :: ds =>
    let next := 10 * word + digitValue d
    if next < Nat.pow 2 64 then fill next (taken + 1) ds else (word, taken)

def powerOfTen (n : Nat) : Binary64 := .ofDecimal false 1 n

/-- The number `word * 10 ^ exponent`, rounded at each step; none if it is too great. -/
def scaled (word : Nat) (exponent : Int) : Option Binary64 :=
  let x := Binary64.ofInt word
  if word = 0 then some x
  else if 308 < exponent then none
  else if 0 ≤ exponent then some (x.mulPositive (powerOfTen exponent.toNat)) |>.filter (·.isFinite)
  else if -308 ≤ exponent then some (x.divPositive (powerOfTen (-exponent).toNat))
  else if -616 ≤ exponent then
    some ((x.divPositive (powerOfTen 308)).divPositive (powerOfTen (-exponent - 308).toNat))
  else some (.zero false)

/-- Digits of the whole part that do not fit count as powers of ten, those of the fraction not at
all. -/
def toFloat (n : Numeral) : Option Binary64 :=
  let (word, taken) := fill 0 0 n.whole
  let (word, places) := fill word 0 (n.fraction.getD [])
  (scaled word ((n.whole.length - taken : Nat) - places + n.exponent.getD 0)).map fun x =>
    if n.negative then x.negate else x

def isInteger (n : Numeral) : Bool := n.fraction.isNone && n.exponent.isNone

/-- An integer that neither an unsigned nor a signed word of 64 bits holds is a floating-point
number, and so is minus zero. -/
def toValue (n : Numeral) : Option Value :=
  let (magnitude, taken) := fill 0 0 n.whole
  let isWord := n.isInteger && taken == n.whole.length
  if isWord && !n.negative then some (.integer magnitude)
  else if isWord && 0 < magnitude && magnitude ≤ Nat.pow 2 63 then some (.integer (-magnitude))
  else n.toFloat.map .float

end Numeral

end SemanticHypergraph.Json
