import SemanticHypergraph.Binary64.Basic
import SemanticHypergraph.Text.Numeral

/-!
# Reading decimals

A number is digits with an optional point among or around them and an optional exponent; infinity
and NaN go by name in any case of letters. The nearest representable number is the value.
-/
namespace SemanticHypergraph.Binary64

open Text

/-- The exponent after the mark, if there is one. -/
def readExponent : List Char → Option Int
  | [] => some 0
  | c :: cs => if c = 'e' ∨ c = 'E' then readSigned cs else none

/-- Digits, point, digits, exponent; at least one digit before the exponent. -/
def readDecimal (negative : Bool) (cs : List Char) : Option Binary64 :=
  let whole := cs.takeWhile isDigit
  let afterWhole := cs.dropWhile isDigit
  let afterPoint := match afterWhole with
    | '.' :: rest => rest
    | _ => []
  let fraction := afterPoint.takeWhile isDigit
  let tail := match afterWhole with
    | '.' :: rest => rest.dropWhile isDigit
    | rest => rest
  if whole.isEmpty && fraction.isEmpty then none
  else (readExponent tail).map fun exponent =>
    ofDecimal negative (digitsValue (digitsValue 0 whole) fraction) (exponent - fraction.length)

def readUnsignedNumber (negative : Bool) (cs : List Char) : Option Binary64 :=
  let name := String.ofList (cs.map Char.toLower)
  if name = "inf" ∨ name = "infinity" then some (infinity negative)
  else if name = "nan" then some (nan negative)
  else readDecimal negative cs

/-- The number that the whole text spells. -/
def read : List Char → Option Binary64
  | '-' :: cs => readUnsignedNumber true cs
  | '+' :: cs => readUnsignedNumber false cs
  | cs => readUnsignedNumber false cs

end SemanticHypergraph.Binary64
