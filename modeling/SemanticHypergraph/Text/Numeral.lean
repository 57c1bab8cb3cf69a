/-!
# Numerals

Decimal digits and the numbers that they spell. A sign may precede the digits where the caller
allows one; nothing else may stand around them.
-/
namespace SemanticHypergraph.Text

def isDigit (c : Char) : Bool := '0' ≤ c && c ≤ '9'

def digitValue (c : Char) : Nat := c.toNat - 48

/-- The number that the digits spell after those of `n`. -/
def digitsValue (n : Nat) (cs : List Char) : Nat := cs.foldl (fun n c => 10 * n + digitValue c) n

/-- One or more digits. -/
def readDigits (cs : List Char) : Option Nat :=
  if cs.isEmpty || !cs.all isDigit then none else some (digitsValue 0 cs)

/-- Digits after an optional plus. -/
def readUnsigned : List Char → Option Nat
  | '+' :: cs => readDigits cs
  | cs => readDigits cs

/-- Digits after an optional sign. -/
def readSigned : List Char → Option Int
  | '-' :: cs => (readDigits cs).map fun n => -(n : Int)
  | cs => (readUnsigned cs).map Int.ofNat

/-- An unsigned number below `2 ^ width`. -/
def readWord (width : Nat) (cs : List Char) : Option Nat :=
  (readUnsigned cs).filter (· < Nat.pow 2 width)

/-- The least signed number of 64 bits. -/
def minInt64 : Int := -0x8000000000000000

/-- The greatest signed number of 64 bits. -/
def maxInt64 : Int := 0x7FFFFFFFFFFFFFFF

/-- A signed number of 64 bits. -/
def readInt64 (cs : List Char) : Option Int64 :=
  match readSigned cs with
  | some n => if minInt64 ≤ n ∧ n ≤ maxInt64 then some (Int64.ofInt n) else none
  | none => none

end SemanticHypergraph.Text
