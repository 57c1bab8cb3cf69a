import SemanticHypergraph.Binary64.Shortest

/-!
# Writing decimals

A layout says how the shortest decimal of a number is set out: for which positions of the point it is
written in full, whether an integral value keeps a `.0`, and what infinities and NaN are called.
-/
namespace SemanticHypergraph.Binary64

/-- The number of digits before the point, were the decimal written in full, is the `point`; it is
negative or zero when the value is below one. -/
structure Layout where
  tie : Tie
  /-- Positions of the point at which no exponent is written. -/
  inFull : Int → Bool
  /-- An integral value written in full ends in `.0`. -/
  keepsPoint : Bool
  infinite : String
  notANumber : String

namespace Layout

def digitChars (n : Nat) : List Char := Nat.toDigits 10 n

def zeros (n : Nat) : List Char := List.replicate n '0'

/-- The digits with the point after the first `point` of them. -/
def full (l : Layout) (digits : List Char) (point : Int) : List Char :=
  if (digits.length : Int) ≤ point then
    digits ++ zeros (point.toNat - digits.length) ++ (if l.keepsPoint then ['.', '0'] else [])
  else if 0 < point then digits.take point.toNat ++ '.' :: digits.drop point.toNat
  else '0' :: '.' :: zeros (-point).toNat ++ digits

/-- One digit before the point, and the power of ten with its sign. -/
def scientific (digits : List Char) (point : Int) : List Char :=
  let mantissa :=
    match digits with
    | [] => []
    | [d] => [d]
    | d :: ds => d :: '.' :: ds
  let power := point - 1
  mantissa ++ 'e' :: (if power < 0 then '-' else '+') :: digitChars power.natAbs

def decimal (l : Layout) (d : Decimal) : List Char :=
  let digits := digitChars d.digits
  let point := (digits.length : Int) + d.exponent
  if l.inFull point then l.full digits point else scientific digits point

def chars (l : Layout) (x : Binary64) : List Char :=
  if x.isNaN then l.notANumber.toList
  else
    (if x.isNegative then ['-'] else []) ++
      (if x.isFinite then l.decimal (shortest l.tie x) else l.infinite.toList)

def write (l : Layout) (x : Binary64) : String := String.ofList (l.chars x)

end Layout

end SemanticHypergraph.Binary64
