/-!
# Binary floating-point numbers of 64 bits

A number is its word: a sign, eleven bits of exponent and fifty-two of fraction. A finite word stands
for `significand * 2 ^ scale` with its sign, and every operation here gives the representable number
nearest to the exact result, the one with the even significand where two are equally near.
-/
namespace SemanticHypergraph

structure Binary64 where
  bits : UInt64
  deriving DecidableEq, Repr

namespace Binary64

def isNegative (x : Binary64) : Bool := x.bits.toNat / Nat.pow 2 63 == 1

def exponentField (x : Binary64) : Nat := x.bits.toNat / Nat.pow 2 52 % 2048

def fractionField (x : Binary64) : Nat := x.bits.toNat % Nat.pow 2 52

def isFinite (x : Binary64) : Bool := x.exponentField != 2047

def isNaN (x : Binary64) : Bool := x.exponentField == 2047 && x.fractionField != 0

def significand (x : Binary64) : Nat :=
  if x.exponentField = 0 then x.fractionField else x.fractionField + Nat.pow 2 52

def scale (x : Binary64) : Int :=
  if x.exponentField = 0 then -1074 else (x.exponentField : Int) - 1075

/-- The word with the given sign whose other bits are `magnitude`. -/
def ofMagnitude (negative : Bool) (magnitude : Nat) : Binary64 :=
  ⟨UInt64.ofNat (if negative then magnitude + Nat.pow 2 63 else magnitude)⟩

def infinityMagnitude : Nat := 2047 * Nat.pow 2 52

def infinity (negative : Bool) : Binary64 := ofMagnitude negative infinityMagnitude

def zero (negative : Bool) : Binary64 := ofMagnitude negative 0

def nan (negative : Bool) : Binary64 := ofMagnitude negative (infinityMagnitude + Nat.pow 2 51)

/-- `num / den` to the nearest integer, the even one of two equally near. -/
def roundQuotient (num den : Nat) : Nat :=
  let q := num / den
  let r := num % den
  if 2 * r < den then q
  else if den < 2 * r then q + 1
  else q + q % 2

/-- The fraction `num / den` divided by `2 ^ e`. -/
def unscale (num den : Nat) (e : Int) : Nat × Nat :=
  (num * Nat.pow 2 (-e).toNat, den * Nat.pow 2 e.toNat)

/-- The scale at which the number nearest to `num / den` is written. -/
def scaleOf (num den : Nat) : Int :=
  let e : Int := (num.log2 : Int) - (den.log2 : Int) - 53
  let (n, d) := unscale num den e
  max (if n / d < Nat.pow 2 53 then e else e + 1) (-1074)

/-- The number nearest to `num / den`. -/
def ofRatio (negative : Bool) (num den : Nat) : Binary64 :=
  if num = 0 then zero negative
  else
    let e := scaleOf num den
    let (n, d) := unscale num den e
    let magnitude := (e + 1074).toNat * Nat.pow 2 52 + roundQuotient n d
    ofMagnitude negative (min magnitude infinityMagnitude)

def ofInt (n : Int) : Binary64 := ofRatio (n < 0) n.natAbs 1

/-- The number nearest to `num * 10 ^ exponent`. Beyond the exponents of the format the result is
infinite or zero, and no power of ten is computed. -/
def ofDecimal (negative : Bool) (num : Nat) (exponent : Int) : Binary64 :=
  if num = 0 then zero negative
  else
    -- `2 ^ log2 num ≤ num < 2 ^ (log2 num + 1)`, and `10 ^ k` lies between `8 ^ k` and `16 ^ k`
    if 1100 < exponent then infinity negative
    else if exponent < 0 ∧ (num.log2 : Int) + 1 + 3 * exponent < -1100 then zero negative
    else ofRatio negative (num * Nat.pow 10 exponent.toNat) (Nat.pow 10 (-exponent).toNat)

/-- The word with the other sign. -/
def negate (x : Binary64) : Binary64 := ⟨x.bits ^^^ 0x8000000000000000⟩

/-- The value as a fraction, without its sign. -/
def toRatio (x : Binary64) : Nat × Nat :=
  (x.significand * Nat.pow 2 x.scale.toNat, Nat.pow 2 (-x.scale).toNat)

/-- A NaN answers an operation with itself, made quiet. -/
def quiet (x : Binary64) : Binary64 := ⟨x.bits ||| 0x0008000000000000⟩

/-- `x + n`; a sum that is exactly zero is positive, but for `n = 0`. -/
def addInt (x : Binary64) (n : Int) : Binary64 :=
  if x.isNaN then x.quiet
  else if !x.isFinite then x
  else if n = 0 then x
  else
    let (num, den) := x.toRatio
    let sum : Int := (if x.isNegative then -(num : Int) else num) + n * den
    ofRatio (sum < 0) sum.natAbs den

/-- The product of two finite positive numbers. -/
def mulPositive (x y : Binary64) : Binary64 :=
  let (a, b) := x.toRatio
  let (c, d) := y.toRatio
  ofRatio false (a * c) (b * d)

/-- The quotient of two finite positive numbers. -/
def divPositive (x y : Binary64) : Binary64 :=
  let (a, b) := x.toRatio
  let (c, d) := y.toRatio
  ofRatio false (a * d) (b * c)

/-- The integer part of a finite number. -/
def truncate (x : Binary64) : Int :=
  let (num, den) := x.toRatio
  let n : Int := (num / den : Nat)
  if x.isNegative then -n else n

end Binary64

end SemanticHypergraph
