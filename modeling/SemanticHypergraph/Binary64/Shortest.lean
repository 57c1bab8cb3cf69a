import SemanticHypergraph.Binary64.Basic

/-!
# The shortest decimal of a number

Every decimal that lies in the interval of reals nearest to a finite number reads back as that
number. `shortest` finds the fewest digits with which that is possible and, among the decimals with
so few digits, the one nearest to the number. The search takes the grids of 1, 2, … 17 digits in turn
and tests the two grid points around the number; all comparisons are between integers.
-/
namespace SemanticHypergraph.Binary64

/-- The decimal `digits * 10 ^ exponent`. -/
structure Decimal where
  digits : Nat
  exponent : Int
  deriving DecidableEq, Repr

/-- What decides between two equally near decimals. -/
inductive Tie where
  | up
  | even
  deriving DecidableEq, Repr

/-- The reals nearest to a number, as multiples of one unit: from `low` to `high` around `value`,
where `unit = num / den`. The ends belong to the interval if `closed`. -/
structure Interval where
  low : Nat
  value : Nat
  high : Nat
  num : Nat
  den : Nat
  closed : Bool
  deriving Repr

/-- The neighbour below a power of two is half as far as the one above. -/
def interval (x : Binary64) : Interval :=
  let m := x.significand
  let q := x.scale - 2
  let below := if x.fractionField = 0 ∧ 1 < x.exponentField then 1 else 2
  { low := 4 * m - below, value := 4 * m, high := 4 * m + 2
    num := Nat.pow 2 q.toNat, den := Nat.pow 2 (-q).toNat, closed := m % 2 == 0 }

/-- `digits * 10 ^ exponent` lies in the interval. -/
def Interval.contains (i : Interval) (d : Decimal) : Bool :=
  let point := d.digits * Nat.pow 10 d.exponent.toNat * i.den
  let unit := i.num * Nat.pow 10 (-d.exponent).toNat
  if i.closed then i.low * unit ≤ point && point ≤ i.high * unit
  else i.low * unit < point && point < i.high * unit

/-- The greatest multiple of `10 ^ exponent` that is not above the value, and whether the value lies
nearer to it than to the next one. -/
def Interval.floor (i : Interval) (exponent : Int) : Nat × Ordering :=
  let unit := Nat.pow 10 exponent.toNat * i.den
  let value := i.value * i.num * Nat.pow 10 (-exponent).toNat
  let digits := value / unit
  (digits, compare (2 * (value % unit)) unit)

/-- The better of the two grid points around the value, if one lies in the interval. -/
def Interval.onGrid (i : Interval) (tie : Tie) (exponent : Int) : Option Decimal :=
  let (digits, side) := i.floor exponent
  let below : Decimal := ⟨digits, exponent⟩
  let above : Decimal := ⟨digits + 1, exponent⟩
  match i.contains below && digits != 0, i.contains above with
  | false, false => none
  | true, false => some below
  | false, true => some above
  | true, true =>
    match side with
    | .lt => some below
    | .gt => some above
    | .eq =>
      match tie with
      | .up => some above
      | .even => some (if digits % 2 = 0 then below else above)

/-- Tries grids that grow finer by one digit, `fuel` of them. -/
def Interval.search (i : Interval) (tie : Tie) (exponent : Int) : Nat → Decimal
  | 0 => ⟨i.value * i.num / i.den, 0⟩
  | fuel + 1 =>
    match i.onGrid tie exponent with
    | some d => d
    | none => i.search tie (exponent - 1) fuel

/-- An exponent of ten at or above that of the leading digit. -/
def leadingExponent (x : Binary64) : Int :=
  (((x.significand.log2 : Int) + x.scale + 1) * 30103).fdiv 100000 + 1

/-- Takes the zeros off the end of the digits. -/
def Decimal.strip (d : Decimal) : Nat → Decimal
  | 0 => d
  | fuel + 1 =>
    if d.digits % 10 = 0 ∧ d.digits ≠ 0 then
      Decimal.strip ⟨d.digits / 10, d.exponent + 1⟩ fuel
    else d

/-- The shortest decimal that reads back as the finite number `x`, without its sign. -/
def shortest (tie : Tie) (x : Binary64) : Decimal :=
  if x.significand = 0 then ⟨0, 0⟩
  else (x.interval.search tie x.leadingExponent 22).strip 22

end SemanticHypergraph.Binary64
