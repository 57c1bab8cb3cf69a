/-!
# Numbers of variable length

A number is written seven bits to a byte, low bits first; every byte but the last has its high bit
set. Signed numbers are folded onto unsigned ones so that small ones stay short.
-/
namespace SemanticHypergraph.Snapshot

/-- What can be wrong with a payload. -/
inductive PayloadFault where
  | endOfData
  | unterminatedNumber
  | notABool
  | notAnOption
  | invalidText
  | unknownVariant
  deriving DecidableEq, Repr

def PayloadFault.message : PayloadFault → String
  | endOfData => "Hit the end of buffer, expected more data"
  | unterminatedNumber =>
    "Found a varint that didn't terminate. Is the usize too big for this platform?"
  | notABool => "Found a bool that wasn't 0 or 1"
  | notAnOption => "Found an Option discriminant that wasn't 0 or 1"
  | invalidText => "Tried to parse invalid utf-8"
  | unknownVariant => "Serde Deserialization Error"

namespace Varint

def encode (n : Nat) : List UInt8 :=
  if n < 128 then [UInt8.ofNat n]
  else UInt8.ofNat (n % 128 + 128) :: encode (n / 128)
decreasing_by omega

/-- Reads at most `fuel` bytes, of which the last may be at most `last`. A number may be written
longer than it need be. -/
def decode (last : Nat) : Nat → List UInt8 → Except PayloadFault (Nat × List UInt8)
  | 0, _ => .error .unterminatedNumber
  | _ + 1, [] => .error .endOfData
  | fuel + 1, b :: bs =>
    if b.toNat < 128 then
      if fuel = 0 ∧ last < b.toNat then .error .unterminatedNumber else .ok (b.toNat, bs)
    else
      match decode last fuel bs with
      | .error e => .error e
      | .ok (n, rest) => .ok (b.toNat - 128 + 128 * n, rest)

/-- A number below `2 ^ 64`. -/
def decode64 (bs : List UInt8) : Except PayloadFault (Nat × List UInt8) := decode 1 10 bs

/-- A number below `2 ^ 32`. -/
def decode32 (bs : List UInt8) : Except PayloadFault (Nat × List UInt8) := decode 15 5 bs

/-- Zero, minus one, one, minus two, … in this order. -/
def fold (n : Int) : Nat := if 0 ≤ n then 2 * n.natAbs else 2 * n.natAbs - 1

def unfold (n : Nat) : Int := if n % 2 = 0 then (n / 2 : Nat) else -((n / 2 : Nat) + 1 : Int)

theorem encode_ne_nil (n : Nat) : encode n ≠ [] := by
  rw [encode]
  split <;> simp

theorem unfold_fold (n : Int) : unfold (fold n) = n := by
  unfold Varint.fold Varint.unfold
  split <;> split <;> omega

end Varint

end SemanticHypergraph.Snapshot
