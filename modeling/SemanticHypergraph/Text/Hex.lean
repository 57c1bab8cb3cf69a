/-!
# Bytes as text

Bytes are written in two ways: as pairs of lower-case hexadecimal digits, and in base 64, where
every three bytes are four digits of six bits. Where the last group of base 64 is not full, equals
signs stand for the digits that hold no bit of it.
-/
namespace SemanticHypergraph.Text

/-! ## Hexadecimal -/

def hexDigit (n : Nat) : Char := if n < 10 then Char.ofNat (48 + n) else Char.ofNat (87 + n)

def hexOfBytes (bs : List UInt8) : String :=
  String.ofList (bs.flatMap fun b => [hexDigit (b.toNat / 16), hexDigit (b.toNat % 16)])

/-! ## Base 64 -/

/-- A digit of six bits: letters of both cases, figures, plus and slash. -/
def base64Digit (n : Nat) : Char :=
  if n < 26 then Char.ofNat (65 + n)
  else if n < 52 then Char.ofNat (71 + n)
  else if n < 62 then Char.ofNat (n - 4)
  else if n = 62 then '+'
  else '/'

def base64Chars : List UInt8 → List Char
  | [] => []
  | [a] =>
    let n := a.toNat * 16
    [base64Digit (n / 64), base64Digit (n % 64), '=', '=']
  | [a, b] =>
    let n := (a.toNat * 256 + b.toNat) * 4
    [base64Digit (n / 4096), base64Digit (n / 64 % 64), base64Digit (n % 64), '=']
  | a :: b :: c :: bs =>
    let n := (a.toNat * 256 + b.toNat) * 256 + c.toNat
    base64Digit (n / 262144) :: base64Digit (n / 4096 % 64) :: base64Digit (n / 64 % 64) ::
      base64Digit (n % 64) :: base64Chars bs

def base64OfBytes (bs : List UInt8) : String := String.ofList (base64Chars bs)

example : base64OfBytes [0x66, 0x6F, 0x6F, 0x62] = "Zm9vYg==" := by decide

end SemanticHypergraph.Text
