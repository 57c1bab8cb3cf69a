import SemanticHypergraph.Json.Basic
import SemanticHypergraph.Text.Hex

/-!
# Writing JSON

A value is written either on one line without blanks, or with a line for every item and member and
two more blanks of indentation for every container around it.
-/
namespace SemanticHypergraph.Json

open Text

/-- Numbers keep a point, and from 10¹⁶ on or below 10⁻⁵ they are written with an exponent. -/
def layout : Binary64.Layout where
  tie := .even
  inFull point := -5 < point && point ≤ 16
  keepsPoint := true
  infinite := "null"
  notANumber := "null"

/-- Infinities and NaN are no JSON numbers. -/
def floatText (x : Binary64) : String := if x.isFinite then layout.write x else "null"

/-- Controls are escaped, other characters stand for themselves. -/
def escape (c : Char) : List Char :=
  match c with
  | '"' => ['\\', '"']
  | '\\' => ['\\', '\\']
  | '\x08' => ['\\', 'b']
  | '\t' => ['\\', 't']
  | '\n' => ['\\', 'n']
  | '\x0c' => ['\\', 'f']
  | '\r' => ['\\', 'r']
  | _ =>
    if c.toNat < 0x20 then
      ['\\', 'u', '0', '0', hexDigit (c.toNat / 16), hexDigit (c.toNat % 16)]
    else [c]

def quote (s : String) : String := String.ofList ('"' :: s.toList.flatMap escape ++ ['"'])

/-- The text of a value that holds no other. -/
def scalarText : Value → String
  | .flag b => if b then "true" else "false"
  | .integer n => toString n
  | .float x => floatText x
  | .text s => quote s
  | _ => "null"

namespace Value

mutual

/-- The text on one line. -/
def compact : Value → String
  | list items => "[" ++ ",".intercalate (compactItems items) ++ "]"
  | object members => "\x7b" ++ ",".intercalate (compactMembers members) ++ "\x7d"
  | v => scalarText v

def compactItems : List Value → List String
  | [] => []
  | v :: vs => compact v :: compactItems vs

def compactMembers : List (String × Value) → List String
  | [] => []
  | (name, v) :: rest => (quote name ++ ":" ++ compact v) :: compactMembers rest

end

def indent (depth : Nat) : String := String.ofList (List.replicate (2 * depth) ' ')

/-- Lines inside a container that itself lies `depth` containers deep. -/
def block (opening closing : String) (depth : Nat) (lines : List String) : String :=
  if lines.isEmpty then opening ++ closing
  else
    opening ++ "\n" ++ ",\n".intercalate (lines.map (indent (depth + 1) ++ ·)) ++ "\n" ++
      indent depth ++ closing

mutual

/-- The text on many lines, the first of which is not indented. -/
def indented (depth : Nat) : Value → String
  | list items => block "[" "]" depth (indentedItems (depth + 1) items)
  | object members => block "\x7b" "\x7d" depth (indentedMembers (depth + 1) members)
  | v => scalarText v

def indentedItems (depth : Nat) : List Value → List String
  | [] => []
  | v :: vs => indented depth v :: indentedItems depth vs

def indentedMembers (depth : Nat) : List (String × Value) → List String
  | [] => []
  | (name, v) :: rest => (quote name ++ ": " ++ indented depth v) :: indentedMembers depth rest

end

end Value

end SemanticHypergraph.Json
