import SemanticHypergraph.Json.Numeral
import SemanticHypergraph.Text.Hex

/-!
# Reading JSON

A reader takes the characters still to come and answers what it read with those after it, or the
first fault. `value` reads any value; `skipValue` passes over one and forgives what is wrong with its
contents alone: a number too great, an unpaired half of a character, too many containers inside each
other.
-/
namespace SemanticHypergraph.Json

open Text

/-- A reader of one construct. -/
abbrev Reader (α : Type) := StateT (List Char) (Except Fault) α

/-- Containers lie inside each other at most so many deep. -/
def maxNesting : Nat := 127

namespace Reader

def fail {α : Type} (f : Fault) : Reader α := fun _ => .error f

def isSpace (c : Char) : Bool := c == ' ' || c == '\t' || c == '\n' || c == '\r'

/-- The next character after blanks, which stays; the text may not end here. -/
def peek : Reader Char := fun cs =>
  match cs.dropWhile isSpace with
  | [] => .error .malformed
  | c :: rest => .ok (c, c :: rest)

def skip : Reader Unit := fun cs => .ok ((), cs.drop 1)

/-- The given mark, after blanks. -/
def mark (c : Char) : Reader Unit := do
  if (← peek) = c then skip else fail .malformed

/-- The given word, which must come next. -/
def literal {α : Type} (word : String) (a : α) : Reader α := fun cs =>
  if word.toList.isPrefixOf cs then .ok (a, cs.drop word.length) else .error .malformed

def ofOption {α : Type} (read : List Char → Option (α × List Char)) : Reader α := fun cs =>
  match read cs with
  | some result => .ok result
  | none => .error .malformed

/-! ## Texts -/

/-- A part of a text in quotes: a character, or a unit of 16 bits written in hexadecimal. -/
inductive Piece where
  | char (c : Char)
  | unit (n : Nat)
  deriving DecidableEq, Repr

/-- The character that a letter after a backslash stands for. -/
def escaped : Char → Option Char
  | '"' => some '"'
  | '\\' => some '\\'
  | '/' => some '/'
  | 'b' => some '\x08'
  | 'f' => some '\x0c'
  | 'n' => some '\n'
  | 'r' => some '\r'
  | 't' => some '\t'
  | _ => none

def hexValue? (c : Char) : Option Nat :=
  if isDigit c then some (digitValue c)
  else if 'a' ≤ c ∧ c ≤ 'f' then some (c.toNat - 87)
  else if 'A' ≤ c ∧ c ≤ 'F' then some (c.toNat - 55)
  else none

def unitOf (a b c d : Char) : Option Nat := do
  return 4096 * (← hexValue? a) + 256 * (← hexValue? b) + 16 * (← hexValue? c) + (← hexValue? d)

/-- The parts up to the closing quote; `done` holds those before, latest first. -/
def piecesFrom (done : List Piece) : List Char → Option (List Piece × List Char)
  | [] => none
  | '"' :: cs => some (done.reverse, cs)
  | '\\' :: 'u' :: a :: b :: c :: d :: cs =>
    match unitOf a b c d with
    | some n => piecesFrom (.unit n :: done) cs
    | none => none
  | '\\' :: e :: cs =>
    match escaped e with
    | some c => piecesFrom (.char c :: done) cs
    | none => none
  | c :: cs => if c.toNat < 0x20 then none else piecesFrom (.char c :: done) cs

def isHighHalf (n : Nat) : Bool := 0xD800 ≤ n && n < 0xDC00

def isLowHalf (n : Nat) : Bool := 0xDC00 ≤ n && n < 0xE000

/-- The characters that the parts stand for, added to `done`; a high half is paired with a low half
right after it, and no half stands alone. -/
def joinFrom (done : List Char) : List Piece → Option (List Char)
  | [] => some done.reverse
  | .char c :: ps => joinFrom (c :: done) ps
  | .unit n :: ps =>
    if isHighHalf n then
      match ps with
      | .unit m :: rest =>
        if isLowHalf m then
          joinFrom (Char.ofNat (0x10000 + 1024 * (n - 0xD800) + (m - 0xDC00)) :: done) rest
        else none
      | _ => none
    else if isLowHalf n then none
    else joinFrom (Char.ofNat n :: done) ps

/-- The rest of a text after its opening quote. -/
def textRest : Reader String := ofOption fun cs => do
  let (pieces, rest) ← piecesFrom [] cs
  return (String.ofList (← joinFrom [] pieces), rest)

/-! ## Containers -/

/-- Goes to the next item of a list; `false` once the list has been closed. -/
def nextItem (first : Bool) : Reader Bool := do
  let c ← peek
  if c = ']' then
    skip
    return false
  else if first then return true
  else if c = ',' then
    skip
    if (← peek) = ']' then fail .malformed else return true
  else fail .malformed

/-- Goes to the next member of an object and reads its name; none once the object has been closed. -/
def nextMember (first : Bool) : Reader (Option String) := do
  let c ← peek
  if c = '\x7d' then
    skip
    return none
  else
    unless first do mark ','
    mark '"'
    return some (← textRest)

/-- The remaining items of a list. -/
def itemsFrom (item : Reader Value) (first : Bool) (done : List Value) : Nat → Reader (List Value)
  | 0 => fail .malformed
  | fuel + 1 => do
    if ← nextItem first then itemsFrom item false ((← item) :: done) fuel
    else return done.reverse

/-- The remaining members of an object. -/
def membersFrom (item : Reader Value) (first : Bool) (done : List (String × Value)) :
    Nat → Reader (List (String × Value))
  | 0 => fail .malformed
  | fuel + 1 => do
    match ← nextMember first with
    | some name =>
      mark ':'
      membersFrom item false ((name, ← item) :: done) fuel
    | none => return done.reverse

/-- A bound on what can still be read. -/
def remaining : Reader Nat := fun cs => .ok (cs.length + 1, cs)

/-! ## Values -/

/-- A value that holds no other; where a container begins instead, the shape is wrong. -/
def scalar : Reader Value := do
  let c ← peek
  if c = '"' then
    skip
    return .text (← textRest)
  else if c = '-' ∨ isDigit c then
    ofOption fun cs => do
      let (n, rest) ← Numeral.read cs
      return (← n.toValue, rest)
  else if c = '[' ∨ c = '\x7b' then fail .shape
  else if c = 't' then literal "true" (.flag true)
  else if c = 'f' then literal "false" (.flag false)
  else literal "null" .null

/-- Any value that has at most `depth` containers inside each other. -/
def value : Nat → Reader Value
  | 0 => do
    let c ← peek
    if c = '[' ∨ c = '\x7b' then fail .malformed else scalar
  | depth + 1 => do
    let c ← peek
    if c = '[' then
      skip
      return .list (← itemsFrom (value depth) true [] (← remaining))
    else if c = '\x7b' then
      skip
      return .object (← membersFrom (value depth) true [] (← remaining))
    else scalar

/-- A scalar of any contents. -/
def skipScalar : Reader Unit := do
  let c ← peek
  if c = '"' then
    skip
    ofOption fun cs => (piecesFrom [] cs).map fun (_, rest) => ((), rest)
  else if c = '-' ∨ isDigit c then ofOption fun cs => (Numeral.read cs).map fun (_, rest) => ((), rest)
  else if c = 't' then literal "true" ()
  else if c = 'f' then literal "false" ()
  else literal "null" ()

/-- What a container that is open is. -/
inductive Frame where
  | list
  | object
  deriving DecidableEq, Repr

/-- The name of a member, of any contents, and the mark after it. -/
def skipName : Reader Unit := do
  mark '"'
  let _ ← ofOption (piecesFrom [])
  mark ':'

/-- Passes over values until every open container is closed. After a value comes `fresh = false`:
then a comma or an end must follow. -/
def skipFrom (frames : List Frame) (fresh : Bool) : Nat → Reader Unit
  | 0 => fail .malformed
  | fuel + 1 =>
    match frames with
    | [] => pure ()
    | frame :: outer => do
      let closing := if frame = .list then ']' else '\x7d'
      if (← peek) = closing then
        skip
        skipFrom outer false fuel
      else
        unless fresh do mark ','
        if frame = .object then skipName
        let c ← peek
        if c = '[' then
          skip
          skipFrom (.list :: frames) true fuel
        else if c = '\x7b' then
          skip
          skipFrom (.object :: frames) true fuel
        else
          skipScalar
          skipFrom frames false fuel

/-- Passes over any value. -/
def skipValue : Reader Unit := do
  let c ← peek
  if c = '[' then
    skip
    skipFrom [.list] true (← remaining)
  else if c = '\x7b' then
    skip
    skipFrom [.object] true (← remaining)
  else skipScalar

/-- The end of the text, after blanks. -/
def endOfText : Reader Unit := fun cs =>
  if cs.all isSpace then .ok ((), []) else .error .malformed

/-- Reads a whole text. -/
def whole {α : Type} (read : Reader α) (text : String) : Except Fault α :=
  ((do
    let a ← read
    endOfText
    return a : Reader α) text.toList).map Prod.fst

end Reader

/-- Reads any value. -/
def read (text : String) : Except Fault Value := (Reader.value maxNesting).whole text

end SemanticHypergraph.Json
