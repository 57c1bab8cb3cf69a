import SemanticHypergraph.Binary64.Reading
import SemanticHypergraph.Toml.Table

/-!
# Reading documents

A document is a sequence of lines: headers of tables, keys with their values, comments and empty
lines. Every reader takes the characters still to come and answers what it read with those after it,
or nothing if the text breaks the rules.
-/
namespace SemanticHypergraph.Toml

open Text

/-- A reader of one construct. -/
abbrev Reader (α : Type) := StateT (List Char) Option α

/-- Arrays and tables in braces lie inside each other at most so many deep, and a key has at most so
many parts. -/
def maxNesting : Nat := 80

namespace Reader

def fail {α : Type} : Reader α := fun _ => none

def peek : Reader (Option Char) := fun cs => some (cs.head?, cs)

def skip : Reader Unit := fun cs => some ((), cs.drop 1)

/-- The given text, which must come next. -/
def literal (s : String) : Reader Unit := fun cs =>
  if s.toList.isPrefixOf cs then some ((), cs.drop s.length) else none

def startsWith (s : String) : Reader Bool := fun cs => some (s.toList.isPrefixOf cs, cs)

def takeWhile (p : Char → Bool) : Reader (List Char) := fun cs =>
  some (cs.takeWhile p, cs.dropWhile p)

def isSpace (c : Char) : Bool := c == ' ' || c == '\t'

/-- Controls other than the tab may stand nowhere. -/
def isControl (c : Char) : Bool := (c.toNat < 0x20 && c != '\t') || c.toNat == 0x7F

def spaces : Reader Unit := do let _ ← takeWhile isSpace

/-- The rest of a comment, if one comes next. -/
def comment : Reader Unit := do
  if (← peek) = some '#' then
    let _ ← takeWhile fun c => !isControl c

/-- The end of a line, if it comes next. -/
def newline? : Reader Bool := fun cs =>
  match cs with
  | '\n' :: rest => some (true, rest)
  | '\r' :: '\n' :: rest => some (true, rest)
  | _ => some (false, cs)

/-- Blanks, comments and ends of lines. -/
def trivia : Nat → Reader Unit
  | 0 => pure ()
  | fuel + 1 => do
    spaces
    comment
    if ← newline? then trivia fuel

/-- Nothing more in this line but a comment. -/
def endOfLine : Reader Unit := do
  spaces
  comment
  if (← peek).isSome then
    unless ← newline? do fail

def isHexDigit (c : Char) : Bool := isDigit c || ('a' ≤ c && c ≤ 'f') || ('A' ≤ c && c ≤ 'F')

def digitOf (c : Char) : Nat :=
  if isDigit c then c.toNat - 48 else if 'a' ≤ c then c.toNat - 87 else c.toNat - 55

def valueIn (base : Nat) (cs : List Char) : Nat := cs.foldl (fun n c => base * n + digitOf c) 0

/-- The character of a code point in hexadecimal digits. -/
def codePoint (digits : List Char) : Option Char :=
  let n := valueIn 16 digits
  if digits.all isHexDigit && n.isValidChar then some (Char.ofNat n) else none

/-- What follows a backslash: the character meant and the text after it. -/
def escape : List Char → Option (Char × List Char)
  | 'b' :: cs => some ('\x08', cs)
  | 't' :: cs => some ('\t', cs)
  | 'n' :: cs => some ('\n', cs)
  | 'f' :: cs => some ('\x0c', cs)
  | 'r' :: cs => some ('\r', cs)
  | 'e' :: cs => some ('\x1b', cs)
  | '"' :: cs => some ('"', cs)
  | '\\' :: cs => some ('\\', cs)
  | 'x' :: cs => if cs.length < 2 then none else (codePoint (cs.take 2)).map (·, cs.drop 2)
  | 'u' :: cs => if cs.length < 4 then none else (codePoint (cs.take 4)).map (·, cs.drop 4)
  | 'U' :: cs => if cs.length < 8 then none else (codePoint (cs.take 8)).map (·, cs.drop 8)
  | _ => none

/-- The rest of a text in double quotes on one line, after the letters read so far. -/
def basicFrom (letters : List Char) : Nat → List Char → Option (String × List Char)
  | 0, _ => none
  | _ + 1, [] => none
  | fuel + 1, c :: cs =>
    if c == '"' then some (String.ofList letters.reverse, cs)
    else if c == '\\' then
      match escape cs with
      | some (d, rest) => basicFrom (d :: letters) fuel rest
      | none => none
    else if isControl c then none
    else basicFrom (c :: letters) fuel cs

/-- The rest of a text in single quotes on one line: no escapes. -/
def literalFrom (cs : List Char) : Option (String × List Char) :=
  match cs.dropWhile fun c => c != '\'' && !isControl c with
  | '\'' :: rest =>
    some (String.ofList (cs.takeWhile fun c => c != '\'' && !isControl c), rest)
  | _ => none

/-- The end of a text of several lines: up to two quotes may belong to the text. -/
def closing (quote : Char) (cs : List Char) : Option (List Char × List Char) :=
  let run := (cs.takeWhile (· == quote)).length
  if run < 3 then none
  else
    let inner := min (run - 3) 2
    some (List.replicate inner quote, cs.drop (inner + 3))

/-- A line that ends after the blanks at hand. -/
def endsLine (cs : List Char) : Bool :=
  match cs.dropWhile isSpace with
  | '\n' :: _ => true
  | '\r' :: '\n' :: _ => true
  | _ => false

/-- What follows the blanks and the ends of lines at hand. -/
def dropLines : List Char → List Char
  | [] => []
  | '\r' :: '\n' :: cs => dropLines cs
  | c :: cs => if isSpace c || c == '\n' then dropLines cs else c :: cs

/-- The rest of a text of several lines. In double quotes a backslash starts an escape, or takes away
the end of its line and the blanks that follow. -/
def linesFrom (quote : Char) (letters : List Char) : Nat → List Char → Option (String × List Char)
  | 0, _ => none
  | _ + 1, [] => none
  | fuel + 1, c :: cs =>
    match if c == quote then closing quote (c :: cs) else none with
    | some (inner, rest) => some (String.ofList (letters.reverse ++ inner), rest)
    | none =>
      if c == '\\' && quote == '"' then
        if endsLine cs then linesFrom quote letters fuel (dropLines cs)
        else
          match escape cs with
          | some (d, rest) => linesFrom quote (d :: letters) fuel rest
          | none => none
      else if c == '\n' || (c == '\r' && cs.head? == some '\n') then
        linesFrom quote (c :: letters) fuel cs
      else if isControl c then none
      else linesFrom quote (c :: letters) fuel cs

/-- A text of one line in quotes. -/
def quotedLine : Reader String := fun cs =>
  match cs with
  | '"' :: rest => basicFrom [] (rest.length + 1) rest
  | '\'' :: rest => literalFrom rest
  | _ => none

/-- A text in quotes; three of them open one of several lines, whose first line end does not count. -/
def quoted : Reader String := do
  let triple ← (do return (← startsWith "\"\"\"") || (← startsWith "'''"))
  if triple then
    let quote := ((← peek).getD '"')
    fun cs => do
      let (_, rest) ← newline? (cs.drop 3)
      linesFrom quote [] (rest.length + 1) rest
  else quotedLine

def isBareKey (c : Char) : Bool := c.isAlphanum || c == '_' || c == '-'

def simpleKey : Reader String := do
  match ← peek with
  | some '"' => quotedLine
  | some '\'' => quotedLine
  | _ =>
    let letters ← takeWhile isBareKey
    if letters.isEmpty then fail else return String.ofList letters

/-- The parts of a key, latest first. -/
def keyFrom (parts : List String) : Nat → Reader (List String)
  | 0 => fail
  | fuel + 1 => do
    spaces
    let part ← simpleKey
    spaces
    if (← peek) = some '.' then
      skip
      keyFrom (part :: parts) fuel
    else return part :: parts

/-- The path of a key and its last part. -/
def key (fuel : Nat) : Reader (List String × String) := do
  match ← keyFrom [] fuel with
  | [] => fail
  | last :: path => if maxNesting ≤ path.length then fail else return (path.reverse, last)

/-- Groups of digits with single underscores between digits. -/
def underscored (isDigit : Char → Bool) (cs : List Char) : Option (List Char) :=
  let groups := (String.ofList cs).splitOn "_"
  if groups.all fun g => !g.isEmpty && g.toList.all isDigit then
    some (cs.filter (· != '_'))
  else none

/-- An integer, if it can be held at all. -/
def boundedInteger (n : Int) : Value :=
  if -Int.ofNat (Nat.pow 2 127) ≤ n ∧ n < Int.ofNat (Nat.pow 2 128) then .integer n else .oversized

def isOctalDigit (c : Char) : Bool := '0' ≤ c && c ≤ '7'

def isBinaryDigit (c : Char) : Bool := c == '0' || c == '1'

/-- No zero before another digit. -/
def plainDigits (cs : List Char) : Bool := cs.length == 1 || cs.head? != some '0'

def unsignedInteger (cs : List Char) : Option Nat := do
  let digits ← underscored isDigit cs
  if plainDigits digits then some (valueIn 10 digits) else none

def exponentPart : List Char → Bool
  | [] => true
  | c :: cs =>
    (c == 'e' || c == 'E') &&
      (underscored isDigit (if cs.head? == some '+' || cs.head? == some '-' then cs.drop 1
        else cs)).isSome

/-- A number with a fraction or an exponent. -/
def isFloat (cs : List Char) : Bool :=
  let inNumber := fun c => isDigit c || c == '_'
  let whole := cs.takeWhile inNumber
  let rest := cs.dropWhile inNumber
  (unsignedInteger whole).isSome && !rest.isEmpty &&
    match rest with
    | '.' :: tail =>
      (underscored isDigit (tail.takeWhile inNumber)).isSome && exponentPart (tail.dropWhile inNumber)
    | tail => exponentPart tail

/-- A number in decimal notation, if there is one near it that can be held. -/
def boundedFloat (cs : List Char) : Value :=
  if (Binary64.read (cs.filter (· != '_'))).any Binary64.isFinite then .float else .oversized

def number (negative signed : Bool) (cs : List Char) : Option Value :=
  match cs with
  | ['i', 'n', 'f'] => some .float
  | ['n', 'a', 'n'] => some .float
  | '0' :: 'x' :: digits =>
    if signed then none else (underscored isHexDigit digits).map fun ds => boundedInteger (valueIn 16 ds)
  | '0' :: 'o' :: digits =>
    if signed then none else (underscored isOctalDigit digits).map fun ds => boundedInteger (valueIn 8 ds)
  | '0' :: 'b' :: digits =>
    if signed then none else (underscored isBinaryDigit digits).map fun ds => boundedInteger (valueIn 2 ds)
  | _ =>
    match unsignedInteger cs with
    | some n => some (boundedInteger (if negative then -n else n))
    | none => if isFloat cs then some (boundedFloat cs) else none

/-- The number of `n` digits at the start, if it lies between the bounds. -/
def field (n low high : Nat) (cs : List Char) : Option (Nat × List Char) :=
  let digits := cs.take n
  let value := valueIn 10 digits
  if digits.length = n ∧ digits.all isDigit ∧ low ≤ value ∧ value ≤ high then
    some (value, cs.drop n)
  else none

def daysOf (year month : Nat) : Nat :=
  if month = 2 then
    if year % 4 = 0 ∧ (year % 100 ≠ 0 ∨ year % 400 = 0) then 29 else 28
  else if month = 4 ∨ month = 6 ∨ month = 9 ∨ month = 11 then 30
  else 31

def dashed (cs : List Char) : Option (List Char) :=
  if cs.head? == some '-' then some (cs.drop 1) else none

def afterColon (cs : List Char) : Option (List Char) :=
  if cs.head? == some ':' then some (cs.drop 1) else none

/-- Year, month and day, and what follows them. -/
def date (cs : List Char) : Option (List Char) := do
  let (year, cs) ← field 4 0 9999 cs
  let (month, cs) ← field 2 1 12 (← dashed cs)
  let (_, cs) ← field 2 1 (daysOf year month) (← dashed cs)
  return cs

/-- A fraction of a second, if there is one. -/
def fraction (cs : List Char) : Option (List Char) :=
  match cs with
  | '.' :: rest => if (rest.takeWhile isDigit).isEmpty then none else some (rest.dropWhile isDigit)
  | _ => some cs

/-- Hours and minutes and, if given, seconds. -/
def time (cs : List Char) : Option (List Char) := do
  let (_, cs) ← field 2 0 23 cs
  let (_, cs) ← field 2 0 59 (← afterColon cs)
  match afterColon cs with
  | none => return cs
  | some rest =>
    let (_, cs) ← field 2 0 60 rest
    fraction cs

def offset : List Char → Option (List Char)
  | [] => some []
  | c :: cs =>
    if c == 'Z' || c == 'z' then some cs
    else if c == '+' || c == '-' then do
      let (_, cs) ← field 2 0 23 cs
      let (_, cs) ← field 2 0 59 (← afterColon cs)
      return cs
    else none

def isDate (cs : List Char) : Bool :=
  match date cs with
  | some [] => true
  | some (c :: rest) =>
    (c == 'T' || c == 't' || c == ' ') && ((time rest).bind offset) == some []
  | none => time cs == some []

/-- Characters of which numbers, dates and words are made. -/
def isScalarChar (c : Char) : Bool :=
  c.isAlphanum || c == '_' || c == '-' || c == '+' || c == '.' || c == ':'

def scalarOf (cs : List Char) : Option Value :=
  if cs = "true".toList then some (.boolean true)
  else if cs = "false".toList then some (.boolean false)
  else if isDate cs then some .date
  else
    match cs with
    | '-' :: rest => number true true rest
    | '+' :: rest => number false true rest
    | _ => number false false cs

/-- The time that follows a date after a space, with that space. -/
def spacedTime (word : List Char) : Reader (List Char) := fun cs =>
  match cs with
  | ' ' :: d :: rest =>
    if date word == some [] && isDigit d then
      some (' ' :: d :: rest.takeWhile isScalarChar, rest.dropWhile isScalarChar)
    else some ([], cs)
  | _ => some ([], cs)

/-- A number, a date or a word. A space may stand between a date and its time. -/
def scalar : Reader Value := do
  let word ← takeWhile isScalarChar
  let tail ← spacedTime word
  fun cs => (scalarOf (word ++ tail)).map (·, cs)

/-- The level inside a container; there are not endlessly many. -/
def inside (levels : Nat) : Reader Nat :=
  match levels with
  | 0 => fail
  | levels + 1 => do
    skip
    return levels

mutual

/-- A value of at most so many levels. -/
def value (levels : Nat) : Nat → Reader Value
  | 0 => fail
  | fuel + 1 => do
    match ← peek with
    | some '"' => return .text (← quoted)
    | some '\'' => return .text (← quoted)
    | some '[' => do return .array (← items (← inside levels) [] fuel)
    | some '\x7b' => do
      return (Node.table .header (← fields (← inside levels) [] fuel)).finish
    | _ => scalar

/-- The rest of an array after the items read so far, latest first. -/
def items (levels : Nat) (found : List Value) : Nat → Reader (List Value)
  | 0 => fail
  | fuel + 1 => do
    trivia fuel
    if (← peek) = some ']' then
      skip
      return found.reverse
    let v ← value levels fuel
    trivia fuel
    match ← peek with
    | some ',' => do
      skip
      items levels (v :: found) fuel
    | some ']' => do
      skip
      return (v :: found).reverse
    | _ => fail

/-- The rest of a table in braces after the entries read so far. -/
def fields (levels : Nat) (found : Entries) : Nat → Reader Entries
  | 0 => fail
  | fuel + 1 => do
    trivia fuel
    if (← peek) = some '\x7d' then
      skip
      return found
    let (path, last) ← key fuel
    trivia fuel
    literal "="
    trivia fuel
    let v ← value levels fuel
    trivia fuel
    match found.assign path last v with
    | none => fail
    | some entries =>
      match ← peek with
      | some ',' => do
        skip
        fields levels entries fuel
      | some '\x7d' => do
        skip
        return entries
      | _ => fail

end

/-- The document so far and the path to the table that is being filled. -/
structure Draft where
  entries : Entries
  header : List String

/-- A header; one in doubled brackets may be repeated. -/
def header (fuel : Nat) (draft : Draft) : Reader Draft := do
  let repeats ← startsWith "[["
  literal (if repeats then "[[" else "[")
  let (path, last) ← key fuel
  literal (if repeats then "]]" else "]")
  endOfLine
  let opened := if repeats then draft.entries.appendTable path last
    else draft.entries.openTable path last
  match opened with
  | some entries => return ⟨entries, path ++ [last]⟩
  | none => fail

def keyValue (fuel : Nat) (draft : Draft) : Reader Draft := do
  let (path, last) ← key fuel
  literal "="
  spaces
  let v ← value maxNesting fuel
  endOfLine
  match draft.entries.assignUnder draft.header path last v with
  | some entries => return { draft with entries := entries }
  | none => fail

def document (draft : Draft) : Nat → Reader Entries
  | 0 => fail
  | fuel + 1 => do
    trivia (fuel + 1)
    match ← peek with
    | none => return draft.entries
    | some '[' => document (← header (fuel + 1) draft) fuel
    | _ => document (← keyValue (fuel + 1) draft) fuel

end Reader

/-- The entries of a document, or nothing if it is none. Each step of the reader takes a character,
so their number bounds the steps. -/
def read (text : String) : Option (List (String × Value)) :=
  let cs := text.toList
  let cs := if cs.head? == some '\ufeff' then cs.drop 1 else cs
  (Reader.document ⟨[], []⟩ (cs.length + 2) cs).map fun (entries, _) => finishEntries entries

end SemanticHypergraph.Toml
