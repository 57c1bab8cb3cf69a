import SemanticHypergraph.Text.Quoted
import SemanticHypergraph.Entity.Basic
import SemanticHypergraph.Entity.Token

/-!
# Reading entities

A word is an atom of one to three parts between slashes, and an edge is a parenthesised, non-empty
sequence of entities nested at most 256 deep. A text that is refused is refused at its first fault,
with the byte at which the fault lies.
-/
namespace SemanticHypergraph

open Text

/-- Longest text that is read, in bytes. -/
def maxTextLength : Nat := 1048576

/-- Deepest nesting that is read. -/
def maxNesting : Nat := 256

/-- What can be wrong with a text. -/
inductive Fault where
  | textTooLong (length : Nat)
  | unexpectedEnd
  | unbalancedClosing
  | trailingInput
  | missingClosing
  | emptyEdge
  | tooDeep
  | emptyWord
  | invalidCharacter (c : Char)
  | tooManyParts (word : List Char)
  | emptyRoot
  | emptyNamespace (word : List Char)
  | emptyType (word : List Char)
  deriving DecidableEq, Repr

namespace Fault

def message : Fault → String
  | textTooLong n =>
    "input length " ++ toString n ++ " exceeds maximum " ++ toString maxTextLength ++ " bytes"
  | unexpectedEnd => "unexpected end of input"
  | unbalancedClosing => "unbalanced ')'"
  | trailingInput => "unexpected input after entity"
  | missingClosing => "unbalanced '(': missing ')'"
  | emptyEdge => "empty edge '()'"
  | tooDeep => "nesting deeper than " ++ toString maxNesting ++ " levels"
  | emptyWord => "empty atom token"
  | invalidCharacter c => "invalid character " ++ quoteChar c ++ " in atom token"
  | tooManyParts w => "atom '" ++ String.ofList w ++ "' has more than three parts"
  | emptyRoot => "empty atom root"
  | emptyNamespace w => "empty namespace in atom '" ++ String.ofList w ++ "'"
  | emptyType w => "empty type in atom '" ++ String.ofList w ++ "'"

end Fault

/-- A fault and the byte at which it lies. -/
structure Refusal where
  fault : Fault
  position : Nat
  deriving DecidableEq, Repr

def Refusal.toError (r : Refusal) : Error := .parse r.fault.message r.position

namespace Atom

/-- The first character that cannot stand in a word, with its byte. -/
def findDelimiter (position : Nat) : List Char → Option (Char × Nat)
  | [] => none
  | c :: cs =>
    if Token.isDelimiter c then some (c, position) else findDelimiter (position + c.utf8Size) cs

/-- Splits on at a slash; `done` and `letters` hold what came before, latest first. -/
def splitFrom (done : List (List Char)) (letters : List Char) : List Char → List (List Char)
  | [] => (letters.reverse :: done).reverse
  | c :: cs =>
    if c = '/' then splitFrom (letters.reverse :: done) [] cs
    else splitFrom done (c :: letters) cs

def parts (word : List Char) : List (List Char) := splitFrom [] [] word

/-- The atom that a word of at most three parts spells. An empty type is no type, but only where a
namespace follows it. -/
def ofParts (position : Nat) (word : List Char) : List (List Char) → Except Refusal Atom
  | [root] =>
    if root.isEmpty then .error ⟨.emptyRoot, position⟩
    else .ok { root := String.ofList root }
  | [root, kind] =>
    if root.isEmpty then .error ⟨.emptyRoot, position⟩
    else if kind.isEmpty then .error ⟨.emptyType word, position⟩
    else .ok { root := String.ofList root, kind := some (String.ofList kind) }
  | [root, kind, scope] =>
    if root.isEmpty then .error ⟨.emptyRoot, position⟩
    else if scope.isEmpty then .error ⟨.emptyNamespace word, position⟩
    else .ok {
      root := String.ofList root
      kind := if kind.isEmpty then none else some (String.ofList kind)
      scope := some (String.ofList scope) }
  | _ => .error ⟨.tooManyParts word, position⟩

/-- The atom that a word spells, the word starting at byte `position`. -/
def ofWord (position : Nat) (word : List Char) : Except Refusal Atom :=
  if word.isEmpty then .error ⟨.emptyWord, position⟩
  else
    match findDelimiter position word with
    | some (c, p) => .error ⟨.invalidCharacter c, p⟩
    | none => ofParts position word (parts word)

def read (cs : List Char) : Except Refusal Atom := ofWord 0 cs

def parse (text : String) : Except Error Atom := (read text.toList).mapError Refusal.toError

end Atom

namespace Entity

/-- An edge whose closing parenthesis is still to come: the byte of its opening one and the children
read so far, latest first. -/
structure OpenEdge where
  position : Nat
  children : List Entity

/-- Reads on inside `top`, which lies inside the edges `below`, to the end of the outermost one. -/
def readInside (top : OpenEdge) (below : List OpenEdge) :
    List Token → Except Refusal (Entity × List Token)
  | [] => .error ⟨.missingClosing, top.position⟩
  | .word p w :: ts =>
    match Atom.ofWord p w with
    | .error r => .error r
    | .ok a => readInside { top with children := .atom a :: top.children } below ts
  | .opening p :: ts =>
    if maxNesting ≤ below.length + 1 then .error ⟨.tooDeep, p⟩
    else readInside ⟨p, []⟩ (top :: below) ts
  | .closing _ :: ts =>
    if top.children.isEmpty then .error ⟨.emptyEdge, top.position⟩
    else
      match below with
      | [] => .ok (.edge top.children.reverse, ts)
      | outer :: rest =>
        readInside { outer with children := .edge top.children.reverse :: outer.children } rest ts

/-- The entity, unless something follows it. -/
def ensureEnd (e : Entity) : List Token → Except Refusal Entity
  | [] => .ok e
  | .closing p :: _ => .error ⟨.unbalancedClosing, p⟩
  | .word p _ :: _ => .error ⟨.trailingInput, p⟩
  | .opening p :: _ => .error ⟨.trailingInput, p⟩

/-- Reads one entity; the text ends at byte `finish`. -/
def readTokens (finish : Nat) : List Token → Except Refusal Entity
  | [] => .error ⟨.unexpectedEnd, finish⟩
  | .closing p :: _ => .error ⟨.unbalancedClosing, p⟩
  | .word p w :: ts =>
    match Atom.ofWord p w with
    | .error r => .error r
    | .ok a => ensureEnd (.atom a) ts
  | .opening p :: ts =>
    match readInside ⟨p, []⟩ [] ts with
    | .error r => .error r
    | .ok (e, rest) => ensureEnd e rest

/-- Reads a text of `length` bytes. -/
def readSized (length : Nat) (cs : List Char) : Except Refusal Entity :=
  if maxTextLength < length then .error ⟨.textTooLong length, 0⟩
  else readTokens length (Token.scan cs)

def read (cs : List Char) : Except Refusal Entity := readSized (byteLength cs) cs

def parse (text : String) : Except Error Entity :=
  (readSized text.utf8ByteSize text.toList).mapError Refusal.toError

end Entity

end SemanticHypergraph
