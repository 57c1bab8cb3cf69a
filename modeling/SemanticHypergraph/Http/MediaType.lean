import SemanticHypergraph.Text.Numeral

/-!
# Media types

A media type is two tokens around a slash and a list of parameters, each after a semicolon. A body is
JSON if its type is `application/json` or has that format as its suffix, in any case of letters.
-/
namespace SemanticHypergraph.Http

open Text

def isLetter (c : Char) : Bool := ('a' ≤ c && c ≤ 'z') || ('A' ≤ c && c ≤ 'Z')

def isTokenChar (c : Char) : Bool :=
  isLetter c || isDigit c || ("!#$%&'*+-.^_\x60|~".toList).contains c

/-- What may stand in a quoted value. -/
def isQuotedChar (c : Char) : Bool := 0x1F < c.toNat && c.toNat != 0x7F

/-- How far the list of parameters has been read. -/
inductive ParameterState where
  | start
  | name
  | beforeValue
  | token
  /-- After an opening quote; a quote here belongs to the value. -/
  | opened
  | quoted
  | closed
  deriving DecidableEq, Repr

namespace ParameterState

def step (state : ParameterState) (c : Char) : Option ParameterState :=
  match state with
  | start => if c = ' ' then some start else if isTokenChar c then some name else none
  | name => if c = '=' then some beforeValue else if isTokenChar c then some name else none
  | beforeValue => if c = '"' then some opened else if isTokenChar c then some token else none
  | token => if c = ';' then some start else if isTokenChar c then some token else none
  | opened => if isQuotedChar c then some quoted else none
  | quoted => if c = '"' then some closed else if isQuotedChar c then some quoted else none
  | closed => if c = ';' then some start else if c = ' ' then some closed else none

/-- The list may end here. -/
def isFinal : ParameterState → Bool
  | start => true
  | beforeValue => true
  | token => true
  | closed => true
  | _ => false

end ParameterState

/-- The text after a semicolon is a list of parameters. -/
def areParameters (cs : List Char) : Bool :=
  (cs.foldlM ParameterState.step .start).any ParameterState.isFinal

structure MediaType where
  type : List Char
  subtype : List Char
  deriving DecidableEq, Repr

namespace MediaType

/-- Reads a type in lower case; its parameters are checked and left out. -/
def read (cs : List Char) : Option MediaType :=
  let type := cs.takeWhile isTokenChar
  match cs.dropWhile isTokenChar with
  | '/' :: rest =>
    let subtype := rest.takeWhile isTokenChar
    let isValid := match rest.dropWhile isTokenChar with
      | [] => true
      | ';' :: parameters => !subtype.isEmpty && areParameters parameters
      | _ => false
    if type.isEmpty || !isValid then none
    else some ⟨type.map Char.toLower, subtype.map Char.toLower⟩
  | _ => none

/-- The subtype before its last plus and the suffix after it. A plus at the start separates
nothing. -/
def suffix (m : MediaType) : List Char × Option (List Char) :=
  let reversed := m.subtype.reverse
  match reversed.dropWhile (· != '+') with
  | _ :: before@(_ :: _) => (before.reverse, some (reversed.takeWhile (· != '+')).reverse)
  | _ => (m.subtype, none)

def isJson (m : MediaType) : Bool :=
  let (subtype, suffix) := m.suffix
  m.type == "application".toList && (subtype == "json".toList || suffix == some "json".toList)

end MediaType

/-- The text names a type of JSON. -/
def namesJson (text : String) : Bool := (MediaType.read text.toList).any MediaType.isJson

end SemanticHypergraph.Http
