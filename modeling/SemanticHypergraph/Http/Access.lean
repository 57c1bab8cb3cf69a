import SemanticHypergraph.Text.Blank
import SemanticHypergraph.Text.Numeral

/-!
# Access

Who may use the service: a client that shows the key, and a page of an origin that is allowed. The
key, the origins and the number of requests that are served in a second are texts of the
environment.
-/
namespace SemanticHypergraph.Http

open Text

/-- A character of a header's text: printable ASCII or a tab. -/
def isHeaderChar (c : Char) : Bool := (0x20 ≤ c.toNat && c.toNat < 0x7F) || c == '\t'

/-- The text of a header that can be read. -/
def isHeaderText (s : String) : Bool := s.toList.all isHeaderChar

/-- A header can carry the text, though not all of it may be readable: it holds no control but
tabs. -/
def isHeaderValue (s : String) : Bool :=
  s.toList.all fun c => (0x20 ≤ c.toNat && c.toNat != 0x7F) || c == '\t'

/-- Both lists with zeros after the shorter one. -/
def padded (a b : List UInt8) : List (UInt8 × UInt8) :=
  let size := max a.length b.length
  (a ++ List.replicate (size - a.length) 0).zip (b ++ List.replicate (size - b.length) 0)

/-- The keys are equal. Every byte of the longer one is looked at, wherever the first difference
lies. -/
def keyMatches (provided expected : String) : Bool :=
  let a := provided.toUTF8.data.toList
  let b := expected.toUTF8.data.toList
  let difference := (padded a b).foldl (fun d (x, y) => d ||| (x ^^^ y)) 0
  difference == 0 && a.length == b.length

/-- The key that requests must show; an empty one is none. -/
def requiredKey (environment : Option String) : Option String :=
  environment.filter fun key => !key.isEmpty

/-- What a header says after one scheme name, if it has one. -/
def credential (header : String) : String :=
  if "Bearer ".toList.isPrefixOf header.toList then String.ofList (header.toList.drop 7) else header

/-- The header shows the key. -/
def showsKey (header : Option String) (key : String) : Bool :=
  header.any fun h => isHeaderText h && keyMatches (credential h) key

/-- The origins that may use the service. -/
inductive Origins where
  | any
  | only (origins : List String)
  deriving DecidableEq, Repr

namespace Origins

def ofThisMachine : Origins := only [
  "http://localhost:3000",
  "http://localhost:8080",
  "http://127.0.0.1:3000",
  "http://127.0.0.1:8080"]

/-- Origins between commas. What no header can carry is left out, and if nothing remains the origins
of this machine are allowed. -/
def ofEnvironment : Option String → Origins
  | none => ofThisMachine
  | some text =>
    if text = "*" then any
    else
      let origins := ((text.splitOn ",").map fun s => String.ofList (trim s.toList)).filter isHeaderValue
      if origins.isEmpty then ofThisMachine else only origins

/-- The origin that an answer names as allowed, if it can be read. -/
def answer (origins : Origins) (asking : Option String) : Option String :=
  match origins with
  | any => some "*"
  | only allowed => asking.filter fun origin => allowed.contains origin && isHeaderText origin

end Origins

def defaultRate : Nat := 100

/-- Requests in a second; zero sets no limit. -/
def requestRate (environment : Option String) : Nat :=
  (environment.bind fun text => readWord 32 (trim text.toList)).getD defaultRate

end SemanticHypergraph.Http
