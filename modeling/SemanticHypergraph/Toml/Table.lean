/-!
# Tables under construction

A document builds its tables piece by piece: headers open tables, keys with dots open tables on
their way, and no table may be given twice. Each table remembers how it came to be, because that
decides in what ways it may still grow.
-/
namespace SemanticHypergraph.Toml

/-- A value as it is read; the values of floats and dates do not matter to any setting. A number
beyond all that can be held is `oversized`, which is a fault only where the value is looked at. -/
inductive Value where
  | text (s : String)
  | integer (n : Int)
  | float
  | oversized
  | boolean (b : Bool)
  | date
  | array (items : List Value)
  | table (entries : List (String × Value))
  deriving Repr, Inhabited

mutual

/-- Every number in the value can be held. -/
def Value.isHeld : Value → Bool
  | .oversized => false
  | .array items => areHeld items
  | .table entries => entriesAreHeld entries
  | _ => true

def areHeld : List Value → Bool
  | [] => true
  | v :: rest => v.isHeld && areHeld rest

def entriesAreHeld : List (String × Value) → Bool
  | [] => true
  | (_, v) :: rest => v.isHeld && entriesAreHeld rest

end

/-- How a table came to be, or how it was last filled. -/
inductive Origin where
  /-- On the way of a header. -/
  | passing
  /-- By a key with dots. -/
  | dotted
  /-- By its own header. -/
  | header
  deriving DecidableEq, Repr

inductive Node where
  /-- A value that cannot grow. -/
  | value (v : Value)
  | table (origin : Origin) (entries : List (String × Node))
  /-- The tables of a repeated header, latest first. -/
  | tables (items : List (List (String × Node)))

abbrev Entries := List (String × Node)

namespace Entries

def find? (es : Entries) (key : String) : Option Node := List.lookup key es

/-- Puts a node under a key, in its old place if the key is there. -/
def put (es : Entries) (key : String) (n : Node) : Entries :=
  if (es.find? key).isSome then List.map (fun e => if e.1 == key then (key, n) else e) es
  else es ++ [(key, n)]

/-- The origin of a table after a key with dots has passed it. The table that it fills itself, at the
end of its path, is from then on such a table. -/
def passed (isDotted : Bool) (path : List String) (o : Origin) : Origin :=
  if isDotted && path.isEmpty then .dotted else o

/-- Changes the table at the end of a path and opens the tables on the way. A key with dots passes
only through tables that have no header of their own. -/
def update (isDotted : Bool) (origin : Origin) (change : Origin → Entries → Option Entries) :
    List String → Entries → Option Entries
  | [], es => change origin es
  | key :: path, es =>
    match es.find? key with
    | none => do
      let opened := if isDotted then Origin.dotted else Origin.passing
      return es.put key (.table opened (← update isDotted opened change path []))
    | some (.table o sub) =>
      if isDotted && o == .header then none
      else do
        return es.put key (.table (passed isDotted path o) (← update isDotted o change path sub))
    | some (.tables []) => none
    | some (.tables (last :: rest)) =>
      do return es.put key (.tables ((← update isDotted .header change path last) :: rest))
    | some (.value _) => none

/-- Opens the table of a header. -/
def openTable (es : Entries) (path : List String) (key : String) : Option Entries :=
  es.update false .header (fun _ parent =>
    match parent.find? key with
    | none => some (parent.put key (.table .header []))
    | some (.table .passing sub) => some (parent.put key (.table .header sub))
    | some _ => none) path

/-- Opens one more table of a repeated header. -/
def appendTable (es : Entries) (path : List String) (key : String) : Option Entries :=
  es.update false .header (fun _ parent =>
    match parent.find? key with
    | none => some (parent.put key (.tables [[]]))
    | some (.tables items) => some (parent.put key (.tables ([] :: items)))
    | some _ => none) path

/-- Sets a key of a table. The table that a key with dots leads to must have no header of its
own. -/
def assign (es : Entries) (path : List String) (key : String) (v : Value) : Option Entries :=
  es.update true .header (fun origin parent =>
    if !path.isEmpty && origin == .header then none
    else
      match parent.find? key with
      | none => some (parent.put key (.value v))
      | some _ => none) path

/-- Sets a key of the table to which the last header led. -/
def assignUnder (es : Entries) (header path : List String) (key : String) (v : Value) :
    Option Entries :=
  es.update false .header (fun _ current => assign current path key v) header

end Entries

mutual

/-- The finished value. -/
def Node.finish : Node → Value
  | .value v => v
  | .table _ entries => .table (finishEntries entries)
  | .tables items => .array (finishTables items).reverse

def finishEntries : List (String × Node) → List (String × Value)
  | [] => []
  | (key, n) :: rest => (key, n.finish) :: finishEntries rest

def finishTables : List (List (String × Node)) → List Value
  | [] => []
  | entries :: rest => .table (finishEntries entries) :: finishTables rest

end

end SemanticHypergraph.Toml
