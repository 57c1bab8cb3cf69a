import SemanticHypergraph.Settings.Store
import SemanticHypergraph.Text.Blank
import SemanticHypergraph.Toml.Reading

/-!
# Application settings

The settings of the store and of the server, read from a document with the tables `store` and
`server`. What the document leaves out keeps its default and what it says beyond them is ignored;
what was given with the command overrides it.
-/
namespace SemanticHypergraph

structure ServerSettings where
  host : String := "127.0.0.1"
  port : Nat := 8080
  bodyLimit : Nat := 2097152
  deriving DecidableEq, Repr

def ServerSettings.address (s : ServerSettings) : String := s.host ++ ":" ++ toString s.port

structure Settings where
  store : StoreSettings := {}
  server : ServerSettings := {}
  deriving DecidableEq, Repr

namespace Toml.Value

/-- The fields of a structure: the entries of a table, or the items of a list in the order of the
fields. A date has no field of any structure. Entries beyond the fields are looked at and passed over;
items beyond them are not looked at. -/
def fields? (names : List String) : Value → Option (List (String × Value))
  | .table entries =>
    if entriesAreHeld (entries.filter fun e => !names.contains e.1) then some entries else none
  | .array items => some (names.zip items)
  | .date => some []
  | _ => none

def text? : Value → Option String
  | .text s => some s
  | _ => none

/-- An integer from zero to below `2 ^ width`. -/
def word? (width : Nat) : Value → Option Nat
  | .integer n => if 0 ≤ n ∧ n.toNat < Nat.pow 2 width then some n.toNat else none
  | _ => none

/-- The name of an alternative: a text, or the only key of a table that holds nothing under it. -/
def choice? : Value → Option String
  | .text s => some s
  | .table [(name, .table [])] => some name
  | .table [(name, .array [])] => some name
  | _ => none

end Toml.Value

/-- The field, read by `read`, or its default if it is absent. -/
def fieldOr {α : Type} (fields : List (String × Toml.Value)) (name : String) (default : α)
    (read : Toml.Value → Option α) : Option α :=
  match fields.lookup name with
  | some v => read v
  | none => some default

namespace StoreSettings

def backendOf (v : Toml.Value) : Option BackendKind :=
  v.choice?.bind fun name =>
    if name = "memory" then some .memory else if name = "redb" then some .file else none

def policyOf (v : Toml.Value) : Option PrimaryPolicy :=
  v.choice?.bind fun name =>
    if name = "preserve" then some .preserve
    else if name = "overwrite" then some .overwrite
    else none

def ofValue (v : Toml.Value) : Option StoreSettings := do
  let fields ← v.fields? ["backend", "path", "name", "primary_policy"]
  let defaults : StoreSettings := {}
  return {
    backend := ← fieldOr fields "backend" defaults.backend backendOf
    path := ← fieldOr fields "path" defaults.path fun p => p.text?.map some
    name := ← fieldOr fields "name" defaults.name fun n => n.text?.map some
    primaryPolicy := ← fieldOr fields "primary_policy" defaults.primaryPolicy policyOf }

end StoreSettings

def ServerSettings.ofValue (v : Toml.Value) : Option ServerSettings := do
  let fields ← v.fields? ["host", "port", "body_limit"]
  let defaults : ServerSettings := {}
  return {
    host := ← fieldOr fields "host" defaults.host Toml.Value.text?
    port := ← fieldOr fields "port" defaults.port (Toml.Value.word? 16)
    bodyLimit := ← fieldOr fields "body_limit" defaults.bodyLimit (Toml.Value.word? 64) }

namespace Settings

def ofEntries (entries : List (String × Toml.Value)) : Option Settings := do
  let fields ← (Toml.Value.table entries).fields? ["store", "server"]
  return {
    store := ← fieldOr fields "store" {} StoreSettings.ofValue
    server := ← fieldOr fields "server" {} ServerSettings.ofValue }

def validate (s : Settings) : Except Error Unit :=
  if Text.allBlank s.server.host.toList then .error (.config "server.host must not be empty")
  else if s.server.bodyLimit = 0 then
    .error (.config "server.body_limit must be greater than 0")
  else s.store.validate

/-- Reads a document and checks what it says. -/
def ofToml (text : String) : Except Error Settings :=
  match (Toml.read text).bind ofEntries with
  | none => .error (.config "Failed to parse config file")
  | some s => s.validate.map fun _ => s

def withOverrides (s : Settings) (database : Option String) (backend : Option BackendKind) :
    Settings :=
  { s with store := { s.store with
      backend := backend.getD s.store.backend
      path := database <|> s.store.path } }

end Settings

end SemanticHypergraph
