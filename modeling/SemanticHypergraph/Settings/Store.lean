import SemanticHypergraph.Error
import SemanticHypergraph.Text.FilePath

/-!
# Store settings

Which kind of store is opened, where it is kept, what it is called and what happens to the mark of
an entity that is inserted again.
-/
namespace SemanticHypergraph

inductive BackendKind where
  /-- Gone when it is closed. -/
  | memory
  /-- Kept in a file. -/
  | file
  deriving DecidableEq, Repr

/-- What becomes of the mark when a stored entity is inserted again. -/
inductive PrimaryPolicy where
  /-- Once primary, always primary. -/
  | preserve
  /-- The latest insertion holds. -/
  | overwrite
  deriving DecidableEq, Repr

def PrimaryPolicy.resolve (policy : PrimaryPolicy) (current requested : Bool) : Bool :=
  match policy with
  | preserve => current || requested
  | overwrite => requested

def PrimaryPolicy.word : PrimaryPolicy → String
  | preserve => "preserve"
  | overwrite => "overwrite"

namespace BackendKind

def word : BackendKind → String
  | memory => "memory"
  | file => "redb"

/-- Reads a name given by a user, in any case of letters. -/
def parse (text : String) : Except Error BackendKind :=
  let name := String.ofList (text.toList.map Char.toLower)
  if name = "memory" ∨ name = "mem" then .ok memory
  else if name = "redb" ∨ name = "file" then .ok file
  else .error (.config ("unknown backend '" ++ name ++ "' (expected 'memory' or 'redb')"))

end BackendKind

structure StoreSettings where
  backend : BackendKind := .file
  path : Option String := some "semgraph.db"
  name : Option String := none
  primaryPolicy : PrimaryPolicy := .preserve
  deriving DecidableEq, Repr

namespace StoreSettings

/-- The name given, else that of the file without its extension. -/
def resolvedName (s : StoreSettings) : String :=
  s.name.getD ((s.path.bind FilePath.stem?).getD "semgraph")

def validate (s : StoreSettings) : Except Error Unit :=
  if s.backend = .file ∧ s.path = none then
    .error (.config "the redb backend requires a database path")
  else if s.name = some "" then .error (.config "store name must not be empty")
  else .ok ()

end StoreSettings

end SemanticHypergraph
