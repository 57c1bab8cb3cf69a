import SemanticHypergraph.CommandLine.Options
import SemanticHypergraph.Settings.Store
import SemanticHypergraph.Store.Operations
import SemanticHypergraph.Text.Numeral
import SemanticHypergraph.Value

/-!
# Invocations

A command with its arguments, and what is said beside it about where the store is and how to report.
That may stand at any level; where several levels say it, the innermost one holds.
-/
namespace SemanticHypergraph.CommandLine

open SemanticHypergraph.Hypergraph Text

inductive AttributeCommand where
  | get (entity name : String)
  | set (entity name value type : String)
  | step (entity name : String) (step : Step)
  deriving DecidableEq, Repr

inductive Command where
  | server (host : Option String) (port : Option Nat)
  | status
  | create (force : Bool)
  | add (entity : String) (isPrimary : Bool)
  | remove (entity : String) (removal : Removal)
  | lookUp (entity : String)
  | find (pattern : String) (limit : Option Nat)
  | star (entity : String) (limit : Option Nat)
  | ego (entity : String)
  | degree (entity : String) (isDeep : Bool)
  | removeMatching (pattern : String)
  | onAttribute (command : AttributeCommand)
  | exportTo (path : String)
  | importFrom (path : String)
  | hash
  deriving DecidableEq, Repr

/-- What any level may say. -/
structure Globals where
  config : Option String := none
  database : Option String := none
  backend : Option BackendKind := none
  json : Bool := false
  deriving DecidableEq, Repr

structure Invocation where
  globals : Globals
  command : Command
  deriving DecidableEq, Repr

namespace Level

/-- The value of an option as `read` understands it; the outer `none` is a value that it does not. -/
def option {α : Type} (l : Level) (long : String) (read : String → Option α) : Option (Option α) :=
  match l.value? long with
  | none => some none
  | some text => (read text).map some

/-- A path, which is never empty. -/
def path? (text : String) : Option String := if text.isEmpty then none else some text

def word? (width : Nat) (text : String) : Option Nat := readWord width text.toList

end Level

namespace Globals

def options : List OptionSpec := [
  ⟨"quiet", some 'q', false⟩,
  ⟨"config", some 'c', true⟩,
  ⟨"database", some 'D', true⟩,
  ⟨"backend", some 'B', true⟩,
  ⟨"json-mode", none, false⟩]

def ofLevel (l : Level) : Option Globals := do
  return {
    config := ← l.option "config" Level.path?
    database := ← l.option "database" Level.path?
    backend := ← l.option "backend" fun text => (BackendKind.parse text).toOption
    json := l.has "json-mode" }

/-- What an inner level says holds over what an outer one does. -/
def within (outer inner : Globals) : Globals where
  config := inner.config <|> outer.config
  database := inner.database <|> outer.database
  backend := inner.backend <|> outer.backend
  json := outer.json || inner.json

end Globals

/-! ## The levels -/

def rootGrammar : Grammar where
  options := Globals.options
  subcommands := ["server", "status", "init", "add", "remove", "exists", "match", "star", "ego",
    "degree", "remove-pattern", "attr", "export", "import", "hash"]

def limitOption : OptionSpec := ⟨"limit", some 'l', true⟩

def deepOption : OptionSpec := ⟨"deep", none, false⟩

/-- The options that a command has of its own. -/
def ownOptions : String → List OptionSpec
  | "server" => [⟨"host", some 'H', true⟩, ⟨"port", some 'p', true⟩]
  | "init" => [⟨"force", some 'f', false⟩]
  | "add" => [⟨"non-primary", none, false⟩]
  | "remove" => [deepOption, ⟨"keep-shared", none, false⟩]
  | "match" => [limitOption]
  | "star" => [limitOption]
  | "degree" => [deepOption]
  | "export" => [⟨"output", some 'o', true⟩]
  | "import" => [⟨"input", some 'i', true⟩]
  | _ => []

def commandGrammar (name : String) : Grammar where
  options := Globals.options ++ ownOptions name
  subcommands := if name = "attr" then ["get", "set", "inc", "dec"] else []

def attributeGrammar (name : String) : Grammar where
  options := Globals.options ++ (if name = "set" then [⟨"type", some 't', true⟩] else [])
  subcommands := []

/-- Shared edges can be kept only where edges are removed. -/
def removalOf (l : Level) : Option Removal :=
  match l.has "deep", l.has "keep-shared" with
  | false, false => some .shallow
  | true, false => some .deep
  | true, true => some .deepUnshared
  | false, true => none

namespace AttributeCommand

def ofLevel (name : String) (l : Level) : Option AttributeCommand :=
  match name, l.words with
  | "get", [entity, key] => some (.get entity key)
  | "set", [entity, key, value] => some (.set entity key value ((l.value? "type").getD "str"))
  | "inc", [entity, key] => some (.step entity key .up)
  | "dec", [entity, key] => some (.step entity key .down)
  | _, _ => none

end AttributeCommand

namespace Command

/-- The command that a level without a subcommand spells. -/
def ofLevel (name : String) (l : Level) : Option Command :=
  match name, l.words with
  | "server", [] => do
    return .server (l.value? "host") (← l.option "port" (Level.word? 16))
  | "status", [] => some .status
  | "init", [] => some (.create (l.has "force"))
  | "add", [entity] => some (.add entity (!l.has "non-primary"))
  | "remove", [entity] => (removalOf l).map (.remove entity)
  | "exists", [entity] => some (.lookUp entity)
  | "match", [pattern] => (l.option "limit" (Level.word? 64)).map (.find pattern)
  | "star", [entity] => (l.option "limit" (Level.word? 64)).map (.star entity)
  | "ego", [entity] => some (.ego entity)
  | "degree", [entity] => some (.degree entity (l.has "deep"))
  | "remove-pattern", [pattern] => some (.removeMatching pattern)
  | "export", [] => ((l.value? "output").bind Level.path?).map .exportTo
  | "import", [] => ((l.value? "input").bind Level.path?).map .importFrom
  | "hash", [] => some .hash
  | _, _ => none

end Command

/-- Reads the level of an attribute command. -/
def readAttributeLevel (outer : Globals) (name : String) (arguments : List String) :
    Option Invocation := do
  let l ← (attributeGrammar name).read arguments
  return ⟨outer.within (← Globals.ofLevel l), .onAttribute (← AttributeCommand.ofLevel name l)⟩

/-- Reads the level of a command. -/
def readCommandLevel (outer : Globals) (name : String) (arguments : List String) :
    Option Invocation := do
  let l ← (commandGrammar name).read arguments
  let globals := outer.within (← Globals.ofLevel l)
  match l.subcommand with
  | some (action, rest) => if l.words.isEmpty then readAttributeLevel globals action rest else none
  | none => return ⟨globals, ← Command.ofLevel name l⟩

namespace Invocation

/-- Reads a command line; without a command it asks for the status. -/
def read (arguments : List String) : Option Invocation := do
  let l ← rootGrammar.read arguments
  let globals ← Globals.ofLevel l
  if !l.words.isEmpty then none
  else
    match l.subcommand with
    | some (name, rest) => readCommandLevel globals name rest
    | none => return ⟨globals, .status⟩

end Invocation

end SemanticHypergraph.CommandLine
