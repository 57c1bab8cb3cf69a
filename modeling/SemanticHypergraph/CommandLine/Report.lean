import SemanticHypergraph.Json.Writing
import SemanticHypergraph.Pattern.Basic
import SemanticHypergraph.Settings.Store
import SemanticHypergraph.Store.Contract
import SemanticHypergraph.Text.Quoted

/-!
# Reports

What a command prints: lines for a reader, or an object for a program where the command has one.
-/
namespace SemanticHypergraph.CommandLine

open Text (quote)

structure Report where
  lines : List String
  json : Option Json.Value := none

namespace Report

def print (asJson : Bool) (r : Report) : String :=
  match asJson, r.json with
  | true, some v => v.indented 0 ++ "\n"
  | _, _ => String.join (r.lines.map (· ++ "\n"))

end Report

def backendTitle : BackendKind → String
  | .memory => "Memory"
  | .file => "Redb"

def quotedPath : Option String → String
  | some path => "Some(" ++ quote path ++ ")"
  | none => "None"

def statusReport (name : String) (path : Option String) (backend : BackendKind) (c : Counts) :
    Report where
  lines := [
    "semgraph Store Status",
    "=====================",
    "Name:     " ++ name,
    "Database: " ++ quotedPath path,
    "Backend:  " ++ backendTitle backend,
    "",
    "Atoms:          " ++ toString c.atoms,
    "Edges:          " ++ toString c.edges,
    "Primary Atoms:  " ++ toString c.primaryAtoms,
    "Primary Edges:  " ++ toString c.primaryEdges]
  json := some (.object [
    ("name", .text name),
    ("database", .ofOption .text path),
    ("backend", .text backend.word),
    ("atoms", .ofNat c.atoms),
    ("edges", .ofNat c.edges),
    ("primary_atoms", .ofNat c.primaryAtoms),
    ("primary_edges", .ofNat c.primaryEdges)])

def createdReport (path : String) : BackendKind → Report
  | .file => { lines := ["Initialized new redb database at " ++ quote path] }
  | .memory => { lines := ["Initialized new snapshot file at " ++ quote path] }

def addedReport (e : Entity) (isPrimary : Bool) : Report where
  lines := ["Added " ++ e.toText]
  json := some (.object [("added", .text e.toText), ("primary", .flag isPrimary)])

def notFound (e : Entity) : String := e.toText ++ " not found"

def removedReport (e : Entity) (found : Bool) : Report where
  lines := [if found then "Removed " ++ e.toText else notFound e]
  json := some (.object [("entity", .text e.toText), ("removed", .flag found)])

def presenceReport (e : Entity) (found isPrimary : Bool) : Report where
  lines := [if found then
      e.toText ++ " exists (" ++ (if isPrimary then "primary" else "non-primary") ++ ")"
    else notFound e]
  json := some (.object [
    ("entity", .text e.toText), ("exists", .flag found), ("primary", .flag isPrimary)])

/-- A list under a name, with its length. -/
def listReport (name : String) (texts : List String) : Report where
  lines := texts ++ ["(" ++ toString texts.length ++ " results)"]
  json := some (.object [(name, .list (texts.map .text)), ("count", .ofNat texts.length)])

def degreeReport (e : Entity) (isDeep : Bool) (degree : Nat) : Report where
  lines := [toString degree]
  json := some (.object [
    ("entity", .text e.toText), ("deep", .flag isDeep), ("degree", .ofNat degree)])

def removedMatchingReport (pattern : String) (count : Nat) : Report where
  lines := ["Removed " ++ toString count ++ " entities"]
  json := some (.object [("pattern", .text pattern), ("removed", .ofNat count)])

def attributeReport (e : Entity) (name : String) (value : Option Value) : Report where
  lines := [match value with
    | some v => name ++ " = " ++ v.toText ++ " (" ++ v.kind ++ ")"
    | none => e.toText ++ " has no attribute '" ++ name ++ "'"]
  json := some (.object [
    ("entity", .text e.toText),
    ("name", .text name),
    ("value", .ofOption (fun v => .text v.toText) value),
    ("type", .ofOption (fun v => .text v.kind) value)])

/-- A snapshot of `entries` entries and `bytes` bytes was written to the path. -/
def exportedReport (checksum : UInt64) (entries bytes : Nat) (path : String) : Report where
  lines := [
    "Checksum: " ++ toString checksum.toNat,
    "Exported " ++ toString entries ++ " entities (" ++ toString bytes ++ " bytes) to " ++
      quote path]

def importedReport (restored : Nat) (c : Counts) : Report where
  lines := [
    "Imported " ++ toString restored ++ " entities",
    "Store now has " ++ toString c.atoms ++ " atoms, " ++ toString c.edges ++ " edges"]

def hashReport (hash : String) (entries : Nat) : Report where
  lines := ["BLAKE3: " ++ hash]
  json := some (.object [
    ("algorithm", .text "blake3"), ("hash", .text hash), ("entities", .ofNat entries)])

end SemanticHypergraph.CommandLine
