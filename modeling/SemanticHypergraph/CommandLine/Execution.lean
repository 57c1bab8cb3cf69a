import SemanticHypergraph.CommandLine.Invocation
import SemanticHypergraph.CommandLine.Report
import SemanticHypergraph.CommandLine.Session
import SemanticHypergraph.Digest.Blake3
import SemanticHypergraph.Text.Hex

/-!
# Execution

What each command does to the directory and what it reports. An entity that a command names is read
before the store is opened, but for attribute commands, which open the store first; so do the
commands that name a pattern.
-/
namespace SemanticHypergraph.CommandLine

open SemanticHypergraph.Hypergraph

/-- Goes on with the entity that the text names. -/
def withEntity {σ α : Type} (text : String) (work : Entity → Update σ α) : Update σ α :=
  match Entity.parse text with
  | .ok e => work e
  | .error e => throw e

def status (settings : StoreSettings) : Update Directory Report :=
  asking settings fun s => do
    return statusReport (Hypergraph.name s) settings.path s.backend (← counts s)

/-- Takes away what lies at the path, if that is allowed. -/
def clear (path : String) (force : Bool) : Update Directory Unit := do
  if ← Update.ask fun d => .ok (d.holds path) then
    if !force then
      throw (.config "Database already exists. Use --force to overwrite.")
    let cleared ← Update.ask fun d => (d.remove path).mapError fun fault =>
      .io ("Remove db: " ++ fault.message)
    set cleared

def create (settings : StoreSettings) (force : Bool) : Update Directory Report := do
  match settings.path with
  | none => throw (.config "init requires a database path (--database)")
  | some path =>
    clear path force
    changing settings (pure ())
    return createdReport path settings.backend

namespace AttributeCommand

def name : AttributeCommand → String
  | get _ name => name
  | set _ name _ _ => name
  | step _ name _ => name

/-- The entity and its attribute as the command leaves it. -/
def perform : AttributeCommand → Update Store (Entity × Option Value)
  | get text name => withEntity text fun e => do
    return (e, ← Update.ask (attributeOf · e name))
  | set text name value type => withEntity text fun e => do
    let v ← Update.ask fun _ => Value.read value type
    let stored ← setAttribute e name v
    return (e, if stored then some v else none)
  | step text name direction => withEntity text fun e => do
    return (e, ← stepAttribute e name direction)

/-- Only what is there is changed, and reading changes nothing. -/
def hasChanged : AttributeCommand → Entity × Option Value → Bool
  | get _ _, _ => false
  | _, result => result.2.isSome

def report (command : AttributeCommand) (settings : StoreSettings) : Update Directory Report := do
  let (e, value) ← onStore settings command.hasChanged command.perform
  return attributeReport e command.name value

end AttributeCommand

/-- The place of a file to be written, whose directory must be there. -/
def outputPlace (d : Directory) (path : String) : Except Error Directory.Place := do
  let parent := FilePath.parent path
  let (place, node) ← (d.resolve parent).mapError fun fault =>
    .io ("Invalid output directory '" ++ parent ++ "': " ++ fault.message)
  match node, FilePath.fileName? path with
  | .folder, some name => return place ++ [name]
  | .folder, none => throw (.io "Output path has no filename")
  | _, _ => throw (.io ("Output directory '" ++ parent ++ "' is not a valid directory"))

/-- Writes a file at a place. -/
def writeAt (d : Directory) (place : Directory.Place) (bytes : List UInt8) :
    Except Error Directory :=
  (d.write (Directory.absolutePath place) bytes).mapError fun fault =>
    .io ("Write file: " ++ fault.message)

def exportTo (settings : StoreSettings) (path : String) : Update Directory Report := do
  let place ← Update.ask (outputPlace · path)
  let snapshot ← asking settings Snapshot.capture
  let bytes := snapshot.toBytes
  set (← Update.ask (writeAt · place bytes))
  return exportedReport snapshot.checksum snapshot.entries.length bytes.length
    (Directory.absolutePath place)

def importFrom (settings : StoreSettings) (path : String) : Update Directory Report := do
  let bytes ← Update.ask (readSnapshotFile · path)
  let (restored, c) ← changing settings do
    let restored ← importBytes bytes
    return (restored, ← Update.ask counts)
  return importedReport restored c

def hash (settings : StoreSettings) : Update Directory Report := do
  let snapshot ← asking settings Snapshot.capture
  return hashReport (Text.hexOfBytes (Blake3.digest snapshot.toBytes)) snapshot.entries.length

namespace Command

def perform (settings : StoreSettings) : Command → Update Directory Report
  | server _ _ => throw (.unsupported "server")
  | status => CommandLine.status settings
  | create force => CommandLine.create settings force
  | add text isPrimary => withEntity text fun e => do
    return addedReport (← changing settings (addWith e isPrimary)) isPrimary
  | remove text removal => withEntity text fun e => do
    return removedReport e (← changing settings (removeWith e removal))
  | lookUp text => withEntity text fun e => do
    let (found, isPrimary) ← asking settings (presence · e)
    return presenceReport e found isPrimary
  | find pattern limit => do
    let found ← asking settings (matchText · pattern)
    let texts := found.toList.map Entity.toText
    return listReport "matches" (match limit with
      | some n => texts.take n
      | none => texts)
  | star text limit => withEntity text fun e => do
    return listReport "edges" ((← asking settings (Hypergraph.star · e limit)).map Entity.toText)
  | ego text => withEntity text fun e => do
    return listReport "atoms" ((← asking settings (Hypergraph.ego · e)).map Atom.toText)
  | degree text isDeep => withEntity text fun e => do
    return degreeReport e isDeep (← asking settings (degreeOf · e isDeep))
  | removeMatching pattern => do
    return removedMatchingReport pattern (← changing settings (removeText pattern))
  | onAttribute command => command.report settings
  | exportTo path => CommandLine.exportTo settings path
  | importFrom path => CommandLine.importFrom settings path
  | hash => CommandLine.hash settings

end Command

namespace Invocation

/-- Carries the command out and answers what it prints. -/
def execute (i : Invocation) : Update Directory String := do
  let settings ← Update.ask (loadSettings · i.globals.config)
  let chosen := settings.withOverrides i.globals.database i.globals.backend
  return (← i.command.perform chosen.store).print i.globals.json

end Invocation

end SemanticHypergraph.CommandLine
