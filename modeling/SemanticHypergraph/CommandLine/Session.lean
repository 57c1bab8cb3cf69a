import SemanticHypergraph.CommandLine.Directory
import SemanticHypergraph.Settings.Application
import SemanticHypergraph.Store.Basic
import SemanticHypergraph.Store.Transfer

/-!
# Stores on file

A command opens a store, works on it and closes it. What a numbered store holds is on file at once.
An ordered store is read from a snapshot file, if there is one, and written back as a whole after
work that changed it.
-/
namespace SemanticHypergraph.CommandLine

open SemanticHypergraph.Hypergraph

/-- The bytes of a snapshot file. -/
def readSnapshotFile (d : Directory) (path : String) : Except Error (List UInt8) := do
  let (_, node) ← (d.resolve path).mapError fun fault =>
    .io ("Invalid file path '" ++ path ++ "': " ++ fault.message)
  let bytes ← (Directory.bytesOf node).mapError fun _ =>
    .io ("Path '" ++ path ++ "' is not a regular file")
  if Snapshot.maxFileSize < bytes.length then
    throw (.serialization ("File size " ++ toString bytes.length ++
      " bytes exceeds maximum allowed " ++ toString Snapshot.maxFileSize ++ " bytes"))
  return bytes

/-- The settings in a file, or the default ones. -/
def loadSettings (d : Directory) : Option String → Except Error Settings
  | none => .ok {}
  | some path => do
    let failure := fun reason => Error.config ("Failed to read config file " ++ path ++ ": " ++ reason)
    let bytes ← (d.read path).mapError fun fault => failure fault.message
    match String.fromUTF8? ⟨bytes.toArray⟩ with
    | some text => Settings.ofToml text
    | none => throw (failure "stream did not contain valid UTF-8")

/-- Fills an ordered store from the snapshot file, if there is one. -/
def loadSnapshot (path : String) (s : Store) : Update Directory Store := do
  if ← Update.ask fun d => .ok (d.holds path) then
    let bytes ← Update.ask (readSnapshotFile · path)
    match importBytes bytes s with
    | (.ok _, filled) => return filled
    | (.error e, _) => throw e
  else return s

/-- The place of a database file. -/
def databasePlace (d : Directory) (path : String) : Except Error Directory.Place :=
  (d.target path).mapError fun fault => .io ("I/O error: " ++ fault.message)

/-- The store that a database file keeps, under the name and the policy of the new store `s`. An empty
file keeps nothing yet. -/
def storeAt (d : Directory) (place : Directory.Place) (s : NumberedStore) :
    Except Error NumberedStore :=
  match d.nodeAt place with
  | some (.database kept) => .ok { kept with name := s.name, policy := s.policy }
  | some (.file (_ :: _)) => .error (.io "I/O error: invalid data")
  | _ => .ok s

/-- Puts a numbered store on file; an ordered one lives in memory. -/
def keep (path : String) : Store → Update Directory Unit
  | .ordered _ => pure ()
  | .numbered s => do
    let place ← Update.ask (databasePlace · path)
    modify (·.put place (.database s))

/-- Opens the store that the settings describe. -/
def openStore (settings : StoreSettings) : Update Directory Store := do
  let s ← Update.ask fun _ => Store.create settings
  match s, settings.path with
  | _, none => return s
  | .ordered _, some path => loadSnapshot path s
  | .numbered new, some path =>
    let place ← Update.ask (databasePlace · path)
    let opened ← Update.ask (storeAt · place new)
    modify (·.put place (.database opened))
    return .numbered opened

/-- Writes the snapshot file of an ordered store. -/
def saveStore (settings : StoreSettings) (s : Store) : Update Directory Unit := do
  match s, settings.path with
  | .ordered _, some path =>
    let bytes ← Update.ask fun _ => exportBytes s
    let written ← Update.ask fun d => (d.write path bytes).mapError fun fault =>
      .io ("Write db: " ++ fault.message)
    set written
  | _, _ => pure ()

/-- Opens the store, works on it and, if the result says that it has changed, saves it. -/
def onStore {α : Type} (settings : StoreSettings) (hasChanged : α → Bool) (work : Update Store α) :
    Update Directory α := do
  let s ← openStore settings
  let (result, t) := work s
  if let some path := settings.path then keep path t
  match result with
  | .error e => throw e
  | .ok a =>
    if hasChanged a then saveStore settings t
    return a

/-- Works on the store and saves it. -/
def changing {α : Type} (settings : StoreSettings) (work : Update Store α) : Update Directory α :=
  onStore settings (fun _ => true) work

/-- Asks the store. -/
def asking {α : Type} (settings : StoreSettings) (query : Store → Except Error α) :
    Update Directory α :=
  onStore settings (fun _ => false) (Update.ask query)

end SemanticHypergraph.CommandLine
