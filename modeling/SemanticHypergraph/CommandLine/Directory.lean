import SemanticHypergraph.Store.DatabaseFile
import SemanticHypergraph.Text.FilePath

/-!
# Directories

The files that commands read and write, as a tree of directories of which one is the working
directory. A path is followed component by component, from the root if it starts with a slash and
from the working directory otherwise.
-/
namespace SemanticHypergraph

/-- Why a file cannot be reached. -/
inductive FileFault where
  | absent
  | notDirectory
  | isDirectory
  | nameTooLong
  /-- The path holds the character that ends paths. -/
  | endsEarly
  deriving DecidableEq, Repr

def FileFault.message : FileFault → String
  | absent => "No such file or directory (os error 2)"
  | notDirectory => "Not a directory (os error 20)"
  | isDirectory => "Is a directory (os error 21)"
  | nameTooLong => "File name too long (os error 36)"
  | endsEarly => "file name contained an unexpected NUL byte"

namespace Directory

/-- What can lie at a place. -/
inductive Node where
  | folder
  | file (bytes : List UInt8)
  /-- A file that a numbered store keeps for itself. -/
  | database (s : NumberedStore)

/-- The components that lead from the root to a place. -/
abbrev Place := List String

end Directory

/-- What is known to lie where, by the absolute paths, and the place of the working directory. That
place and those above it are directories. -/
structure Directory where
  working : Directory.Place
  nodes : Std.ExtTreeMap String Directory.Node

namespace Directory

def absolutePath (place : Place) : String := "/" ++ "/".intercalate place

def empty (working : Place) : Directory := ⟨working, ∅⟩

/-- What lies at the place, if anything. -/
def nodeAt (d : Directory) (place : Place) : Option Node :=
  d.nodes[absolutePath place]? <|> (if place.isPrefixOf d.working then some .folder else none)

def requireFolder (d : Directory) (place : Place) : Except FileFault Unit :=
  match d.nodeAt place with
  | some .folder => .ok ()
  | some _ => .error .notDirectory
  | none => .error .absent

/-- The longest name, in bytes. -/
def maxNameLength : Nat := 255

/-- The longest path that can be used without being resolved first, in bytes. -/
def maxPathLength : Nat := 4095

/-- Goes from a directory to a component of it. Above the root is the root. -/
def enter (d : Directory) (place : Place) (component : String) : Except FileFault Place := do
  d.requireFolder place
  if component = "." then return place
  else if component = ".." then return place.dropLast
  else if maxNameLength < component.utf8ByteSize then throw .nameTooLong
  else return place ++ [component]

/-- What can be no path at all. -/
def checkPath (path : String) : Except FileFault Unit :=
  if path.toList.contains '\x00' then .error .endsEarly
  else if path = "" then .error .absent
  else .ok ()

/-- What can be no path of a file to be used at once. -/
def checkShortPath (path : String) : Except FileFault Unit := do
  checkPath path
  if maxPathLength < path.utf8ByteSize then throw .nameTooLong

/-- The place where a path starts. -/
def start (d : Directory) (path : String) : Place :=
  if FilePath.isAbsolute path then [] else d.working

def steps (path : String) : List String := (FilePath.parts path).filter (· != "")

/-- What the path leads to, and its place, however long the path is. -/
def resolve (d : Directory) (path : String) : Except FileFault (Place × Node) := do
  checkPath path
  let place ← (steps path).foldlM d.enter (d.start path)
  match d.nodeAt place with
  | none => throw .absent
  | some .folder => return (place, .folder)
  | some node => if FilePath.endsInSlash path then throw .notDirectory else return (place, node)

/-- What the path leads to, and its place. -/
def find (d : Directory) (path : String) : Except FileFault (Place × Node) := do
  checkShortPath path
  d.resolve path

def holds (d : Directory) (path : String) : Bool := (d.find path).isOk

/-- The place at which a file is written; a directory there cannot be overwritten. -/
def target (d : Directory) (path : String) : Except FileFault Place := do
  checkShortPath path
  match (steps path).getLast? with
  | none => throw .isDirectory
  | some last =>
    let parent ← (steps path).dropLast.foldlM d.enter (d.start path)
    let place ← d.enter parent last
    if last = "." ∨ last = ".." ∨ FilePath.endsInSlash path then throw .isDirectory
    match d.nodeAt place with
    | some .folder => throw .isDirectory
    | _ => return place

def put (d : Directory) (place : Place) (node : Node) : Directory :=
  { d with nodes := d.nodes.insert (absolutePath place) node }

def bytesOf : Node → Except FileFault (List UInt8)
  | .folder => .error .isDirectory
  | .file bytes => .ok bytes
  | .database s => .ok s.toFile

def read (d : Directory) (path : String) : Except FileFault (List UInt8) := do
  bytesOf (← d.find path).2

/-- Writes a file in place of what was there. -/
def write (d : Directory) (path : String) (bytes : List UInt8) : Except FileFault Directory := do
  return d.put (← d.target path) (.file bytes)

/-- Takes away a file. -/
def remove (d : Directory) (path : String) : Except FileFault Directory := do
  match ← d.find path with
  | (_, .folder) => throw .isDirectory
  | (place, _) => return { d with nodes := d.nodes.erase (absolutePath place) }

end Directory

end SemanticHypergraph
