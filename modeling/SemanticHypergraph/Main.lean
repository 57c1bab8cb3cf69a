import SemanticHypergraph.CommandLine.Execution

/-!
# The program

Reads the files that a command line names, carries the command out on them and writes back what has
changed. A line that is no command ends with status 2, a command that fails with status 1.
-/
namespace SemanticHypergraph.CommandLine

/-- What lies at a place on the disk, if anything. -/
def readNode (place : Directory.Place) : IO (Option Directory.Node) := do
  let path := Directory.absolutePath place
  try
    let bytes := (← IO.FS.readBinFile path).data.toList
    match NumberedStore.ofFile? bytes with
    | some s => return some (.database s)
    | none => return some (.file bytes)
  catch _ =>
    try
      let _ ← IO.FS.realPath path
      return some .folder
    catch _ => return none

/-- Learns what lies along a path. -/
def learnPath (d : Directory) (path : String) : IO Directory := do
  let mut place := d.start path
  let mut known := d
  for component in Directory.steps path do
    if component = ".." then place := place.dropLast
    else if component ≠ "." then place := place ++ [component]
    if let some node := ← readNode place then known := known.put place node
  return known

/-- The paths that a command names itself. -/
def pathsOf : Command → List String
  | .exportTo path => [path]
  | .importFrom path => [path]
  | _ => []

/-- Learns about all files that the invocation can touch. -/
def learn (i : Invocation) : IO Directory := do
  let working := Directory.steps (toString (← IO.currentDir))
  let d ← (i.globals.config.toList ++ pathsOf i.command).foldlM learnPath (.empty working)
  match loadSettings d i.globals.config with
  | .ok settings =>
    ((settings.withOverrides i.globals.database i.globals.backend).store.path.toList).foldlM
      learnPath d
  | .error _ => return d

/-- Writes back what differs from what was there before. -/
def writeBack (before after : Directory) : IO Unit := do
  for (path, _) in before.nodes.toList do
    unless after.nodes.contains path do IO.FS.removeFile path
  for (path, node) in after.nodes.toList do
    match node, before.nodes[path]? with
    | .folder, _ => pure ()
    | .file bytes, some (.file old) =>
      unless bytes = old do IO.FS.writeBinFile path ⟨bytes.toArray⟩
    | .file bytes, _ => IO.FS.writeBinFile path ⟨bytes.toArray⟩
    | .database s, _ => IO.FS.writeBinFile path ⟨s.toFile.toArray⟩

/-- Carries a command line out on the disk and answers the status it ends with. -/
def run (arguments : List String) : IO UInt32 := do
  match Invocation.read arguments with
  | none =>
    IO.eprintln "error: the command line is not understood"
    return 2
  | some i =>
    let before ← learn i
    let (result, after) := i.execute before
    writeBack before after
    match result with
    | .ok printed =>
      IO.print printed
      return 0
    | .error e =>
      IO.eprintln ("Error: " ++ e.message)
      return 1

end SemanticHypergraph.CommandLine

def main (arguments : List String) : IO UInt32 := SemanticHypergraph.CommandLine.run arguments
