/-!
# Paths

A path is a text whose components stand between slashes. Runs of slashes, a slash at the end and
components that are a single dot mean nothing; a dot that is the whole of a relative path's
beginning is kept as the place where one is.
-/
namespace SemanticHypergraph.FilePath

/-- What stands between the slashes. -/
def parts (path : String) : List String := (path.toList.splitOn '/').map String.ofList

/-- The components that name something: all but empty ones and single dots. -/
def components (path : String) : List String :=
  (parts path).filter fun c => c != "" && c != "."

def isAbsolute (path : String) : Bool := path.toList.head? == some '/'

/-- The last component, unless it leads upwards. -/
def fileName? (path : String) : Option String :=
  match (components path).getLast? with
  | some c => if c = ".." then none else some c
  | none => none

/-- The name up to its last dot, unless that dot begins it. -/
def stemOf (name : String) : String :=
  let reversed := name.toList.reverse
  match reversed.dropWhile (· != '.') with
  | [] => name
  | [_] => name
  | _ :: before => String.ofList before.reverse

/-- The file name without its extension. -/
def stem? (path : String) : Option String := (fileName? path).map stemOf

/-- The parts between slashes without those at the end that mean nothing. -/
def significant : List String → List String
  | [] => []
  | first :: rest => first :: (rest.reverse.dropWhile fun part => part == "" || part == ".").reverse

/-- The path up to its last component; a dot where nothing stands before it. -/
def parent (path : String) : String :=
  match significant (parts path) with
  | [] => "."
  | [_] => "."
  | parts =>
    match significant parts.dropLast with
    | [""] => "/"
    | before => "/".intercalate before

/-- The path ends in a slash and so can only name a directory. -/
def endsInSlash (path : String) : Bool := path.toList.getLast? == some '/'

end SemanticHypergraph.FilePath
