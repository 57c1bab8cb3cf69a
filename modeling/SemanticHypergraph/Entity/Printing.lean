import SemanticHypergraph.Entity.Basic

/-!
# The text of an entity

The parts of an atom are joined by slashes, an absent type before a namespace leaving two slashes
in a row; the children of an edge stand in parentheses with one space between neighbours. `chars` is
that text; `toText` builds it in one pass over the tree.
-/
namespace SemanticHypergraph

def Atom.toText (a : Atom) : String :=
  match a.kind, a.scope with
  | some k, some s => a.root ++ "/" ++ k ++ "/" ++ s
  | some k, none => a.root ++ "/" ++ k
  | none, some s => a.root ++ "//" ++ s
  | none, none => a.root

namespace Entity

mutual

def chars : Entity → List Char
  | .atom a => a.toText.toList
  | .edge cs => '(' :: charsAll cs ++ [')']

/-- The texts of the entities with one space between neighbours. -/
def charsAll : List Entity → List Char
  | [] => []
  | c :: cs => c.chars ++ charsAfter cs

/-- Each entity after a space. -/
def charsAfter : List Entity → List Char
  | [] => []
  | c :: cs => ' ' :: c.chars ++ charsAfter cs

end

mutual

/-- The text of the entity at the end of `out`. -/
def write (out : String) : Entity → String
  | .atom a => out ++ a.toText
  | .edge cs => (writeAll (out.push '(') cs).push ')'

def writeAll (out : String) : List Entity → String
  | [] => out
  | c :: cs => writeAfter (write out c) cs

def writeAfter (out : String) : List Entity → String
  | [] => out
  | c :: cs => writeAfter (write (out.push ' ') c) cs

end

def toText (e : Entity) : String := write "" e

mutual

theorem toList_write : (out : String) → (e : Entity) →
    (write out e).toList = out.toList ++ e.chars
  | out, .atom a => by simp [write, chars]
  | out, .edge cs => by simp [write, chars, toList_writeAll _ cs]

theorem toList_writeAll : (out : String) → (cs : List Entity) →
    (writeAll out cs).toList = out.toList ++ charsAll cs
  | out, [] => by simp [writeAll, charsAll]
  | out, c :: cs => by simp [writeAll, charsAll, toList_writeAfter _ cs, toList_write _ c]

theorem toList_writeAfter : (out : String) → (cs : List Entity) →
    (writeAfter out cs).toList = out.toList ++ charsAfter cs
  | out, [] => by simp [writeAfter, charsAfter]
  | out, c :: cs => by simp [writeAfter, charsAfter, toList_writeAfter _ cs, toList_write _ c]

end

theorem toList_toText (e : Entity) : e.toText.toList = e.chars := by
  simp [toText, toList_write]

end Entity

end SemanticHypergraph
