/-!
# Options

A command line is read level by level. A level consists of options and either of words or of a
subcommand, whose own level takes the rest. An option is a long name after two dashes or a letter
after one; letters may be bundled, and a value is the next word or joined to its option. After a pair
of dashes alone everything is a word.
-/
namespace SemanticHypergraph.CommandLine

structure OptionSpec where
  long : String
  short : Option Char
  takesValue : Bool
  deriving DecidableEq, Repr

/-- What a level accepts. -/
structure Grammar where
  options : List OptionSpec
  subcommands : List String
  deriving DecidableEq, Repr

/-- What a level holds: options by their long names, words in order, and the subcommand with the
arguments after it. -/
structure Level where
  options : List (String × Option String) := []
  words : List String := []
  subcommand : Option (String × List String) := none
  deriving DecidableEq, Repr

namespace Level

def has (l : Level) (long : String) : Bool := (l.options.lookup long).isSome

def value? (l : Level) (long : String) : Option String := (l.options.lookup long).bind id

/-- Adds an option; none may come twice. -/
def addOption (l : Level) (long : String) (value : Option String) : Option Level :=
  if l.has long then none else some { l with options := l.options ++ [(long, value)] }

def addWord (l : Level) (word : String) : Level := { l with words := l.words ++ [word] }

end Level

/-- What the arguments read so far come to. -/
inductive Effect where
  | complete (l : Level)
  /-- The option named still has to get the next argument as its value. -/
  | awaits (l : Level) (long : String)
  deriving DecidableEq, Repr

namespace Grammar

def findLong (g : Grammar) (long : String) : Option OptionSpec := g.options.find? (·.long == long)

def findShort (g : Grammar) (letter : Char) : Option OptionSpec :=
  g.options.find? (·.short == some letter)

/-- Reads what follows two dashes. -/
def readLong (g : Grammar) (l : Level) (cs : List Char) : Option Effect := do
  let spec ← g.findLong (String.ofList (cs.takeWhile (· != '=')))
  match cs.dropWhile (· != '='), spec.takesValue with
  | [], false => return .complete (← l.addOption spec.long none)
  | [], true => if l.has spec.long then none else return .awaits l spec.long
  | _ :: value, true => return .complete (← l.addOption spec.long (some (String.ofList value)))
  | _ :: _, false => none

/-- Reads the letters after one dash. -/
def readShort (g : Grammar) (l : Level) : List Char → Option Effect
  | [] => some (.complete l)
  | letter :: cs => do
    let spec ← g.findShort letter
    if !spec.takesValue then g.readShort (← l.addOption spec.long none) cs
    else
      match cs with
      | [] => if l.has spec.long then none else return .awaits l spec.long
      | '=' :: value => return .complete (← l.addOption spec.long (some (String.ofList value)))
      | value => return .complete (← l.addOption spec.long (some (String.ofList value)))

/-- The argument is read as options; a dash alone is a word. -/
def isOption (argument : String) : Bool :=
  match argument.toList with
  | '-' :: _ :: _ => true
  | _ => false

def readOption (g : Grammar) (l : Level) (argument : String) : Option Effect :=
  match argument.toList with
  | '-' :: '-' :: cs => g.readLong l cs
  | '-' :: cs => g.readShort l cs
  | _ => none

/-- Reads the arguments of a level after those that had the given effect. -/
def readFrom (g : Grammar) : Effect → List String → Option Level
  | .complete l, [] => some l
  | .awaits _ _, [] => none
  | .awaits l long, value :: rest =>
    if isOption value then none
    else
      match l.addOption long (some value) with
      | some m => g.readFrom (.complete m) rest
      | none => none
  | .complete l, argument :: rest =>
    if argument = "--" then some { l with words := l.words ++ rest }
    else if isOption argument then
      match g.readOption l argument with
      | some effect => g.readFrom effect rest
      | none => none
    else if g.subcommands.contains argument then some { l with subcommand := some (argument, rest) }
    else g.readFrom (.complete (l.addWord argument)) rest

def read (g : Grammar) (arguments : List String) : Option Level :=
  g.readFrom (.complete {}) arguments

end Grammar

end SemanticHypergraph.CommandLine
