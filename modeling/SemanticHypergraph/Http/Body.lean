import SemanticHypergraph.Http.Call
import SemanticHypergraph.Json.Reading

/-!
# Bodies

A call is read from an object whose members name its arguments, or from a list of the arguments in
their order. Optional arguments may be missing and unknown members are passed over; a known member
may not come twice. The text is read once, from left to right, and the first fault counts.
-/
namespace SemanticHypergraph.Http

open Json (Reader)
open Json.Reader

/-- The arguments of calls. -/
inductive Field where
  | entity
  | pattern
  | isPrimary
  | isDeep
  | keepShared
  | limit
  deriving DecidableEq, Repr

/-- The arguments given so far. A limit of null is given, and sets none. -/
structure Form where
  entity : Option String := none
  pattern : Option String := none
  isPrimary : Option Bool := none
  isDeep : Option Bool := none
  keepShared : Option Bool := none
  limit : Option (Option Nat) := none
  deriving DecidableEq, Repr

def readText : Reader String := do
  match ← scalar with
  | .text s => return s
  | _ => fail .shape

def readFlag : Reader Bool := do
  match ← scalar with
  | .flag b => return b
  | _ => fail .shape

/-- A number from zero on that a word of 64 bits holds, or null. -/
def readLimit : Reader (Option Nat) := do
  match ← scalar with
  | .null => return none
  | .integer n => if 0 ≤ n then return some n.toNat else fail .shape
  | _ => fail .shape

namespace Field

def name : Field → String
  | entity => "entity"
  | pattern => "pattern"
  | isPrimary => "primary"
  | isDeep => "deep"
  | keepShared => "keep_shared"
  | limit => "limit"

/-- The argument has been given. -/
def isIn (form : Form) : Field → Bool
  | entity => form.entity.isSome
  | pattern => form.pattern.isSome
  | isPrimary => form.isPrimary.isSome
  | isDeep => form.isDeep.isSome
  | keepShared => form.keepShared.isSome
  | limit => form.limit.isSome

/-- Reads the argument into the form. -/
def read (form : Form) : Field → Reader Form
  | entity => do return { form with entity := some (← readText) }
  | pattern => do return { form with pattern := some (← readText) }
  | isPrimary => do return { form with isPrimary := some (← readFlag) }
  | isDeep => do return { form with isDeep := some (← readFlag) }
  | keepShared => do return { form with keepShared := some (← readFlag) }
  | limit => do return { form with limit := some (← readLimit) }

end Field

namespace Form

/-- Reads the remaining members of an object. -/
def readMembers (fields : List Field) (first : Bool) (form : Form) : Nat → Reader Form
  | 0 => fail .malformed
  | fuel + 1 => do
    match ← nextMember first with
    | none => return form
    | some name =>
      match fields.find? (·.name == name) with
      | some field =>
        if field.isIn form then fail .shape
        mark ':'
        readMembers fields false (← field.read form) fuel
      | none =>
        mark ':'
        skipValue
        readMembers fields false form fuel

/-- Reads the remaining arguments of a list. -/
def readItems (first : Bool) (form : Form) : List Field → Reader Form
  | [] => do
    mark ']'
    return form
  | field :: rest => do
    if ← nextItem first then readItems false (← field.read form) rest else return form

/-- Reads the arguments that `fields` lists. -/
def read (fields : List Field) : Reader Form := do
  let c ← peek
  if c = '\x7b' then
    skip
    readMembers fields true {} (← remaining)
  else if c = '[' then
    skip
    readItems true {} fields
  else
    let _ ← scalar
    fail .shape

/-- The entity, which may not be missing. -/
def requireEntity (form : Form) : Reader String :=
  match form.entity with
  | some s => pure s
  | none => fail .shape

/-- The pattern, which may not be missing. -/
def requirePattern (form : Form) : Reader String :=
  match form.pattern with
  | some s => pure s
  | none => fail .shape

def removal (form : Form) : Hypergraph.Removal :=
  if form.isDeep.getD false then
    if form.keepShared.getD false then .deepUnshared else .deep
  else .shallow

end Form

/-! ## Attribute calls -/

/-- What is done to an attribute, before its value is known. -/
inductive AttributeVerb where
  | get
  | set
  | step (step : Step)
  deriving DecidableEq, Repr

namespace AttributeVerb

def ofName? : String → Option AttributeVerb
  | "get" => some get
  | "set" => some set
  | "inc" => some (step .up)
  | "dec" => some (step .down)
  | _ => none

def read : Reader AttributeVerb := do
  match ofName? (← readText) with
  | some verb => return verb
  | none => fail .shape

end AttributeVerb

/-- An attribute is a text or a number; an integer that no signed word holds becomes a floating-point
number. -/
def attributeOfJson : Json.Value → Option Value
  | .text s => some (.text s)
  | .float x => some (.float x)
  | .integer n => if n ≤ Text.maxInt64 then some (.int (Int64.ofInt n)) else some (.float (.ofInt n))
  | _ => none

def textOfJson : Json.Value → Option String
  | .text s => some s
  | _ => none

namespace AttributeVerb

/-- The call with the arguments as JSON. -/
def call (verb : AttributeVerb) (entity name value : Option Json.Value) : Option Call := do
  let entity ← entity.bind textOfJson
  let name ← name.bind textOfJson
  let action ← match verb with
    | get => some .get
    | step s => some (.step s)
    | set => (value.bind attributeOfJson).map .set
  return .attribute entity name action

/-- The call whose arguments are the members of an object; none may come twice that the verb
takes. -/
def callOfMembers (verb : AttributeVerb) (members : List (String × Json.Value)) : Option Call :=
  let known := if verb = set then ["entity", "name", "value"] else ["entity", "name"]
  if known.any fun name => 1 < (members.filter (·.1 == name)).length then none
  else verb.call (members.lookup "entity") (members.lookup "name") (members.lookup "value")

/-- The call whose arguments are the items of a list, no more and no fewer than the verb takes. -/
def callOfItems (verb : AttributeVerb) (items : List Json.Value) : Option Call :=
  match verb, items with
  | set, [entity, name, value] => verb.call entity name value
  | set, _ => none
  | _, [entity, name] => verb.call entity name none
  | _, _ => none

end AttributeVerb

/-- The verb, if it has been given, and the other members of an object. -/
def readAttributeMembers (verb : Option AttributeVerb) (first : Bool)
    (members : List (String × Json.Value)) :
    Nat → Reader (Option AttributeVerb × List (String × Json.Value))
  | 0 => fail .malformed
  | fuel + 1 => do
    match ← nextMember first with
    | none => return (verb, members.reverse)
    | some "op" =>
      if verb.isSome then fail .shape
      mark ':'
      readAttributeMembers (some (← AttributeVerb.read)) false members fuel
    | some name =>
      mark ':'
      readAttributeMembers verb false ((name, ← value (Json.maxNesting - 1)) :: members) fuel

def ofOptionShape {α : Type} : Option α → Reader α
  | some a => pure a
  | none => fail .shape

/-- Reads the call on an attribute: the member `op`, or the first item, is its verb. -/
def readAttributeCall : Reader Call := do
  let c ← peek
  if c = '\x7b' then
    skip
    let (verb, members) ← readAttributeMembers none true [] (← remaining)
    ofOptionShape (verb.bind (·.callOfMembers members))
  else if c = '[' then
    skip
    if ← nextItem true then
      let verb ← AttributeVerb.read
      let items ← itemsFrom (value (Json.maxNesting - 1)) false [] (← remaining)
      ofOptionShape (verb.callOfItems items)
    else fail .shape
  else
    let _ ← scalar
    fail .shape

/-! ## All calls -/

/-- The calls that are read from a body. -/
inductive CallKind where
  | add
  | remove
  | lookUp
  | find
  | star
  | ego
  | degree
  | removeMatching
  | attribute
  deriving DecidableEq, Repr

namespace CallKind

def read : CallKind → Reader Call
  | add => do
    let form ← Form.read [.entity, .isPrimary]
    return .add (← form.requireEntity) (form.isPrimary.getD true)
  | remove => do
    let form ← Form.read [.entity, .isDeep, .keepShared]
    return .remove (← form.requireEntity) form.removal
  | lookUp => do
    let form ← Form.read [.entity]
    return .lookUp (← form.requireEntity)
  | find => do
    let form ← Form.read [.pattern, .limit]
    return .find (← form.requirePattern) (form.limit.getD none)
  | star => do
    let form ← Form.read [.entity, .limit]
    return .star (← form.requireEntity) (form.limit.getD none)
  | ego => do
    let form ← Form.read [.entity]
    return .ego (← form.requireEntity)
  | degree => do
    let form ← Form.read [.entity, .isDeep]
    return .degree (← form.requireEntity) (form.isDeep.getD false)
  | removeMatching => do
    let form ← Form.read [.pattern, .limit]
    return .removeMatching (← form.requirePattern)
  | .attribute => readAttributeCall

/-- Reads a whole body. -/
def ofBody (kind : CallKind) (body : String) : Except Json.Fault Call :=
  kind.read.whole body

end CallKind

end SemanticHypergraph.Http
