import SemanticHypergraph.Binary64.Layout
import SemanticHypergraph.Binary64.Reading
import SemanticHypergraph.Error
import SemanticHypergraph.Text.Blank

/-!
# Attribute values

A value is a text, an integer of 64 bits or a floating-point number. Every value has a text, and may
have an integer and a number too; counters move by one step at a time.
-/
namespace SemanticHypergraph

open Text

inductive Value where
  | text (s : String)
  | int (n : Int64)
  | float (x : Binary64)
  deriving DecidableEq, Repr

inductive Step where
  | up
  | down
  deriving DecidableEq, Repr

/-- Numbers in attributes are written in full, an integral one without a point. -/
def Value.layout : Binary64.Layout where
  tie := .up
  inFull _ := true
  keepsPoint := false
  infinite := "inf"
  notANumber := "NaN"

/-- The nearest integer of 64 bits. -/
def saturate (n : Int) : Int64 := Int64.ofInt (max minInt64 (min n maxInt64))

def Step.delta : Step → Int
  | up => 1
  | down => -1

namespace Value

def kind : Value → String
  | text _ => "string"
  | int _ => "int"
  | float _ => "float"

def toText : Value → String
  | text s => s
  | int n => toString n.toInt
  | float x => layout.write x

/-- The integer that the value is or spells; a float loses its fraction. -/
def toInt? : Value → Option Int64
  | text s => readInt64 (trim s.toList)
  | int n => some n
  | float x => if x.isFinite then some (saturate x.truncate) else none

def toFloat? : Value → Option Binary64
  | text s => Binary64.read (trim s.toList)
  | int n => some (.ofInt n.toInt)
  | float x => some x

/-- The value of the attribute `name` after one step; an absent value counts as zero. -/
def stepped (current : Option Value) (name : String) (step : Step) : Except Error Value :=
  match current with
  | none => .ok (.int (saturate step.delta))
  | some (.int n) => .ok (.int (saturate (n.toInt + step.delta)))
  | some (.float x) => .ok (.float (x.addInt step.delta))
  | some (.text _) => .error (.attributeType name "string")

/-- The value that `text` spells as a value of the named type. -/
def read (text type : String) : Except Error Value :=
  if type = "str" ∨ type = "string" then .ok (.text text)
  else if type = "int" then
    match (Value.text text).toInt? with
    | some n => .ok (.int n)
    | none => .error (.config ("'" ++ text ++ "' is not a valid integer"))
  else if type = "float" then
    match (Value.text text).toFloat? with
    | some x => .ok (.float x)
    | none => .error (.config ("'" ++ text ++ "' is not a valid float"))
  else .error (.config ("Unknown attribute type: " ++ type ++ ". Use: str, int, float"))

end Value

end SemanticHypergraph
