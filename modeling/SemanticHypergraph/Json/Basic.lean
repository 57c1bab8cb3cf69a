import SemanticHypergraph.Binary64.Layout

/-!
# JSON values

A number written without fraction and exponent is an integer, any other one a floating-point number.
The members of an object keep their order, and one name may come more than once.
-/
namespace SemanticHypergraph.Json

inductive Value where
  | null
  | flag (b : Bool)
  | integer (n : Int)
  | float (x : Binary64)
  | text (s : String)
  | list (items : List Value)
  | object (members : List (String × Value))
  deriving Repr

/-- Why a text does not give the value that is asked for. -/
inductive Fault where
  /-- The text is no JSON. -/
  | malformed
  /-- The text is JSON, but of another shape. -/
  | shape
  deriving DecidableEq, Repr

namespace Value

/-- What may be missing is null. -/
def ofOption {α : Type} (encode : α → Value) : Option α → Value
  | some a => encode a
  | none => null

def ofNat (n : Nat) : Value := integer n

end Value

end SemanticHypergraph.Json
