/-!
# Errors

What an operation on a hypergraph can fail with, and the sentence that reports each failure.
-/
namespace SemanticHypergraph

inductive Error where
  /-- The text breaks the grammar; `position` counts bytes of UTF-8. -/
  | parse (reason : String) (position : Nat)
  | unsupported (operation : String)
  | invalidEntity (reason : String)
  /-- An edge was offered before one of its children. -/
  | danglingChild (edge child : String)
  /-- A number was asked of an attribute that holds something else. -/
  | attributeType (name found : String)
  | serialization (reason : String)
  | io (reason : String)
  | config (reason : String)
  deriving DecidableEq, Repr

namespace Error

def message : Error → String
  | parse reason position => "Parse error at byte " ++ toString position ++ ": " ++ reason
  | unsupported operation => "Unsupported operation: " ++ operation
  | invalidEntity reason => "Invalid entity: " ++ reason
  | danglingChild edge child => "Dangling child " ++ child ++ " in edge " ++ edge
  | attributeType name found =>
    "Attribute '" ++ name ++ "' holds a " ++ found ++ ", not a number"
  | serialization reason => "Serialization error: " ++ reason
  | io reason => "I/O error: " ++ reason
  | config reason => "Configuration error: " ++ reason

end Error

end SemanticHypergraph
