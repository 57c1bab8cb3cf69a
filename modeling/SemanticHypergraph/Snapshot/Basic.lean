import Std.Data.ExtTreeMap
import SemanticHypergraph.Entity.Order
import SemanticHypergraph.Value

/-!
# Snapshots

A snapshot holds the whole content of a store apart from any store: its entities with their marks
and attributes, under the store's name and a checksum of the entries.
-/
namespace SemanticHypergraph

/-- The attributes of one entity, by name. -/
abbrev Attributes := Std.ExtTreeMap String Value

namespace Snapshot

structure Entry where
  entity : Entity
  isPrimary : Bool
  attributes : Attributes
  deriving DecidableEq

end Snapshot

structure Snapshot where
  name : String
  checksum : UInt64
  entries : List Snapshot.Entry
  deriving DecidableEq

end SemanticHypergraph
