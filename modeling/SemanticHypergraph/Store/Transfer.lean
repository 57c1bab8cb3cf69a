import SemanticHypergraph.Snapshot.File
import SemanticHypergraph.Store.Operations

/-!
# Moving contents between stores

A snapshot is captured from a store in entity order, so that the order of the store does not show in
it. It is restored shallowest entities first; children that the snapshot lacks are added, and marks
are written as they are whatever the policy of the store.
-/
namespace SemanticHypergraph

open SemanticHypergraph.Hypergraph

variable {σ : Type} [Hypergraph σ]

namespace Snapshot

/-- All attributes by entity; a store that cannot list them has none to give. -/
def attributesOf (s : σ) : Except Error (Std.ExtTreeMap Entity Attributes) :=
  match attributes s with
  | .ok rows => .ok (rows.foldl (fun all p => all.insert p.1 p.2) ∅)
  | .error (.unsupported _) => .ok ∅
  | .error e => .error e

def capture (s : σ) : Except Error Snapshot := do
  let all ← attributesOf s
  let found ← entities s
  let sorted := found.mergeSort fun a b => (compare a b).isLE
  let entries ← sorted.mapM fun e => do
    return (⟨e, ← isPrimary s e, all[e]?.getD ∅⟩ : Entry)
  return ⟨Hypergraph.name s, checksumOf entries, entries⟩

/-- Adds the children that are absent. -/
def addChildren : List Entity → Update σ Unit
  | [] => pure ()
  | c :: cs => do
    unless ← Update.ask (contains · c) do
      let _ ← addWith c false
    addChildren cs

def setAttributes (e : Entity) : List (String × Value) → Update σ Unit
  | [] => pure ()
  | (name, value) :: rest => do
    let _ ← setAttribute e name value
    setAttributes e rest

def restoreEntry (entry : Entry) : Update σ Unit := do
  addChildren entry.entity.children
  insert entry.entity entry.isPrimary
  setPrimary entry.entity entry.isPrimary
  setAttributes entry.entity entry.attributes.toList

def restoreEntries : List Entry → Update σ Unit
  | [] => pure ()
  | entry :: rest => do
    restoreEntry entry
    restoreEntries rest

/-- Puts every entry into the store and answers how many there are. Entries of the same depth keep
their order. -/
def restore (s : Snapshot) : Update σ Nat := do
  restoreEntries (s.entries.mergeSort fun a b => decide (a.entity.depth ≤ b.entity.depth))
  return s.entries.length

end Snapshot

namespace Hypergraph

def exportBytes (s : σ) : Except Error (List UInt8) := (Snapshot.capture s).map Snapshot.toBytes

def importBytes (bs : List UInt8) : Update σ Nat := do
  match Snapshot.ofBytes bs with
  | .ok snapshot => snapshot.restore
  | .error e => throw e

theorem importBytes_eq_restore {bs : List UInt8} {snapshot : Snapshot}
    (h : Snapshot.ofBytes bs = .ok snapshot) :
    (importBytes bs : Update σ Nat) = snapshot.restore := by
  rw [importBytes, h]

theorem importBytes_eq_throw {bs : List UInt8} {e : Error} (h : Snapshot.ofBytes bs = .error e) :
    (importBytes bs : Update σ Nat) = throw e := by
  rw [importBytes, h]

end Hypergraph

end SemanticHypergraph
