import SemanticHypergraph.Snapshot.Basic
import SemanticHypergraph.Snapshot.Varint

/-!
# Reading snapshots

The inverse of writing, and more generous: numbers may be written longer than need be, map entries
may come in any order and repeat a name, the last one holding, and bytes after the payload are not
looked at.
-/
namespace SemanticHypergraph.Snapshot

/-- Reads a part of a payload and leaves the bytes after it. -/
abbrev Decoder (α : Type) := StateT (List UInt8) (Except PayloadFault) α

namespace Decoder

def fail {α : Type} (fault : PayloadFault) : Decoder α := fun _ => .error fault

def byte : Decoder UInt8
  | [] => .error .endOfData
  | b :: bs => .ok (b, bs)

/-- The next `n` bytes. -/
def bytes (n : Nat) : Decoder (List UInt8) := fun bs =>
  let found := bs.take n
  if found.length < n then .error .endOfData else .ok (found, bs.drop n)

def number : Decoder Nat := Varint.decode64

/-- The number of an alternative. -/
def variant : Decoder Nat := Varint.decode32

def text : Decoder String := do
  let n ← number
  let bs ← bytes n
  match String.fromUTF8? ⟨bs.toArray⟩ with
  | some s => return s
  | none => fail .invalidText

def bool : Decoder Bool := do
  match ← byte with
  | 0 => return false
  | 1 => return true
  | _ => fail .notABool

def option {α : Type} (item : Decoder α) : Decoder (Option α) := do
  match ← byte with
  | 0 => return none
  | 1 => return some (← item)
  | _ => fail .notAnOption

/-- `n` items after those read so far, latest first. -/
def items {α : Type} (item : Decoder α) (found : List α) : Nat → Decoder (List α)
  | 0 => return found.reverse
  | n + 1 => do items item ((← item) :: found) n

def list {α : Type} (item : Decoder α) : Decoder (List α) := do items item [] (← number)

/-- Eight bytes, low byte first. -/
def word : Decoder UInt64 := do
  let bs ← bytes 8
  return UInt64.ofNat (bs.foldr (fun b n => b.toNat + 256 * n) 0)

def atom : Decoder Atom := do
  let root ← text
  let kind ← option text
  let scope ← option text
  return ⟨root, kind, scope⟩

/-- An entity of less than `levels` levels. -/
def entity : Nat → Decoder Entity
  | 0 => fail .endOfData
  | levels + 1 => do
    match ← variant with
    | 0 => return .atom (← atom)
    | 1 => return .edge (← list (entity levels))
    | _ => fail .unknownVariant

def value : Decoder Value := do
  match ← variant with
  | 0 => return .text (← text)
  | 1 => return .int (Int64.ofInt (Varint.unfold (← number)))
  | 2 => return .float ⟨← word⟩
  | _ => fail .unknownVariant

def namedValue : Decoder (String × Value) := do
  let name ← text
  return (name, ← value)

def attributes : Decoder Attributes := do
  return (← list namedValue).foldl (fun all a => all.insert a.1 a.2) ∅

def entry (levels : Nat) : Decoder Entry := do
  let e ← entity levels
  let isPrimary ← bool
  return ⟨e, isPrimary, ← attributes⟩

def snapshotWithin (levels : Nat) : Decoder Snapshot := do
  let name ← text
  let checksum ← number
  return ⟨name, UInt64.ofNat checksum, ← list (entry levels)⟩

/-- Each level of an entity takes bytes of its own, so the bytes at hand bound the levels. -/
def snapshot : Decoder Snapshot := fun bs => snapshotWithin (bs.length + 1) bs

end Decoder

end SemanticHypergraph.Snapshot
