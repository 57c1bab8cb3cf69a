import SemanticHypergraph.Snapshot.Reading
import SemanticHypergraph.Snapshot.Writing
import SemanticHypergraph.Store.Numbered

/-!
# Database files

A numbered store on file is a mark and a row for every number, in order: its entity and, if that is
stored, its mark and its attributes. The indexes follow from the rows and are built when the file is
read.
-/
namespace SemanticHypergraph.NumberedStore

/-- What is written of one number. -/
structure Row where
  entity : Entity
  content : Option (Bool × Attributes)
  deriving DecidableEq

def rows (s : NumberedStore) : List Row :=
  (s.numbers.toList.mergeSort fun a b => decide (a.2 ≤ b.2)).map fun (e, n) =>
    ⟨e, s.records[n]?.map fun r => (r.2, s.attributesAt n)⟩

/-- Numbers the entity of a row. -/
def assignRow (s : NumberedStore) (r : Row) : NumberedStore := (s.assign r.entity).2

/-- Stores what a row holds under the number of its entity. -/
def fillRow (s : NumberedStore) (r : Row) : NumberedStore :=
  match s.numberOf? r.entity, r.content with
  | some n, some (isPrimary, values) =>
    let t := (s.link n r.entity).setRecord n r.entity isPrimary
    if values.isEmpty then t else { t with attributeRows := t.attributeRows.insert n values }
  | _, _ => s

def ofRows (name : String) (policy : PrimaryPolicy) (rows : List Row) : NumberedStore :=
  rows.foldl fillRow (rows.foldl assignRow (empty name policy))

/-- The first bytes of every database. -/
def fileMark : List UInt8 := [0x72, 0x65, 0x64, 0x62, 0x1A, 0x0A, 0xA9, 0x0D, 0x0A]

def encodeContent (c : Bool × Attributes) : List UInt8 :=
  encodeBool c.1 ++ encodeList encodeAttribute c.2.toList

def Row.encode (r : Row) : List UInt8 := r.entity.encode ++ encodeOption encodeContent r.content

def toFile (s : NumberedStore) : List UInt8 := fileMark ++ encodeList Row.encode s.rows

open Snapshot in
def decodeContent : Decoder (Bool × Attributes) := do
  let isPrimary ← Decoder.bool
  return (isPrimary, ← Decoder.attributes)

open Snapshot in
def decodeRow (levels : Nat) : Decoder Row := do
  let e ← Decoder.entity levels
  return ⟨e, ← Decoder.option decodeContent⟩

/-- The store that a file holds, if it is a database. Names and policies are not kept in files. -/
def ofFile? (bytes : List UInt8) : Option NumberedStore :=
  if fileMark.isPrefixOf bytes then
    match Snapshot.Decoder.list (decodeRow (bytes.length + 1)) (bytes.drop fileMark.length) with
    | .ok (rows, _) => some (ofRows "" .preserve rows)
    | .error _ => none
  else none

end SemanticHypergraph.NumberedStore
