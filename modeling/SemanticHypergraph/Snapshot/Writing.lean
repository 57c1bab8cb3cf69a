import SemanticHypergraph.Snapshot.Basic
import SemanticHypergraph.Snapshot.Varint

/-!
# Writing snapshots

Structures are written field by field. Texts, lists and maps follow their length, an absent part is
a zero byte and a present one follows a one, and an alternative follows its number.
-/
namespace SemanticHypergraph

def encodeText (s : String) : List UInt8 :=
  Snapshot.Varint.encode s.utf8ByteSize ++ s.toUTF8.data.toList

def encodeBool (b : Bool) : List UInt8 := [if b then 1 else 0]

def encodeOption {α : Type} (encode : α → List UInt8) : Option α → List UInt8
  | none => [0]
  | some a => 1 :: encode a

def encodeList {α : Type} (encode : α → List UInt8) (xs : List α) : List UInt8 :=
  Snapshot.Varint.encode xs.length ++ xs.flatMap encode

/-- The eight bytes of a word, low byte first. -/
def encodeWord (w : UInt64) : List UInt8 :=
  (List.range 8).map fun i => UInt8.ofNat (w.toNat / Nat.pow 256 i)

def Atom.encode (a : Atom) : List UInt8 :=
  encodeText a.root ++ encodeOption encodeText a.kind ++ encodeOption encodeText a.scope

namespace Entity

mutual

def encode : Entity → List UInt8
  | .atom a => Snapshot.Varint.encode 0 ++ a.encode
  | .edge cs => Snapshot.Varint.encode 1 ++ Snapshot.Varint.encode cs.length ++ encodeAll cs

def encodeAll : List Entity → List UInt8
  | [] => []
  | c :: cs => encode c ++ encodeAll cs

end

end Entity

def Value.encode : Value → List UInt8
  | text s => Snapshot.Varint.encode 0 ++ encodeText s
  | int n => Snapshot.Varint.encode 1 ++ Snapshot.Varint.encode (Snapshot.Varint.fold n.toInt)
  | float x => Snapshot.Varint.encode 2 ++ encodeWord x.bits

def encodeAttribute (a : String × Value) : List UInt8 := encodeText a.1 ++ a.2.encode

namespace Snapshot

def Entry.encode (e : Entry) : List UInt8 :=
  e.entity.encode ++ encodeBool e.isPrimary ++ encodeList encodeAttribute e.attributes.toList

def encodeEntries (entries : List Entry) : List UInt8 := encodeList Entry.encode entries

/-- The payload of a snapshot. -/
def encode (s : Snapshot) : List UInt8 :=
  encodeText s.name ++ Varint.encode s.checksum.toNat ++ encodeEntries s.entries

end Snapshot

end SemanticHypergraph
