import SemanticHypergraph.Snapshot.Reading
import SemanticHypergraph.Snapshot.Writing

/-!
# Snapshot files

A file is a header of four magic bytes and a version, and the payload. The checksum is that of the
entries as they are written, whatever spelling they were read from.
-/
namespace SemanticHypergraph.Snapshot

/-- The multiply-and-fold hash of Fowler, Noll and Vo on 64 bits, byte by byte. -/
def hashBytes (bs : List UInt8) : UInt64 :=
  bs.foldl (fun h b => (h ^^^ b.toUInt64) * 0x100000001b3) 0xcbf29ce484222325

def checksumOf (entries : List Entry) : UInt64 := hashBytes (encodeEntries entries)

def magic : List UInt8 := [0x53, 0x4D, 0x48, 0x47]

def formatVersion : UInt8 := 1

def headerLength : Nat := 5

/-- Longest file that is read, in bytes. -/
def maxFileSize : Nat := 524288000

structure Header where
  magic : List UInt8
  version : UInt8
  deriving DecidableEq, Repr

namespace Header

def current : Header := ⟨Snapshot.magic, formatVersion⟩

def toBytes (h : Header) : List UInt8 := h.magic ++ [h.version]

def ofBytes (bs : List UInt8) : Except Error Header :=
  match bs with
  | a :: b :: c :: d :: version :: _ => .ok ⟨[a, b, c, d], version⟩
  | _ => .error (.serialization "Header too short")

def validate (h : Header) : Except Error Unit :=
  if h.magic ≠ Snapshot.magic then .error (.serialization "Invalid magic bytes")
  else if h.version ≠ formatVersion then
    .error (.serialization ("Unsupported version: " ++ toString h.version.toNat ++ " (expected " ++
      toString formatVersion.toNat ++ ")"))
  else .ok ()

end Header

def verify (s : Snapshot) : Except Error Unit :=
  let computed := checksumOf s.entries
  if computed = s.checksum then .ok ()
  else .error (.serialization ("Checksum mismatch: expected " ++ toString s.checksum.toNat ++
    ", got " ++ toString computed.toNat))

def toBytes (s : Snapshot) : List UInt8 := Header.current.toBytes ++ s.encode

def ofPayload (bs : List UInt8) : Except Error Snapshot :=
  match Decoder.snapshot bs with
  | .ok (s, _) => .ok s
  | .error fault =>
    .error (.serialization ("Failed to deserialize snapshot: " ++ fault.message))

/-- Reads a file and checks its checksum. -/
def ofBytes (bs : List UInt8) : Except Error Snapshot := do
  let length := bs.length
  if length < headerLength then
    throw (.serialization ("Data too short: minimum " ++ toString headerLength ++
      " bytes required"))
  if maxFileSize < length then
    throw (.serialization ("Data size " ++ toString length ++ " bytes exceeds maximum allowed " ++
      toString maxFileSize ++ " bytes"))
  (← Header.ofBytes bs).validate
  let s ← ofPayload (bs.drop headerLength)
  s.verify
  return s

end SemanticHypergraph.Snapshot
