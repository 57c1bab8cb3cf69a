import Mathlib.Logic.Function.Basic
import SemanticHypergraph.Snapshot.Writing

/-!
# Encodings are read in one way

What is encoded can be told from the bytes and so can where it ends, whatever follows. So different
entities have different bytes, and bytes can stand for entities as keys of a table.
-/
namespace SemanticHypergraph

/-- From bytes that begin with an encoding both what is encoded and the rest can be told. -/
def Unambiguous {α : Type} (encode : α → List UInt8) : Prop :=
  ∀ {a b : α} {x y : List UInt8}, encode a ++ x = encode b ++ y → a = b ∧ x = y

theorem Unambiguous.injective {α : Type} {encode : α → List UInt8} (h : Unambiguous encode) :
    Function.Injective encode := by
  intro a b heq
  have happend : encode a ++ [] = encode b ++ [] := by rw [heq]
  exact (h happend).1

namespace Snapshot.Varint

theorem encode_of_lt {n : Nat} (h : n < 128) : encode n = [UInt8.ofNat n] := by
  rw [encode, if_pos h]

theorem encode_of_le {n : Nat} (h : 128 ≤ n) :
    encode n = UInt8.ofNat (n % 128 + 128) :: encode (n / 128) := by
  rw [encode, if_neg (by omega)]

/-- Small numbers can be told from their bytes. -/
theorem ofNat_inj {m n : Nat} (hm : m < 256) (hn : n < 256)
    (h : UInt8.ofNat m = UInt8.ofNat n) : m = n := by
  have hnat := congrArg UInt8.toNat h
  rw [UInt8.toNat_ofNat', UInt8.toNat_ofNat'] at hnat
  omega

theorem unambiguous_encode : Unambiguous encode := by
  intro n
  induction n using Nat.strongRecOn with
  | ind n ih =>
    intro m x y h
    rcases Nat.lt_or_ge n 128 with hn | hn
    · rw [encode_of_lt hn] at h
      rcases Nat.lt_or_ge m 128 with hm | hm
      · rw [encode_of_lt hm] at h
        obtain ⟨hhead, htail⟩ := List.cons.inj h
        exact ⟨ofNat_inj (by omega) (by omega) hhead, htail⟩
      · rw [encode_of_le hm] at h
        have hhead := ofNat_inj (by omega) (by omega) (List.cons.inj h).1
        omega
    · rw [encode_of_le hn] at h
      rcases Nat.lt_or_ge m 128 with hm | hm
      · rw [encode_of_lt hm] at h
        have hhead := ofNat_inj (by omega) (by omega) (List.cons.inj h).1
        omega
      · rw [encode_of_le hm] at h
        obtain ⟨hhead, htail⟩ := List.cons.inj h
        have hlow := ofNat_inj (by omega) (by omega) hhead
        obtain ⟨hhigh, hrest⟩ := ih (n / 128) (by omega) htail
        exact ⟨by omega, hrest⟩

end Snapshot.Varint

open Snapshot

theorem unambiguous_encodeText : Unambiguous encodeText := by
  intro s t x y h
  unfold encodeText at h
  rw [List.append_assoc, List.append_assoc] at h
  obtain ⟨hsize, hrest⟩ := Varint.unambiguous_encode h
  have hlength : s.toUTF8.data.toList.length = t.toUTF8.data.toList.length := hsize
  obtain ⟨hbytes, htail⟩ := List.append_inj hrest hlength
  refine ⟨?_, htail⟩
  exact String.toByteArray_inj.1 (ByteArray.ext (Array.toList_inj.1 hbytes))

theorem unambiguous_encodeOption {α : Type} {encode : α → List UInt8} (h : Unambiguous encode) :
    Unambiguous (encodeOption encode) := by
  intro a b x y heq
  cases a with
  | none =>
    cases b with
    | none => exact ⟨rfl, (List.cons.inj heq).2⟩
    | some b => exact absurd (List.cons.inj heq).1 (by decide)
  | some a =>
    cases b with
    | none => exact absurd (List.cons.inj heq).1 (by decide)
    | some b =>
      obtain ⟨rfl, hrest⟩ := h (List.cons.inj heq).2
      exact ⟨rfl, hrest⟩

theorem unambiguous_encodeAtom : Unambiguous Atom.encode := by
  intro a b x y h
  unfold Atom.encode at h
  simp only [List.append_assoc] at h
  obtain ⟨hroot, hafter⟩ := unambiguous_encodeText h
  obtain ⟨hkind, hafter⟩ := unambiguous_encodeOption unambiguous_encodeText hafter
  obtain ⟨hscope, hrest⟩ := unambiguous_encodeOption unambiguous_encodeText hafter
  cases a
  cases b
  cases hroot
  cases hkind
  cases hscope
  exact ⟨rfl, hrest⟩

namespace Entity

mutual

theorem encode_append_inj {x y : List UInt8} : (a b : Entity) →
    encode a ++ x = encode b ++ y → a = b ∧ x = y
  | .atom a, .atom b, h => by
    rw [encode, encode, List.append_assoc, List.append_assoc] at h
    obtain ⟨rfl, hrest⟩ := unambiguous_encodeAtom (Varint.unambiguous_encode h).2
    exact ⟨rfl, hrest⟩
  | .atom a, .edge ds, h => by
    rw [encode, encode, List.append_assoc, List.append_assoc, List.append_assoc] at h
    exact absurd (Varint.unambiguous_encode h).1 (by decide)
  | .edge cs, .atom b, h => by
    rw [encode, encode, List.append_assoc, List.append_assoc, List.append_assoc] at h
    exact absurd (Varint.unambiguous_encode h).1 (by decide)
  | .edge cs, .edge ds, h => by
    simp only [encode, List.append_assoc] at h
    obtain ⟨hlength, hrest⟩ := Varint.unambiguous_encode (Varint.unambiguous_encode h).2
    obtain ⟨hchildren, hrest⟩ := encodeAll_append_inj cs ds hlength hrest
    exact ⟨congrArg _ hchildren, hrest⟩

/-- As many entities are told apart one by one. -/
theorem encodeAll_append_inj {x y : List UInt8} : (as bs : List Entity) →
    as.length = bs.length → encodeAll as ++ x = encodeAll bs ++ y → as = bs ∧ x = y
  | [], [], _, h => ⟨rfl, h⟩
  | [], _ :: _, hlength, _ => nomatch hlength
  | _ :: _, [], hlength, _ => nomatch hlength
  | a :: as, b :: bs, hlength, h => by
    rw [encodeAll, encodeAll, List.append_assoc, List.append_assoc] at h
    obtain ⟨hhead, hrest⟩ := encode_append_inj a b h
    obtain ⟨htail, hrest⟩ := encodeAll_append_inj as bs (Nat.succ.inj hlength) hrest
    exact ⟨by rw [hhead, htail], hrest⟩

end

theorem unambiguous_encode : Unambiguous encode := fun {a b _ _} h => encode_append_inj a b h

end Entity

end SemanticHypergraph
