import SemanticHypergraph.Proofs.Snapshot.Decoding
import SemanticHypergraph.Proofs.Snapshot.Encoding

/-!
# Different snapshots are written differently

Each part of a snapshot can be told from the bytes that begin with it, and so can where it ends. So no
two snapshots have the same file.
-/
namespace SemanticHypergraph

open Snapshot Decoder

/-- What is read back whatever follows it can be told from the bytes. -/
theorem unambiguous_of_reads {α : Type} {d : Decoder α} {encode : α → List UInt8}
    (h : ∀ a, Reads d (encode a) a) : Unambiguous encode := by
  intro a b x y heq
  have ha := h a x
  rw [heq, h b y] at ha
  cases ha
  exact ⟨rfl, rfl⟩

theorem unambiguous_encodeBool : Unambiguous encodeBool := unambiguous_of_reads reads_bool

theorem unambiguous_encodeWord : Unambiguous encodeWord := unambiguous_of_reads reads_word

theorem Unambiguous.flatMap {α : Type} {encode : α → List UInt8} (h : Unambiguous encode)
    {as bs : List α} {x y : List UInt8} (hlength : as.length = bs.length)
    (heq : as.flatMap encode ++ x = bs.flatMap encode ++ y) : as = bs ∧ x = y := by
  induction as generalizing bs with
  | nil =>
    cases List.length_eq_zero_iff.1 hlength.symm
    exact ⟨rfl, heq⟩
  | cons a as ih =>
    obtain ⟨b, bs, rfl⟩ := List.exists_cons_of_length_eq_add_one hlength.symm
    rw [List.flatMap_cons, List.flatMap_cons, List.append_assoc, List.append_assoc] at heq
    obtain ⟨rfl, hrest⟩ := h heq
    obtain ⟨rfl, hlast⟩ := ih (Nat.succ.inj hlength) hrest
    exact ⟨rfl, hlast⟩

theorem unambiguous_encodeList {α : Type} {encode : α → List UInt8} (h : Unambiguous encode) :
    Unambiguous (encodeList encode) := by
  intro as bs x y heq
  rw [encodeList, encodeList, List.append_assoc, List.append_assoc] at heq
  obtain ⟨hlength, hitems⟩ := Varint.unambiguous_encode heq
  exact h.flatMap hlength hitems

theorem Snapshot.Varint.fold_toInt_inj {m n : Int64} (h : fold m.toInt = fold n.toInt) : m = n := by
  have hint := congrArg unfold h
  rw [unfold_fold, unfold_fold] at hint
  exact Int64.toInt_inj.1 hint

theorem encodeValue_append_inj {x y : List UInt8} : (v w : Value) →
    v.encode ++ x = w.encode ++ y → v = w ∧ x = y
  | .text s, .text t, h => by
    simp only [Value.encode, List.append_assoc] at h
    obtain ⟨rfl, hrest⟩ := unambiguous_encodeText (Varint.unambiguous_encode h).2
    exact ⟨rfl, hrest⟩
  | .int m, .int n, h => by
    simp only [Value.encode, List.append_assoc] at h
    obtain ⟨hfold, hrest⟩ := Varint.unambiguous_encode (Varint.unambiguous_encode h).2
    exact ⟨congrArg Value.int (Varint.fold_toInt_inj hfold), hrest⟩
  | .float ⟨bits⟩, .float ⟨bits'⟩, h => by
    simp only [Value.encode, List.append_assoc] at h
    obtain ⟨rfl, hrest⟩ := unambiguous_encodeWord (Varint.unambiguous_encode h).2
    exact ⟨rfl, hrest⟩
  -- Values of two kinds begin with two numbers.
  | .text _, .int _, h | .text _, .float _, h | .int _, .text _, h | .int _, .float _, h
  | .float _, .text _, h | .float _, .int _, h => by
    simp only [Value.encode, List.append_assoc] at h
    exact absurd (Varint.unambiguous_encode h).1 (by decide)

theorem unambiguous_encodeValue : Unambiguous Value.encode :=
  fun {v w _ _} h => encodeValue_append_inj v w h

theorem unambiguous_encodeAttribute : Unambiguous encodeAttribute := by
  rintro ⟨name, value⟩ ⟨name', value'⟩ x y h
  simp only [encodeAttribute, List.append_assoc] at h
  obtain ⟨rfl, hafter⟩ := unambiguous_encodeText h
  obtain ⟨rfl, hrest⟩ := unambiguous_encodeValue hafter
  exact ⟨rfl, hrest⟩

namespace Snapshot

theorem unambiguous_encodeEntry : Unambiguous Entry.encode := by
  rintro ⟨e, mark, all⟩ ⟨e', mark', all'⟩ x y h
  simp only [Entry.encode, List.append_assoc] at h
  obtain ⟨rfl, hafter⟩ := Entity.unambiguous_encode h
  obtain ⟨rfl, hrows⟩ := unambiguous_encodeBool hafter
  obtain ⟨hlist, hrest⟩ := unambiguous_encodeList unambiguous_encodeAttribute hrows
  rw [Std.ExtTreeMap.toList_inj.1 hlist]
  exact ⟨rfl, hrest⟩

theorem unambiguous_encode : Unambiguous encode := by
  rintro ⟨name, sum, entries⟩ ⟨name', sum', entries'⟩ x y h
  simp only [encode, encodeEntries, List.append_assoc] at h
  obtain ⟨rfl, hafter⟩ := unambiguous_encodeText h
  obtain ⟨hsum, hentries⟩ := Varint.unambiguous_encode hafter
  obtain ⟨rfl, hrest⟩ := unambiguous_encodeList unambiguous_encodeEntry hentries
  rw [UInt64.toNat_inj.1 hsum]
  exact ⟨rfl, hrest⟩

/-- No two snapshots have the same file, whatever their size and their checksum. -/
theorem toBytes_injective : Function.Injective toBytes := by
  intro s t h
  exact unambiguous_encode.injective (List.append_cancel_left h)

end Snapshot

end SemanticHypergraph
