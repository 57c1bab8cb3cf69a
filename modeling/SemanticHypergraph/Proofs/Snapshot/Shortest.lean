import Mathlib.Data.List.Perm.Subperm
import SemanticHypergraph.Proofs.Snapshot.Decoding
import SemanticHypergraph.Proofs.Snapshot.Encoding

/-!
# Nothing is spelled shorter than it is written

A payload has many spellings: numbers may be longer than need be, attributes may come in any order and
more than once, and bytes may follow the last entry. Each part of what is read was spelled with at least
as many bytes as it is written with. So what was read from a file can be written to a file that is not
longer, and it is read back from there.
-/
namespace SemanticHypergraph.Snapshot

namespace Decoder

variable {α β : Type} {bs rest : List UInt8}

/-- What the decoder takes for a value is at least as long as what the value is written with. -/
def NoShorter (d : Decoder α) (encode : α → List UInt8) : Prop :=
  ∀ {bs rest : List UInt8} {a : α}, d bs = .ok (a, rest) →
    (encode a).length + rest.length ≤ bs.length

theorem run_bind_eq_ok {d : Decoder α} {f : α → Decoder β} {b : β} :
    (d >>= f) bs = .ok (b, rest) ↔ ∃ a mid, d bs = .ok (a, mid) ∧ f a mid = .ok (b, rest) := by
  change Except.bind (d bs) (fun p => f p.1 p.2) = _ ↔ _
  cases d bs with
  | error fault => simp [Except.bind]
  | ok p => simp [Except.bind, Prod.ext_iff]

theorem run_pure_eq_ok {a b : α} : (pure a : Decoder α) bs = .ok (b, rest) ↔ a = b ∧ bs = rest := by
  change Except.ok (a, bs) = _ ↔ _
  simp

theorem run_return_eq_ok {d : Decoder α} {f : α → β} {b : β} :
    (do return f (← d)) bs = .ok (b, rest) ↔ ∃ a, d bs = .ok (a, rest) ∧ f a = b := by
  rw [run_bind_eq_ok]
  constructor
  · rintro ⟨a, mid, ha, hb⟩
    obtain ⟨rfl, rfl⟩ := run_pure_eq_ok.1 hb
    exact ⟨a, ha, rfl⟩
  · rintro ⟨a, ha, rfl⟩
    exact ⟨a, rest, ha, rfl⟩

end Decoder

/-! ## Numbers -/

namespace Varint

/-- Every seven bits of a number take a byte, and its spelling has no fewer of them. -/
theorem decode_noShorter {last fuel n : Nat} {bs rest : List UInt8}
    (h : decode last fuel bs = .ok (n, rest)) : (encode n).length + rest.length ≤ bs.length := by
  fun_induction decode last fuel bs generalizing n rest with
  | case1 => cases h
  | case2 => cases h
  | case3 => cases h
  | case4 fuel b bs hb =>
    cases h
    rw [encode, if_pos hb, List.length_singleton, List.length_cons]
    omega
  | case5 => cases h
  | case6 fuel b bs hb high rest' hhigh ih =>
    cases h
    have hlength := ih hhigh
    rw [encode]
    split
    · have hpos := List.length_pos_of_ne_nil (encode_ne_nil high)
      simp only [List.length_cons, List.length_nil]
      omega
    · have hdigits : (b.toNat - 128 + 128 * high) / 128 = high := by
        have hbyte := b.toNat_lt
        omega
      rw [hdigits]
      simp only [List.length_cons]
      omega

theorem lt_of_decode {last fuel n : Nat} {bs rest : List UInt8}
    (h : decode last (fuel + 1) bs = .ok (n, rest)) : n < 128 ^ fuel * (last + 1) := by
  -- Induction on the bytes that may come before the last one.
  induction fuel generalizing bs n with
  | zero =>
    cases bs with
    | nil => cases h
    | cons b bs =>
      simp only [decode, true_and] at h
      split_ifs at h with hb hbig
      cases h
      omega
  | succ fuel ih =>
    cases bs with
    | nil => cases h
    | cons b bs =>
      have hpow : 128 ^ (fuel + 1) * (last + 1) = 128 * (128 ^ fuel * (last + 1)) := by
        rw [Nat.pow_succ', Nat.mul_assoc]
      have hpos : 0 < 128 ^ fuel * (last + 1) :=
        Nat.mul_pos (Nat.pow_pos (by decide)) last.succ_pos
      rw [decode] at h
      split_ifs at h with hb hbig
      · cases h
        omega
      · cases hhigh : decode last (fuel + 1) bs with
        | error fault =>
          rw [hhigh] at h
          cases h
        | ok p =>
          rw [hhigh] at h
          cases h
          have hbyte := b.toNat_lt
          have hlt := ih hhigh
          omega

theorem fold_unfold (n : Nat) : fold (unfold n) = n := by
  unfold fold unfold
  split <;> split <;> omega

theorem unfold_bounds {n : Nat} (h : n < 2 ^ 64) : -2 ^ 63 ≤ unfold n ∧ unfold n < 2 ^ 63 := by
  unfold unfold
  split <;> omega

/-- A folded number is written from the integer that it is read as. -/
theorem fold_toInt_ofInt {n : Nat} (h : n < 2 ^ 64) :
    fold (Int64.ofInt (unfold n)).toInt = n := by
  obtain ⟨hlow, hhigh⟩ := unfold_bounds h
  rw [Int64.toInt_ofInt_of_le hlow hhigh, fold_unfold]

end Varint

open Decoder

theorem noShorter_number : NoShorter number Varint.encode := Varint.decode_noShorter

theorem noShorter_variant : NoShorter variant Varint.encode := Varint.decode_noShorter

theorem lt_of_number {bs rest : List UInt8} {n : Nat} (h : number bs = .ok (n, rest)) :
    n < 2 ^ 64 := by
  have hlt := Varint.lt_of_decode h
  omega

/-! ## Texts and flags -/

theorem byte_eq_ok {bs rest : List UInt8} {b : UInt8} (h : byte bs = .ok (b, rest)) :
    bs = b :: rest := by
  cases bs with
  | nil => cases h
  | cons c bs =>
    cases h
    rfl

theorem bytes_eq_ok {n : Nat} {bs rest found : List UInt8} (h : bytes n bs = .ok (found, rest)) :
    found.length = n ∧ bs = found ++ rest := by
  simp only [bytes] at h
  split at h
  · cases h
  · next hshort =>
    cases h
    have hle := List.length_take_le n bs
    exact ⟨by omega, (List.take_append_drop n bs).symm⟩

theorem bytes_eq_of_fromUTF8? {bs : List UInt8} {s : String}
    (h : String.fromUTF8? ⟨bs.toArray⟩ = some s) : s.toUTF8.data.toList = bs := by
  unfold String.fromUTF8? at h
  split at h
  · cases h
    rfl
  · cases h

theorem noShorter_text : NoShorter text encodeText := by
  intro bs rest s h
  obtain ⟨n, mid, hn, hbody⟩ := run_bind_eq_ok.1 h
  obtain ⟨found, mid', hfound, hresult⟩ := run_bind_eq_ok.1 hbody
  obtain ⟨hlength, rfl⟩ := bytes_eq_ok hfound
  have hnumber := noShorter_number hn
  cases hvalid : String.fromUTF8? ⟨found.toArray⟩ with
  | none =>
    rw [hvalid] at hresult
    cases hresult
  | some t =>
    rw [hvalid] at hresult
    obtain ⟨rfl, rfl⟩ := run_pure_eq_ok.1 hresult
    have hbytes := bytes_eq_of_fromUTF8? hvalid
    have hsize : t.utf8ByteSize = n := by
      rw [← hlength, ← hbytes]
      rfl
    rw [List.length_append] at hnumber
    rw [encodeText, hbytes, hsize, List.length_append]
    omega

theorem noShorter_bool : NoShorter bool encodeBool := by
  intro bs rest b h
  obtain ⟨c, mid, hc, hbody⟩ := run_bind_eq_ok.1 h
  have hbyte := byte_eq_ok hc
  split at hbody
  · obtain ⟨rfl, rfl⟩ := run_pure_eq_ok.1 hbody
    simp [encodeBool, hbyte, Nat.add_comm]
  · obtain ⟨rfl, rfl⟩ := run_pure_eq_ok.1 hbody
    simp [encodeBool, hbyte, Nat.add_comm]
  · cases hbody

theorem noShorter_option {α : Type} {d : Decoder α} {encode : α → List UInt8}
    (hd : NoShorter d encode) : NoShorter (option d) (encodeOption encode) := by
  intro bs rest a h
  obtain ⟨c, mid, hc, hbody⟩ := run_bind_eq_ok.1 h
  have hbyte := byte_eq_ok hc
  split at hbody
  · obtain ⟨rfl, rfl⟩ := run_pure_eq_ok.1 hbody
    simp [encodeOption, hbyte, Nat.add_comm]
  · obtain ⟨x, hx, rfl⟩ := run_return_eq_ok.1 hbody
    have hlength := hd hx
    rw [hbyte, encodeOption, List.length_cons, List.length_cons]
    omega
  · cases hbody

/-! ## Lists and tables -/

theorem items_eq_ok {α : Type} {d : Decoder α} {encode : α → List UInt8} (hd : NoShorter d encode)
    {n : Nat} {found xs : List α} {bs rest : List UInt8}
    (h : items d found n bs = .ok (xs, rest)) : ∃ ys, xs = found.reverse ++ ys ∧ ys.length = n ∧
      (ys.flatMap encode).length + rest.length ≤ bs.length := by
  induction n generalizing found bs with
  | zero =>
    obtain ⟨rfl, rfl⟩ := run_pure_eq_ok.1 h
    exact ⟨[], by simp, rfl, by simp⟩
  | succ n ih =>
    obtain ⟨x, mid, hx, h⟩ := run_bind_eq_ok.1 h
    obtain ⟨ys, rfl, hcount, hlength⟩ := ih h
    have hitem := hd hx
    refine ⟨x :: ys, by simp, by rw [List.length_cons, hcount], ?_⟩
    rw [List.flatMap_cons, List.length_append]
    omega

theorem noShorter_list {α : Type} {d : Decoder α} {encode : α → List UInt8}
    (hd : NoShorter d encode) : NoShorter (list d) (encodeList encode) := by
  intro bs rest xs h
  obtain ⟨n, mid, hn, hitems⟩ := run_bind_eq_ok.1 h
  obtain ⟨_, rfl, rfl, hlength⟩ := items_eq_ok hd hitems
  have hnumber := noShorter_number hn
  rw [encodeList, List.length_append]
  omega

theorem length_encodeWord (w : UInt64) : (encodeWord w).length = 8 := by simp [encodeWord]

theorem noShorter_word : NoShorter word encodeWord := by
  intro bs rest w h
  obtain ⟨found, hfound, rfl⟩ := run_return_eq_ok.1 h
  obtain ⟨hlength, rfl⟩ := bytes_eq_ok hfound
  rw [length_encodeWord, List.length_append]
  omega

/-! ## Entities, attributes and entries -/

theorem noShorter_atom : NoShorter atom Atom.encode := by
  intro bs rest a h
  obtain ⟨root, bs', hroot, h⟩ := run_bind_eq_ok.1 h
  obtain ⟨kind, bs'', hkind, h⟩ := run_bind_eq_ok.1 h
  obtain ⟨scope, hscope, rfl⟩ := run_return_eq_ok.1 h
  have hroot := noShorter_text hroot
  have hkind := noShorter_option noShorter_text hkind
  have hscope := noShorter_option noShorter_text hscope
  simp only [Atom.encode, List.length_append]
  omega

theorem noShorter_entity (levels : Nat) : NoShorter (entity levels) Entity.encode := by
  induction levels with
  | zero =>
    intro bs rest e h
    cases h
  | succ levels ih =>
    intro bs rest e h
    obtain ⟨n, mid, hn, h⟩ := run_bind_eq_ok.1 h
    have hvariant := noShorter_variant hn
    split at h
    · obtain ⟨a, ha, rfl⟩ := run_return_eq_ok.1 h
      have hatom := noShorter_atom ha
      rw [Entity.encode, List.length_append]
      omega
    · obtain ⟨cs, hcs, rfl⟩ := run_return_eq_ok.1 h
      have hchildren := noShorter_list ih hcs
      rw [encode_edge, List.length_append]
      omega
    · cases h

theorem noShorter_value : NoShorter value Value.encode := by
  intro bs rest v h
  obtain ⟨n, mid, hn, h⟩ := run_bind_eq_ok.1 h
  have hvariant := noShorter_variant hn
  split at h
  · obtain ⟨s, hs, rfl⟩ := run_return_eq_ok.1 h
    have htext := noShorter_text hs
    rw [Value.encode, List.length_append]
    omega
  · obtain ⟨m, hm, rfl⟩ := run_return_eq_ok.1 h
    have hnumber := noShorter_number hm
    rw [Value.encode, Varint.fold_toInt_ofInt (lt_of_number hm), List.length_append]
    omega
  · obtain ⟨w, hw, rfl⟩ := run_return_eq_ok.1 h
    have hword := noShorter_word hw
    simp only [Value.encode, List.length_append]
    omega
  · cases h

theorem noShorter_namedValue : NoShorter namedValue encodeAttribute := by
  intro bs rest a h
  obtain ⟨name, mid, hname, h⟩ := run_bind_eq_ok.1 h
  obtain ⟨v, hv, rfl⟩ := run_return_eq_ok.1 h
  have hname := noShorter_text hname
  have hvalue := noShorter_value hv
  simp only [encodeAttribute, List.length_append]
  omega

/-- Of the rows put into a table one for each name is left at most. -/
theorem toList_foldl_insert_subperm (rows : List (String × Value)) :
    (rows.foldl (fun all a => all.insert a.1 a.2) (∅ : Attributes)).toList.Subperm rows := by
  have hrow : ∀ (all : Attributes) (name : String) (v : Value),
      (rows.foldl (fun all a => all.insert a.1 a.2) all)[name]? = some v →
        (name, v) ∈ rows ∨ all[name]? = some v := by
    intro all name v h
    induction rows generalizing all with
    | nil => exact .inr h
    | cons row rows ih =>
      rcases ih _ h with hmem | hinsert
      · exact .inl (List.mem_cons_of_mem row hmem)
      · rw [Std.ExtTreeMap.getElem?_insert] at hinsert
        split at hinsert
        · next heq =>
          have hname := Std.LawfulEqOrd.eq_of_compare heq
          cases hinsert
          exact .inl (by simp [← hname])
        · exact .inr hinsert
  apply List.Nodup.subperm
  · have hkeys : ((rows.foldl (fun all a => all.insert a.1 a.2) (∅ : Attributes)).toList.map
        Prod.fst).Nodup := by
      rw [Std.ExtTreeMap.map_fst_toList_eq_keys]
      exact (ascending_keys _).nodup
    exact hkeys.of_map
  · intro row h
    rcases hrow ∅ row.1 row.2 (getElem?_of_mem_toList h) with hmem | hnone
    · exact hmem
    · rw [Std.ExtTreeMap.getElem?_empty] at hnone
      cases hnone

/-- A number is not written shorter than a smaller one. -/
theorem Varint.length_encode_mono {m n : Nat} (h : m ≤ n) :
    (encode m).length ≤ (encode n).length := by
  induction n using Nat.strongRecOn generalizing m with
  | ind n ih =>
    rcases Nat.lt_or_ge m 128 with hm | hm
    · rw [encode_of_lt hm]
      exact List.length_pos_of_ne_nil (encode_ne_nil n)
    · rw [encode_of_le hm, encode_of_le (Nat.le_trans hm h)]
      have hhigh := ih (n / 128) (by omega) (Nat.div_le_div_right (c := 128) h)
      simp only [List.length_cons]
      omega

/-- Fewer items, in whatever order, are not written longer. -/
theorem length_encodeList_le {α : Type} (encode : α → List UInt8) {xs ys : List α}
    (h : xs.Subperm ys) : (encodeList encode xs).length ≤ (encodeList encode ys).length := by
  have hcount := Varint.length_encode_mono h.length_le
  obtain ⟨zs, hperm, hsub⟩ := h
  have hlength := (hperm.flatMap_right encode).length_eq
  have hitems := (hsub.flatMap encode).length_le
  rw [encodeList, encodeList, List.length_append, List.length_append]
  omega

theorem length_of_attributes {bs rest : List UInt8} {all : Attributes}
    (h : attributes bs = .ok (all, rest)) :
    (encodeList encodeAttribute all.toList).length + rest.length ≤ bs.length := by
  obtain ⟨rows, hrows, rfl⟩ := run_return_eq_ok.1 h
  have hlist := noShorter_list noShorter_namedValue hrows
  have hmerged := length_encodeList_le encodeAttribute (toList_foldl_insert_subperm rows)
  exact Nat.le_trans (Nat.add_le_add_right hmerged _) hlist

theorem noShorter_entry (levels : Nat) : NoShorter (entry levels) Entry.encode := by
  intro bs rest e h
  obtain ⟨entity, bs', hentity, h⟩ := run_bind_eq_ok.1 h
  obtain ⟨isPrimary, bs'', hmark, h⟩ := run_bind_eq_ok.1 h
  obtain ⟨all, hall, rfl⟩ := run_return_eq_ok.1 h
  have hentity := noShorter_entity levels hentity
  have hmark := noShorter_bool hmark
  have hall := length_of_attributes hall
  simp only [Entry.encode, List.length_append]
  omega

theorem noShorter_snapshotWithin (levels : Nat) :
    NoShorter (snapshotWithin levels) Snapshot.encode := by
  intro bs rest s h
  obtain ⟨name, bs', hname, h⟩ := run_bind_eq_ok.1 h
  obtain ⟨checksum, bs'', hsum, h⟩ := run_bind_eq_ok.1 h
  obtain ⟨entries, hentries, rfl⟩ := run_return_eq_ok.1 h
  have hword : (UInt64.ofNat checksum).toNat = checksum := by
    rw [UInt64.toNat_ofNat', Nat.mod_eq_of_lt (lt_of_number hsum)]
  have hname := noShorter_text hname
  have hsum := noShorter_number hsum
  have hentries := noShorter_list (noShorter_entry levels) hentries
  simp only [Snapshot.encode, encodeEntries, hword, List.length_append]
  omega

theorem noShorter_snapshot : NoShorter snapshot Snapshot.encode :=
  fun h => noShorter_snapshotWithin _ h

/-! ## Files -/

theorem ofPayload_eq_ok {bs : List UInt8} {s : Snapshot} (h : ofPayload bs = .ok s) :
    ∃ rest, snapshot bs = .ok (s, rest) := by
  unfold ofPayload at h
  split at h
  · next t rest hread =>
    cases h
    exact ⟨rest, hread⟩
  · cases h

/-- A file that is read has a length that is read, and all of it has been checked. -/
theorem ofBytes_eq_ok {bs : List UInt8} {s : Snapshot} (h : ofBytes bs = .ok s) :
    headerLength ≤ bs.length ∧ bs.length ≤ maxFileSize ∧ s.checksum = checksumOf s.entries ∧
      ∃ rest, snapshot (bs.drop headerLength) = .ok (s, rest) := by
  by_cases hshort : bs.length < headerLength
  · simp only [ofBytes, if_pos hshort] at h
    cases h
  by_cases hlong : maxFileSize < bs.length
  · simp only [ofBytes, if_neg hshort, if_pos hlong] at h
    cases h
  simp only [ofBytes, if_neg hshort, if_neg hlong] at h
  obtain ⟨header, _, h⟩ := bind_eq_ok.1 h
  obtain ⟨_, _, h⟩ := bind_eq_ok.1 h
  obtain ⟨t, hpayload, h⟩ := bind_eq_ok.1 h
  obtain ⟨_, hverify, h⟩ := bind_eq_ok.1 h
  cases h
  exact ⟨Nat.not_lt.1 hshort, Nat.not_lt.1 hlong, verify_eq_ok.1 hverify, ofPayload_eq_ok hpayload⟩

theorem length_toBytes (s : Snapshot) : s.toBytes.length = headerLength + s.encode.length := by
  rw [toBytes, List.length_append]
  rfl

/-- What was read is written to no more bytes than it was read from. -/
theorem length_toBytes_le {bs : List UInt8} {s : Snapshot} (h : ofBytes bs = .ok s) :
    s.toBytes.length ≤ bs.length := by
  obtain ⟨hshort, -, -, rest, hread⟩ := ofBytes_eq_ok h
  have hlength := noShorter_snapshot hread
  rw [List.length_drop] at hlength
  rw [length_toBytes]
  omega

/-- A snapshot that is written to a file of a length that is read is read back from it if its checksum
holds, and is refused otherwise. What is read from a file, in whatever way it was spelled, is written to
no more bytes and is read back from these. -/
theorem file_round_trip :
    (∀ s : Snapshot, s.toBytes.length ≤ maxFileSize →
      (s.checksum = checksumOf s.entries → ofBytes s.toBytes = .ok s) ∧
      (s.checksum ≠ checksumOf s.entries →
        ∃ message, ofBytes s.toBytes = .error (.serialization message))) ∧
    ∀ (bs : List UInt8) (s : Snapshot), ofBytes bs = .ok s →
      s.toBytes.length ≤ bs.length ∧ ofBytes s.toBytes = .ok s := by
  refine ⟨fun s hsize => ⟨fun hsum => ?_, fun hsum => ?_⟩, fun bs s h => ?_⟩
  · exact ofBytes_toBytes hsum hsize
  · exact ofBytes_toBytes_of_checksum_ne hsum hsize
  · have hle := length_toBytes_le h
    obtain ⟨-, hlong, hsum, -⟩ := ofBytes_eq_ok h
    exact ⟨hle, ofBytes_toBytes hsum (Nat.le_trans hle hlong)⟩

/-- A file with a longer length of the name, an attribute given twice and a byte too many is read; the
same snapshot with another checksum is not. -/
theorem file_round_trip_respelled :
    let entry : Entry :=
      { entity := .atom { root := "a" }, isPrimary := true,
        attributes := (∅ : Attributes).insert "k" (.int 2) }
    let s : Snapshot := { name := "", checksum := 148058740086074253, entries := [entry] }
    let bs : List UInt8 := [83, 77, 72, 71, 1, 128, 0, 141, 215, 227, 133, 188, 212, 128, 135, 2,
      1, 0, 1, 97, 0, 0, 1, 2, 1, 107, 1, 2, 1, 107, 1, 4, 99]
    ofBytes bs = .ok s ∧ s.toBytes.length ≤ bs.length ∧ ofBytes s.toBytes = .ok s ∧
      ∃ message, ofBytes { s with checksum := 0 }.toBytes = .error (.serialization message) := by
  intro entry s bs
  have hread : ofBytes bs = .ok s := by cbv
  obtain ⟨hle, -⟩ := file_round_trip.2 bs s hread
  have hsum : s.checksum = checksumOf s.entries := by decide +kernel
  have hsize : s.toBytes.length ≤ maxFileSize := Nat.le_trans hle (by decide)
  have hother : { s with checksum := 0 }.toBytes.length ≤ maxFileSize := by decide +kernel
  have hwrong : { s with checksum := 0 }.checksum ≠ checksumOf s.entries := by decide +kernel
  exact ⟨hread, hle, (file_round_trip.1 s hsize).1 hsum, (file_round_trip.1 _ hother).2 hwrong⟩

end SemanticHypergraph.Snapshot
