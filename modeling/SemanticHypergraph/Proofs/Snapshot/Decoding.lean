import Mathlib
import SemanticHypergraph.Proofs.Store.Table
import SemanticHypergraph.Snapshot.File

/-!
# Reading undoes writing

Whatever follows it, what is written is read as what it was written from, as long as it is shorter
than the counts that can be read. So a snapshot whose checksum holds is read back from its file.
-/
namespace SemanticHypergraph.Snapshot

namespace Decoder

variable {α β : Type}

/-- The decoder takes these bytes, whatever follows them, and makes them the value. -/
def Reads (d : Decoder α) (bs : List UInt8) (a : α) : Prop := ∀ rest, d (bs ++ rest) = .ok (a, rest)

theorem Reads.pure (a : α) : Reads (pure a) [] a := fun _ => rfl

theorem Reads.bind {d : Decoder α} {f : α → Decoder β} {xs ys : List UInt8} {a : α} {b : β}
    (hd : Reads d xs a) (hf : Reads (f a) ys b) : Reads (d >>= f) (xs ++ ys) b := by
  intro rest
  change Except.bind (d (xs ++ ys ++ rest)) (fun p => f p.1 p.2) = _
  rw [List.append_assoc, hd]
  exact hf rest

theorem Reads.map {d : Decoder α} {xs : List UInt8} {a : α} (hd : Reads d xs a) (f : α → β) :
    Reads (do return f (← d)) xs (f a) := by
  have hbind : Reads (do return f (← d)) (xs ++ []) (f a) := hd.bind (Reads.pure (f a))
  rwa [List.append_nil] at hbind

end Decoder

namespace Varint

/-- A number is read back if its digits to the base 128 fit: `fuel` of them and a last one. -/
theorem decode_encode {last : Nat} (hlast : last < 128) (fuel : Nat) {n : Nat}
    (h : n < 128 ^ fuel * (last + 1)) (rest : List UInt8) :
    decode last (fuel + 1) (encode n ++ rest) = .ok (n, rest) := by
  -- Induction on the digits before the last one; each step takes off the lowest.
  induction fuel generalizing n with
  | zero =>
    have hn : n ≤ last := by omega
    have hbyte : (UInt8.ofNat n).toNat = n := by
      rw [UInt8.toNat_ofNat']
      omega
    rw [encode, if_pos (by omega), List.singleton_append, decode, hbyte, if_pos (by omega),
      if_neg (by omega)]
  | succ fuel ih =>
    rcases Nat.lt_or_ge n 128 with hn | hn
    · have hbyte : (UInt8.ofNat n).toNat = n := by
        rw [UInt8.toNat_ofNat']
        omega
      rw [encode, if_pos hn, List.singleton_append, decode, hbyte, if_pos hn, if_neg (by omega)]
    · have hbyte : (UInt8.ofNat (n % 128 + 128)).toNat = n % 128 + 128 := by
        rw [UInt8.toNat_ofNat']
        omega
      have hhigh : n / 128 < 128 ^ fuel * (last + 1) := by
        apply Nat.div_lt_of_lt_mul
        rw [← Nat.mul_assoc, ← Nat.pow_succ']
        exact h
      rw [encode, if_neg (by omega), List.cons_append, decode, hbyte, if_neg (by omega), ih hhigh]
      have hdigits : n % 128 + 128 - 128 + 128 * (n / 128) = n := by omega
      simp only [hdigits]

theorem fold_lt (n : Int64) : fold n.toInt < 2 ^ 64 := by
  have hlow := n.le_toInt
  have hhigh := n.toInt_lt
  unfold fold
  split <;> omega

end Varint

open Decoder

theorem reads_number {n : Nat} (h : n < 2 ^ 64) : Reads number (Varint.encode n) n :=
  Varint.decode_encode (by decide) 9 (by omega)

theorem reads_variant {n : Nat} (h : n < 2 ^ 32) : Reads variant (Varint.encode n) n :=
  Varint.decode_encode (by decide) 4 (by omega)

theorem reads_bytes (bs : List UInt8) : Reads (bytes bs.length) bs bs := by
  intro rest
  simp [bytes]

theorem reads_byte (b : UInt8) : Reads byte [b] b := fun _ => rfl

theorem fromUTF8?_toUTF8 (s : String) :
    String.fromUTF8? ⟨s.toUTF8.data.toList.toArray⟩ = some s :=
  dif_pos s.isValidUTF8

theorem reads_text {s : String} (h : (encodeText s).length < 2 ^ 64) :
    Reads text (encodeText s) s := by
  have hlength : s.toUTF8.data.toList.length = s.utf8ByteSize := rfl
  have hsize : s.utf8ByteSize < 2 ^ 64 := by
    rw [encodeText, List.length_append, hlength] at h
    omega
  have hbytes := reads_bytes s.toUTF8.data.toList
  rw [hlength] at hbytes
  rw [encodeText, ← List.append_nil s.toUTF8.data.toList]
  refine (reads_number hsize).bind (hbytes.bind ?_)
  rw [fromUTF8?_toUTF8]
  exact .pure s

theorem reads_bool (b : Bool) : Reads bool (encodeBool b) b := by
  cases b <;> intro rest <;> rfl

theorem reads_option {α : Type} {d : Decoder α} {encode : α → List UInt8} {a : Option α}
    (h : ∀ x ∈ a, Reads d (encode x) x) : Reads (option d) (encodeOption encode a) a := by
  cases a with
  | none => exact fun rest => rfl
  | some x =>
    have hx := (h x rfl).map some
    exact (reads_byte 1).bind hx

theorem reads_items {α : Type} {d : Decoder α} {encode : α → List UInt8} {xs : List α}
    (h : ∀ x ∈ xs, Reads d (encode x) x) (found : List α) :
    Reads (items d found xs.length) (xs.flatMap encode) (found.reverse ++ xs) := by
  induction xs generalizing found with
  | nil =>
    rw [List.append_nil]
    exact .pure found.reverse
  | cons x xs ih =>
    have hx := h x List.mem_cons_self
    have hxs := ih (fun y hy => h y (List.mem_cons_of_mem x hy)) (x :: found)
    rw [List.reverse_cons, List.append_assoc] at hxs
    exact hx.bind hxs

theorem length_le_flatMap {α β : Type} {f : α → List β} {x : α} {xs : List α} (h : x ∈ xs) :
    (f x).length ≤ (xs.flatMap f).length := by
  obtain ⟨before, after, rfl⟩ := List.append_of_mem h
  simp only [List.flatMap_append, List.flatMap_cons, List.length_append]
  omega

theorem count_le_flatMap {α β : Type} {f : α → List β} (h : ∀ x, f x ≠ []) (xs : List α) :
    xs.length ≤ (xs.flatMap f).length := by
  induction xs with
  | nil => exact Nat.le_refl 0
  | cons x xs ih =>
    have hpos := List.length_pos_of_ne_nil (h x)
    simp only [List.flatMap_cons, List.length_append, List.length_cons]
    omega

/-- Every item takes a byte at least, so that a list that is short enough has few enough items. -/
theorem reads_list {α : Type} {d : Decoder α} {encode : α → List UInt8} {xs : List α}
    (hne : ∀ x, encode x ≠ []) (hsize : (encodeList encode xs).length < 2 ^ 64)
    (h : ∀ x ∈ xs, (encode x).length < 2 ^ 64 → Reads d (encode x) x) :
    Reads (list d) (encodeList encode xs) xs := by
  rw [encodeList, List.length_append] at hsize
  have hcount := count_le_flatMap hne xs
  have hitems : ∀ x ∈ xs, Reads d (encode x) x := by
    intro x hx
    have hlength := length_le_flatMap (f := encode) hx
    exact h x hx (by omega)
  exact (reads_number (by omega)).bind (reads_items hitems [])

theorem encodeText_ne_nil (s : String) : encodeText s ≠ [] := by
  have hne := Varint.encode_ne_nil s.utf8ByteSize
  simp [encodeText, hne]

theorem reads_atom {a : Atom} (h : a.encode.length < 2 ^ 64) : Reads atom a.encode a := by
  unfold Atom.encode at h ⊢
  simp only [List.length_append] at h
  have hroot : Reads text (encodeText a.root) a.root := reads_text (by omega)
  have hkind : Reads (option text) (encodeOption encodeText a.kind) a.kind := by
    refine reads_option fun k hk => reads_text ?_
    rw [Option.mem_def.1 hk, encodeOption, List.length_cons] at h
    omega
  have hscope : Reads (option text) (encodeOption encodeText a.scope) a.scope := by
    refine reads_option fun n hn => reads_text ?_
    rw [Option.mem_def.1 hn, encodeOption, List.length_cons] at h
    omega
  rw [List.append_assoc]
  exact hroot.bind (hkind.bind (hscope.map _))

theorem encodeAll_eq_flatMap (es : List Entity) : Entity.encodeAll es = es.flatMap Entity.encode := by
  induction es with
  | nil => rfl
  | cons e es ih => rw [Entity.encodeAll, ih, List.flatMap_cons]

theorem encode_edge (cs : List Entity) :
    Entity.encode (.edge cs) = Varint.encode 1 ++ encodeList Entity.encode cs := by
  rw [Entity.encode, encodeAll_eq_flatMap, encodeList, List.append_assoc]

theorem encodeEntity_ne_nil (e : Entity) : e.encode ≠ [] := by
  cases e <;> simp [Entity.encode, Varint.encode_ne_nil]

mutual

/-- Every level of an entity takes a byte at least. -/
theorem depth_le_length_encode : (e : Entity) → e.depth ≤ e.encode.length
  | .atom a => Nat.zero_le _
  | .edge cs => by
    have hpos := List.length_pos_of_ne_nil (Varint.encode_ne_nil 1)
    have hdepth := Entity.depth_edge_le.2 (depth_le_length_encodeAll cs)
    rw [Entity.encode, List.length_append, List.length_append]
    omega

theorem depth_le_length_encodeAll : (es : List Entity) →
    ∀ e ∈ es, e.depth ≤ (Entity.encodeAll es).length
  | [] => by simp
  | d :: es => by
    have hd := depth_le_length_encode d
    have hes := depth_le_length_encodeAll es
    intro e he
    rw [Entity.encodeAll, List.length_append]
    rcases List.mem_cons.1 he with rfl | he
    · omega
    · have hle := hes e he
      omega

end

theorem reads_entity {levels : Nat} {e : Entity} (hdepth : e.depth < levels)
    (hsize : e.encode.length < 2 ^ 64) : Reads (entity levels) e.encode e := by
  -- Induction on the levels, of which every edge uses up one.
  induction levels generalizing e with
  | zero => omega
  | succ levels ih =>
    cases e with
    | atom a =>
      rw [Entity.encode, List.length_append] at hsize
      have hatom : Reads atom a.encode a := reads_atom (by omega)
      exact (reads_variant (by decide)).bind (hatom.map _)
    | edge cs =>
      rw [encode_edge, List.length_append] at hsize
      have hchildren : Reads (list (entity levels)) (encodeList Entity.encode cs) cs := by
        apply reads_list encodeEntity_ne_nil (by omega)
        intro c hc hlength
        have hlevels : Entity.depth (.edge cs) ≤ levels - 1 + 1 := by
          have hpos : 0 < Entity.depth (.edge cs) := Nat.succ_pos _
          omega
        have hchild := Entity.depth_edge_le.1 hlevels c hc
        have hpos : 0 < Entity.depth (.edge cs) := Nat.succ_pos _
        exact ih (by omega) hlength
      rw [encode_edge]
      exact (reads_variant (by decide)).bind (hchildren.map _)

/-- The bytes of a word are its digits to the base 256. -/
theorem foldr_digits (n count : Nat) :
    ((List.range count).map fun i => UInt8.ofNat (n / 256 ^ i)).foldr
      (fun b m => b.toNat + 256 * m) 0 = n % 256 ^ count := by
  induction count generalizing n with
  | zero => simp [Nat.mod_one]
  | succ count ih =>
    have htail : (List.range count).map (fun i => UInt8.ofNat (n / 256 ^ (i + 1))) =
        (List.range count).map fun i => UInt8.ofNat (n / 256 / 256 ^ i) := by
      apply List.map_congr_left
      intro i _
      rw [Nat.pow_succ', Nat.div_div_eq_div_mul]
    have hlow : (UInt8.ofNat (n / 256 ^ 0)).toNat = n % 256 := by
      rw [Nat.pow_zero, Nat.div_one]
      exact UInt8.toNat_ofNat'
    have hsplit : n % 256 ^ (count + 1) = n % 256 + 256 * (n / 256 % 256 ^ count) := by
      rw [Nat.pow_succ', Nat.mod_mul]
    rw [List.range_succ_eq_map, List.map_cons, List.map_map, List.foldr_cons, hlow, hsplit]
    simp only [Function.comp_def, Nat.succ_eq_add_one, htail, ih]

theorem reads_word (w : UInt64) : Reads word (encodeWord w) w := by
  have hlength : (encodeWord w).length = 8 := by simp [encodeWord]
  have hbytes := reads_bytes (encodeWord w)
  rw [hlength] at hbytes
  have hvalue : UInt64.ofNat ((encodeWord w).foldr (fun b n => b.toNat + 256 * n) 0) = w := by
    have hlt : w.toNat < 256 ^ 8 := Nat.lt_of_lt_of_eq w.toNat_lt (by decide)
    have hdigits := foldr_digits w.toNat 8
    rw [Nat.mod_eq_of_lt hlt] at hdigits
    exact (congrArg UInt64.ofNat hdigits).trans UInt64.ofNat_toNat
  have hword := hbytes.map fun bs => UInt64.ofNat (bs.foldr (fun b n => b.toNat + 256 * n) 0)
  rwa [hvalue] at hword

theorem reads_value {v : Value} (h : v.encode.length < 2 ^ 64) : Reads value v.encode v := by
  cases v with
  | text s =>
    rw [Value.encode, List.length_append] at h
    have htext : Reads text (encodeText s) s := reads_text (by omega)
    exact (reads_variant (by decide)).bind (htext.map _)
  | int n =>
    have hnumber := (reads_number (Varint.fold_lt n)).map
      fun m => Value.int (Int64.ofInt (Varint.unfold m))
    rw [Varint.unfold_fold, Int64.ofInt_toInt] at hnumber
    exact (reads_variant (by decide)).bind hnumber
  | float x => exact (reads_variant (by decide)).bind ((reads_word x.bits).map _)

theorem reads_namedValue {a : String × Value} (h : (encodeAttribute a).length < 2 ^ 64) :
    Reads namedValue (encodeAttribute a) a := by
  rw [encodeAttribute, List.length_append] at h
  have hname : Reads text (encodeText a.1) a.1 := reads_text (by omega)
  have hvalue : Reads value a.2.encode a.2 := reads_value (by omega)
  exact hname.bind (hvalue.map _)

theorem encodeAttribute_ne_nil (a : String × Value) : encodeAttribute a ≠ [] := by
  simp [encodeAttribute, encodeText_ne_nil]

theorem reads_attributes {all : Attributes}
    (h : (encodeList encodeAttribute all.toList).length < 2 ^ 64) :
    Reads attributes (encodeList encodeAttribute all.toList) all := by
  have hlist : Reads (list namedValue) (encodeList encodeAttribute all.toList) all.toList :=
    reads_list encodeAttribute_ne_nil h fun a _ => reads_namedValue
  have hall := hlist.map fun rows => rows.foldl (fun all a => all.insert a.1 a.2) (∅ : Attributes)
  rwa [foldl_insert_toList, empty_union] at hall

theorem reads_entry {levels : Nat} {e : Entry} (hdepth : e.entity.depth < levels)
    (h : e.encode.length < 2 ^ 64) : Reads (entry levels) e.encode e := by
  rw [Entry.encode, List.length_append, List.length_append] at h
  have hentity : Reads (entity levels) e.entity.encode e.entity := reads_entity hdepth (by omega)
  have hattributes : Reads attributes _ e.attributes := reads_attributes (by omega)
  rw [Entry.encode, List.append_assoc]
  exact hentity.bind ((reads_bool e.isPrimary).bind (hattributes.map _))

theorem encodeEntry_ne_nil (e : Entry) : e.encode ≠ [] := by
  simp [Entry.encode, encodeEntity_ne_nil]

theorem reads_snapshotWithin {levels : Nat} {s : Snapshot}
    (hdepth : ∀ e ∈ s.entries, e.entity.depth < levels) (h : s.encode.length < 2 ^ 64) :
    Reads (snapshotWithin levels) s.encode s := by
  rw [encode, encodeEntries, List.length_append, List.length_append] at h
  have hname : Reads text (encodeText s.name) s.name := reads_text (by omega)
  have hentries : Reads (list (entry levels)) (encodeList Entry.encode s.entries) s.entries :=
    reads_list encodeEntry_ne_nil (by omega) fun e he => reads_entry (hdepth e he)
  have hsnapshot : Reads (snapshotWithin levels)
      (encodeText s.name ++ (Varint.encode s.checksum.toNat ++ encodeList Entry.encode s.entries))
      ⟨s.name, UInt64.ofNat s.checksum.toNat, s.entries⟩ :=
    hname.bind ((reads_number s.checksum.toNat_lt).bind (hentries.map _))
  rw [UInt64.ofNat_toNat] at hsnapshot
  rw [encode, encodeEntries, List.append_assoc]
  exact hsnapshot

/-- The bytes at hand are enough levels for every entity among them. -/
theorem depth_le_length_snapshot {s : Snapshot} {e : Entry} (h : e ∈ s.entries) :
    e.entity.depth ≤ s.encode.length := by
  have hentity := depth_le_length_encode e.entity
  have hentry : e.entity.encode.length ≤ e.encode.length := by
    rw [Entry.encode, List.length_append, List.length_append]
    omega
  have hentries := length_le_flatMap (f := Entry.encode) h
  rw [encode, encodeEntries, encodeList, List.length_append, List.length_append,
    List.length_append]
  omega

theorem reads_snapshot {s : Snapshot} (h : s.encode.length < 2 ^ 64) :
    Reads snapshot s.encode s := by
  intro rest
  apply reads_snapshotWithin _ h
  intro e he
  have hdepth := depth_le_length_snapshot he
  rw [List.length_append]
  omega

/-- A file that is not too long to be read is read back as what it was written from, if that is found to
be right. -/
theorem ofBytes_toBytes_eq_verify {s : Snapshot} (hsize : s.toBytes.length ≤ maxFileSize) :
    ofBytes s.toBytes = s.verify.map fun _ => s := by
  have hbytes : s.toBytes = 0x53 :: 0x4D :: 0x48 :: 0x47 :: 1 :: s.encode := rfl
  have hlong : ¬ maxFileSize < s.toBytes.length := Nat.not_lt.2 hsize
  have hshort : ¬ s.toBytes.length < headerLength := by
    rw [hbytes]
    simp [headerLength]
  have hlength : s.encode.length < 2 ^ 64 := by
    simp only [hbytes, List.length_cons, maxFileSize] at hsize
    omega
  have hpayload : ofPayload (s.toBytes.drop headerLength) = .ok s := by
    have hread := reads_snapshot hlength []
    rw [List.append_nil] at hread
    rw [hbytes, headerLength, List.drop_succ_cons, List.drop_succ_cons, List.drop_succ_cons,
      List.drop_succ_cons, List.drop_succ_cons, List.drop_zero, ofPayload, hread]
  have hheader : Header.ofBytes s.toBytes = .ok Header.current := rfl
  have hvalidate : Header.current.validate = .ok () := rfl
  simp only [ofBytes, if_neg hshort, if_neg hlong, hheader, hpayload, bind, Except.bind, hvalidate]
  cases s.verify <;> rfl

theorem verify_eq_ok {s : Snapshot} : s.verify = .ok () ↔ s.checksum = checksumOf s.entries := by
  simp only [verify]
  split
  · next heq => simp [heq]
  · next hne => simp [Ne.symm hne]

/-- A file of a snapshot whose checksum holds is read back, if it is not too long to be read. -/
theorem ofBytes_toBytes {s : Snapshot} (hsum : s.checksum = checksumOf s.entries)
    (hsize : s.toBytes.length ≤ maxFileSize) : ofBytes s.toBytes = .ok s := by
  rw [ofBytes_toBytes_eq_verify hsize, verify_eq_ok.2 hsum]
  rfl

theorem ofBytes_of_eq_toBytes {bs : List UInt8} {s : Snapshot} (hbs : bs = s.toBytes)
    (hsum : s.checksum = checksumOf s.entries) (hsize : bs.length ≤ maxFileSize) :
    ofBytes bs = .ok s := by
  subst hbs
  exact ofBytes_toBytes hsum hsize

theorem ofBytes_toBytes_of_checksum_ne {s : Snapshot} (hsum : s.checksum ≠ checksumOf s.entries)
    (hsize : s.toBytes.length ≤ maxFileSize) :
    ∃ message, ofBytes s.toBytes = .error (.serialization message) := by
  have hverify : ∃ message, s.verify = .error (.serialization message) := ⟨_, if_neg (Ne.symm hsum)⟩
  obtain ⟨message, hmessage⟩ := hverify
  rw [ofBytes_toBytes_eq_verify hsize, hmessage]
  exact ⟨message, rfl⟩

end SemanticHypergraph.Snapshot
