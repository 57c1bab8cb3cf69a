import SemanticHypergraph.Proofs.Snapshot.Shortest

/-!
# The checksum tells apart what differs in one byte

Each step of the checksum keeps hashes apart that were apart, since a byte is added to the hash by
`xor` and the factor is odd, and it takes different bytes to different hashes. So a change of a single
byte is still to be seen when the last byte is through.
-/
namespace SemanticHypergraph.Snapshot

/-! ## Lists that differ in one byte -/

/-- The lists are equally long and differ at exactly one place. -/
def OneByteApart (xs ys : List UInt8) : Prop :=
  xs.length = ys.length ∧ (xs.zip ys).countP (fun p => p.1 ≠ p.2) = 1

instance (xs ys : List UInt8) : Decidable (OneByteApart xs ys) := inferInstanceAs (Decidable (_ ∧ _))

theorem countP_ne_self (xs : List UInt8) : (xs.zip xs).countP (fun p => p.1 ≠ p.2) = 0 := by
  induction xs with
  | nil => rfl
  | cons b xs ih => simpa using ih

theorem eq_of_countP_ne_eq_zero {xs ys : List UInt8} (hlength : xs.length = ys.length)
    (h : (xs.zip ys).countP (fun p => p.1 ≠ p.2) = 0) : xs = ys := by
  have hall : ∀ p ∈ xs.zip ys, p.1 = p.2 := fun p hp => by
    simpa using List.countP_eq_zero.1 h p hp
  calc
    xs = (xs.zip ys).map Prod.fst := (List.map_fst_zip (by omega)).symm
    _ = (xs.zip ys).map Prod.snd := List.map_congr_left hall
    _ = ys := List.map_snd_zip (by omega)

theorem oneByteApart_append_cons {b c : UInt8} (hne : b ≠ c) (before after : List UInt8) :
    OneByteApart (before ++ b :: after) (before ++ c :: after) := by
  refine ⟨by simp, ?_⟩
  rw [List.zip_append rfl, List.countP_append, countP_ne_self, List.zip_cons_cons,
    List.countP_cons_of_pos (by simpa using hne), countP_ne_self]

theorem OneByteApart.exists_eq_append {xs ys : List UInt8} (h : OneByteApart xs ys) :
    ∃ before b c after, b ≠ c ∧ xs = before ++ b :: after ∧ ys = before ++ c :: after := by
  obtain ⟨hlength, hcount⟩ := h
  induction xs generalizing ys with
  | nil => simp at hcount
  | cons b xs ih =>
    obtain ⟨c, ys, rfl⟩ := List.exists_cons_of_length_eq_add_one hlength.symm
    have hrest : xs.length = ys.length := Nat.succ.inj hlength
    rw [List.zip_cons_cons] at hcount
    by_cases hbc : b = c
    · rw [List.countP_cons_of_neg (by simpa using hbc)] at hcount
      obtain ⟨before, d, e, after, hne, rfl, rfl⟩ := ih hrest hcount
      exact ⟨b :: before, d, e, after, hne, rfl, by rw [hbc, List.cons_append]⟩
    · rw [List.countP_cons_of_pos (by simpa using hbc)] at hcount
      have hsame : xs = ys := eq_of_countP_ne_eq_zero hrest (Nat.succ.inj hcount)
      exact ⟨[], b, c, xs, hbc, rfl, by rw [hsame, List.nil_append]⟩

theorem OneByteApart.append {xs ys : List UInt8} (h : OneByteApart xs ys)
    (before after : List UInt8) :
    OneByteApart (before ++ xs ++ after) (before ++ ys ++ after) := by
  obtain ⟨first, b, c, last, hne, rfl, rfl⟩ := h.exists_eq_append
  simpa using oneByteApart_append_cons hne (before ++ first) (last ++ after)

/-! ## The hash -/

/-- One step of the hash. -/
def absorb (h : UInt64) (b : UInt8) : UInt64 := (h ^^^ b.toUInt64) * 0x100000001b3

theorem hashBytes_eq_foldl (bs : List UInt8) :
    hashBytes bs = bs.foldl absorb 0xcbf29ce484222325 := rfl

/-- The factor has an inverse, so that no bit of the hash is lost. -/
theorem mul_factor_inj {h k : UInt64} (heq : h * 0x100000001b3 = k * 0x100000001b3) : h = k := by
  have hinverse : (0x100000001b3 : UInt64) * 0xce965057aff6957b = 1 := by decide
  have hback := congrArg (· * 0xce965057aff6957b) heq
  simpa only [UInt64.mul_assoc, hinverse, UInt64.mul_one] using hback

theorem absorb_left_inj {h k : UInt64} {b : UInt8} (heq : absorb h b = absorb k b) : h = k :=
  (UInt64.xor_left_inj b.toUInt64).1 (mul_factor_inj heq)

theorem absorb_right_inj {h : UInt64} {b c : UInt8} (heq : absorb h b = absorb h c) : b = c :=
  UInt8.toUInt64_inj.1 ((UInt64.xor_right_inj h).1 (mul_factor_inj heq))

theorem foldl_absorb_inj {bs : List UInt8} {h k : UInt64}
    (heq : bs.foldl absorb h = bs.foldl absorb k) : h = k := by
  induction bs generalizing h k with
  | nil => exact heq
  | cons b bs ih => exact absorb_left_inj (ih heq)

/-- What is before the place leads to one hash, the byte there to two, and what comes after keeps them
apart. -/
theorem hashBytes_ne {xs ys : List UInt8} (h : OneByteApart xs ys) : hashBytes xs ≠ hashBytes ys := by
  obtain ⟨before, b, c, after, hne, rfl, rfl⟩ := h.exists_eq_append
  intro heq
  rw [hashBytes_eq_foldl, hashBytes_eq_foldl, List.foldl_append, List.foldl_append, List.foldl_cons,
    List.foldl_cons] at heq
  exact hne (absorb_right_inj (foldl_absorb_inj heq))

/-! ## Entries -/

theorem oneByteApart_encodeEntries {e f : Entry} (h : OneByteApart e.encode f.encode)
    (before after : List Entry) :
    OneByteApart (encodeEntries (before ++ e :: after)) (encodeEntries (before ++ f :: after)) := by
  have hbytes (d : Entry) : encodeEntries (before ++ d :: after) =
      Varint.encode (before.length + (after.length + 1)) ++ before.flatMap Entry.encode ++
        d.encode ++ after.flatMap Entry.encode := by
    simp [encodeEntries, encodeList]
  rw [hbytes e, hbytes f]
  exact h.append _ _

theorem oneByteApart_flag (e : Entry) :
    OneByteApart e.encode (Entry.encode { e with isPrimary := !e.isPrimary }) := by
  have hflag : OneByteApart (encodeBool e.isPrimary) (encodeBool !e.isPrimary) := by
    cases e.isPrimary <;> decide
  exact hflag.append _ _

theorem oneByteApart_root {r s : String}
    (h : OneByteApart r.toUTF8.data.toList s.toUTF8.data.toList) (kind scope : Option String)
    (p : Bool) (as : Attributes) :
    OneByteApart (Entry.encode ⟨.atom ⟨r, kind, scope⟩, p, as⟩)
      (Entry.encode ⟨.atom ⟨s, kind, scope⟩, p, as⟩) := by
  have hsize : r.utf8ByteSize = s.utf8ByteSize := by simpa using h.1
  simpa [Entry.encode, Entity.encode, Atom.encode, encodeText, hsize] using
    h.append (Varint.encode 0 ++ Varint.encode s.utf8ByteSize)
      (encodeOption encodeText kind ++ (encodeOption encodeText scope ++
        (encodeBool p ++ encodeList encodeAttribute as.toList)))

/-! ## Refusals -/

/-- What is said of entries whose checksum is not the one that came with them. -/
def mismatch (expected found : UInt64) : Error :=
  .serialization ("Checksum mismatch: expected " ++ toString expected.toNat ++ ", got " ++
    toString found.toNat)

/-- What is said of a file that is longer than any that is read. -/
def tooLong (length : Nat) : Error :=
  .serialization ("Data size " ++ toString length ++ " bytes exceeds maximum allowed " ++
    toString maxFileSize ++ " bytes")

theorem verify_of_checksum_ne {s : Snapshot} (h : s.checksum ≠ checksumOf s.entries) :
    s.verify = .error (mismatch s.checksum (checksumOf s.entries)) := if_neg (Ne.symm h)

theorem ofBytes_of_tooLong {bs : List UInt8} (h : maxFileSize < bs.length) :
    ofBytes bs = .error (tooLong bs.length) := by
  have hshort : ¬ bs.length < headerLength := by
    simp only [maxFileSize, headerLength] at h ⊢
    omega
  simp only [ofBytes, if_neg hshort, if_pos h, tooLong, bind, Except.bind, throw, throwThe,
    MonadExceptOf.throw]

/-- Entries that are written with as many bytes, all but one of them the same, have another checksum.
A snapshot that comes with the checksum of the others is found to be wrong, and what is written of it is
not read back, whatever its name and length. -/
theorem one_changed_byte_is_noticed {xs ys : List Entry}
    (h : OneByteApart (encodeEntries xs) (encodeEntries ys)) :
    checksumOf xs ≠ checksumOf ys ∧ ∀ s : Snapshot, s.checksum = checksumOf xs → s.entries = ys →
      s.verify = .error (mismatch (checksumOf xs) (checksumOf ys)) ∧
      ofBytes s.toBytes = .error (if maxFileSize < s.toBytes.length then tooLong s.toBytes.length
        else mismatch (checksumOf xs) (checksumOf ys)) := by
  have hne : checksumOf xs ≠ checksumOf ys := hashBytes_ne h
  refine ⟨hne, fun s hsum hentries => ?_⟩
  have hverify : s.verify = .error (mismatch (checksumOf xs) (checksumOf ys)) := by
    rw [← hsum, ← hentries] at hne ⊢
    exact verify_of_checksum_ne hne
  refine ⟨hverify, ?_⟩
  split
  · next hlong => exact ofBytes_of_tooLong hlong
  · next hfits =>
    rw [ofBytes_toBytes_eq_verify (Nat.not_lt.1 hfits), hverify]
    rfl

/-- A mark that is turned round, a letter of a root that is another, one byte of a number: in each case
the entries are found not to be those of the checksum, in memory and in a file. -/
theorem one_changed_byte_is_noticed_in_flag_root_and_number :
    let weight (bits : UInt64) : Attributes := (∅ : Attributes).insert "w" (.float ⟨bits⟩)
    let edge : Entity := .edge [.atom { root := "é", kind := some "P" }, .atom { root := "ü" }]
    let entries (root : String) (p : Bool) (bits : UInt64) : List Entry :=
      [⟨.atom { root := root, kind := some "C" }, true, weight bits⟩, ⟨edge, p, ∅⟩]
    let xs := entries "café" true 0x4000000000000000
    ∀ ys ∈ [entries "café" false 0x4000000000000000, entries "cafè" true 0x4000000000000000,
        entries "café" true 0x4010000000000000],
      checksumOf xs ≠ checksumOf ys ∧
      (∃ e, verify ⟨"s", checksumOf xs, ys⟩ = .error (.serialization e)) ∧
      ∃ e, ofBytes (toBytes ⟨"s", checksumOf xs, ys⟩) = .error (.serialization e) := by
  intro weight edge entries xs ys hys
  have hbyte : OneByteApart (encodeEntries xs) (encodeEntries ys) := by
    simp only [List.mem_cons, List.not_mem_nil, or_false] at hys
    rcases hys with rfl | rfl | rfl
    · exact oneByteApart_encodeEntries (oneByteApart_flag _) [_] []
    · exact oneByteApart_encodeEntries (oneByteApart_root (by decide) _ _ _ _) [] [_]
    · decide +kernel
  obtain ⟨hne, hnoticed⟩ := one_changed_byte_is_noticed hbyte
  obtain ⟨hverify, hread⟩ := hnoticed ⟨"s", checksumOf xs, ys⟩ rfl rfl
  refine ⟨hne, ⟨_, hverify⟩, ?_⟩
  rw [hread]
  split <;> exact ⟨_, rfl⟩

end SemanticHypergraph.Snapshot
