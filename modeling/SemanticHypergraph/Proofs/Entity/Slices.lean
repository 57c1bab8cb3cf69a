import SemanticHypergraph.Proofs.Entity.CanonicalText
import SemanticHypergraph.Proofs.Entity.Places

/-!
# Tokens as slices of the bytes

A reader that keeps nothing but the byte at which it is, and cuts what it looks at out of the text, can
cut only between characters. Here a cut anywhere else has no result. The tokens that are cut out in this
way are those of the scan, so no cut is made inside a character, in whatever text and wherever the reader
stops.
-/
namespace SemanticHypergraph

open Text

namespace Token

/-- The text between two bytes, if there is a boundary between characters at both. -/
def slice? (text : String) (start finish : Nat) : Option String :=
  if h : String.Pos.Raw.IsValid text ⟨start⟩ ∧ String.Pos.Raw.IsValid text ⟨finish⟩ ∧
      start ≤ finish then
    some (String.extract (text.pos ⟨start⟩ h.1) (text.pos ⟨finish⟩ h.2.1))
  else none

/-- The first character of what is cut off at the byte, if any is left. -/
def peek? (text : String) (p : Nat) : Option (Option Char) :=
  (slice? text p text.utf8ByteSize).map fun rest => rest.toList.head?

theorem utf8ByteSize_of_slice? {text s : String} {start finish : Nat}
    (h : slice? text start finish = some s) :
    finish ≤ text.utf8ByteSize ∧ s.utf8ByteSize = finish - start := by
  unfold slice? at h
  split at h
  · next hvalid =>
    have hle : finish ≤ text.utf8ByteSize := hvalid.2.1.le_rawEndPos
    cases h
    refine ⟨hle, ?_⟩
    rw [← String.size_toByteArray, String.toByteArray_extract]
    simp [Nat.min_eq_left hle]
  · cases h

theorem lt_of_peek? {text : String} {p : Nat} {c : Char} (h : peek? text p = some (some c)) :
    p < text.utf8ByteSize := by
  obtain ⟨rest, hrest, hhead⟩ := Option.map_eq_some_iff.1 h
  obtain ⟨-, hsize⟩ := utf8ByteSize_of_slice? hrest
  have hpos := c.utf8Size_pos
  rw [← byteLength_toList] at hsize
  cases hlist : rest.toList with
  | nil => simp [hlist] at hhead
  | cons d ds =>
    rw [hlist, List.head?_cons, Option.some.injEq] at hhead
    rw [hlist, byteLength_cons, hhead] at hsize
    omega

/-- Goes on from character to character as long as they pass. -/
def skipWhile (keep : Char → Bool) (text : String) (p : Nat) : Option Nat :=
  match _h : peek? text p with
  | none => none
  | some none => some p
  | some (some c) => if keep c then skipWhile keep text (p + c.utf8Size) else some p
termination_by text.utf8ByteSize - p
decreasing_by
  have hlt := lt_of_peek? ‹_›
  have hpos := c.utf8Size_pos
  omega

theorem le_of_skipWhile {keep : Char → Bool} {text : String} {p q : Nat}
    (h : skipWhile keep text p = some q) : p ≤ q := by
  fun_induction skipWhile keep text p with
  | case1 => cases h
  | case2 =>
    cases h
    exact Nat.le_refl _
  | case3 p c hpeek hkeep ih =>
    have hle := ih h
    omega
  | case4 =>
    cases h
    exact Nat.le_refl _

theorem lt_of_skipWhile {keep : Char → Bool} {text : String} {p q : Nat} {c : Char}
    (hpeek : peek? text p = some (some c)) (hkeep : keep c = true)
    (h : skipWhile keep text p = some q) : p < q := by
  rw [skipWhile, hpeek] at h
  simp only [hkeep, if_true] at h
  have hle := le_of_skipWhile h
  have hpos := c.utf8Size_pos
  omega

theorem not_keep_of_skipWhile {keep : Char → Bool} {text : String} {p q : Nat} {c : Char}
    (h : skipWhile keep text p = some q) (hpeek : peek? text q = some (some c)) :
    keep c = false := by
  fun_induction skipWhile keep text p with
  | case1 => cases h
  | case2 p hend =>
    cases h
    rw [hend] at hpeek
    cases hpeek
  | case3 p c hpeek hkeep ih => exact ih h
  | case4 p d hd hkeep =>
    cases h
    rw [hd] at hpeek
    cases hpeek
    simpa using hkeep

/-- The token that stands at the byte, with the byte after it, unless the text ends there. -/
def tokenAt? (text : String) (p : Nat) : Option (Option (Token × Nat)) := do
  match ← peek? text p with
  | none => return none
  | some '(' => return some (.opening p, p + 1)
  | some ')' => return some (.closing p, p + 1)
  | some _ =>
    let finish ← skipWhile (fun c => !isDelimiter c) text p
    return some (.word p (← slice? text p finish).toList, finish)

/-- The token that comes next. -/
def next? (text : String) (p : Nat) : Option (Option (Token × Nat)) := do
  tokenAt? text (← skipWhile isBlank text p)

/-- A token ends after it begins, so the reader gets on. -/
theorem lt_of_next? {text : String} {p q : Nat} {t : Token} (h : next? text p = some (some (t, q))) :
    p < q ∧ p < text.utf8ByteSize := by
  obtain ⟨start, hstart, h⟩ := Option.bind_eq_some_iff.1 h
  obtain ⟨first, hfirst, h⟩ := Option.bind_eq_some_iff.1 h
  have hle := le_of_skipWhile hstart
  split at h
  · cases h
  · cases h
    have hlt := lt_of_peek? hfirst
    omega
  · cases h
    have hlt := lt_of_peek? hfirst
    omega
  · next c hopening hclosing =>
    obtain ⟨finish, hfinish, h⟩ := Option.bind_eq_some_iff.1 h
    obtain ⟨word, -, h⟩ := Option.bind_eq_some_iff.1 h
    cases h
    have hletter : isDelimiter c = false := by
      have hblank := not_keep_of_skipWhile hstart hfirst
      simp_all [isDelimiter]
    have hlt := lt_of_peek? hfirst
    have hlt' := lt_of_skipWhile hfirst (by simpa using hletter) hfinish
    omega

/-- Cuts the tokens out of the text from the byte on. -/
def cutFrom (text : String) (p : Nat) : Option (List Token) :=
  match _h : next? text p with
  | none => none
  | some none => some []
  | some (some (t, q)) => (cutFrom text q).map (t :: ·)
termination_by text.utf8ByteSize - p
decreasing_by
  have hlt := lt_of_next? ‹_›
  omega

/-! ## Cuts between characters -/

theorem isValid_byteLength {text : String} {xs ys : List Char} (h : text.toList = xs ++ ys) :
    String.Pos.Raw.IsValid text ⟨byteLength xs⟩ := by
  refine String.Pos.Raw.isValid_iff_exists_append.2 ⟨.ofList xs, .ofList ys, ?_, ?_⟩
  · rw [← String.ofList_append, ← h, String.ofList_toList]
  · rw [String.Pos.Raw.ext_iff, String.byteIdx_rawEndPos, ← byteLength_toList, String.toList_ofList]

theorem slice?_eq_some {text : String} {xs ys zs : List Char}
    (h : text.toList = xs ++ (ys ++ zs)) :
    slice? text (byteLength xs) (byteLength xs + byteLength ys) = some (.ofList ys) := by
  have hstart := isValid_byteLength h
  have hfinish : String.Pos.Raw.IsValid text ⟨byteLength xs + byteLength ys⟩ := by
    rw [← byteLength_append]
    exact isValid_byteLength (h.trans (List.append_assoc xs ys zs).symm)
  have htext : text = .ofList xs ++ (.ofList ys ++ .ofList zs) := by
    rw [← String.ofList_append, ← String.ofList_append, ← h, String.ofList_toList]
  have hsize (cs : List Char) : (String.ofList cs).toByteArray.size = byteLength cs := by
    rw [String.size_toByteArray, ← byteLength_toList, String.toList_ofList]
  rw [slice?, dif_pos ⟨hstart, hfinish, Nat.le_add_right _ _⟩]
  refine congrArg some (String.toByteArray_inj.1 ?_)
  have hbytes : text.toByteArray = (String.ofList xs).toByteArray ++
      ((String.ofList ys).toByteArray ++ (String.ofList zs).toByteArray) := by
    rw [htext, String.toByteArray_append, String.toByteArray_append]
  have hcut := ByteArray.extract_append_size_add' (a := (String.ofList xs).toByteArray)
    (b := (String.ofList ys).toByteArray ++ (String.ofList zs).toByteArray) (i := 0)
    (j := byteLength ys) (hsize xs).symm
  rw [String.toByteArray_extract, String.offset_pos, String.offset_pos, hbytes]
  rw [Nat.add_zero, ByteArray.extract_append_eq_left (hsize ys).symm] at hcut
  exact hcut

theorem peek?_eq_head? {text : String} {xs ys : List Char} (h : text.toList = xs ++ ys) :
    peek? text (byteLength xs) = some ys.head? := by
  have hsize : text.utf8ByteSize = byteLength xs + byteLength ys := by
    rw [← byteLength_toList, h, byteLength_append]
  have hwhole : text.toList = xs ++ (ys ++ []) := by rw [h, List.append_nil]
  have hslice := slice?_eq_some hwhole
  rw [peek?, hsize, hslice, Option.map_some, String.toList_ofList]

theorem skipWhile_eq_takeWhile (keep : Char → Bool) {text : String} {xs ys : List Char}
    (h : text.toList = xs ++ ys) :
    skipWhile keep text (byteLength xs) = some (byteLength xs + byteLength (ys.takeWhile keep)) := by
  induction ys generalizing xs with
  | nil =>
    rw [skipWhile, peek?_eq_head? h]
    rfl
  | cons c ys ih =>
    have hmore : text.toList = (xs ++ [c]) ++ ys := by
      rw [h, List.append_assoc, List.singleton_append]
    have hnext := ih hmore
    rw [byteLength_append, byteLength_cons, byteLength_nil, Nat.add_zero] at hnext
    rw [skipWhile, peek?_eq_head? h]
    simp only [List.head?_cons, List.takeWhile_cons]
    split
    · rw [hnext, byteLength_cons, Nat.add_assoc]
    · rfl

theorem takeWhile_append_eq {keep : Char → Bool} {xs ys : List Char}
    (hxs : ∀ c ∈ xs, keep c = true) (hys : ∀ c ∈ ys.head?, keep c = false) :
    (xs ++ ys).takeWhile keep = xs := by
  rw [List.takeWhile_append_of_pos hxs]
  cases ys with
  | nil => simp
  | cons c ys => simp [hys c rfl]

theorem isDelimiter_head? {w rest : List Char} {c : Char} (hw : IsWord w)
    (hc : (w ++ rest).head? = some c) : isDelimiter c = false := by
  obtain ⟨d, w, rfl⟩ := List.exists_cons_of_ne_nil hw.ne_nil
  cases hc
  exact hw.no_delimiter c List.mem_cons_self

/-- No lexeme begins with a blank. -/
theorem isBlank_head?_chars {x : Lexeme} {rest : List Char}
    (hx : ∀ w, x = .word w → IsWord w ∧ EndsWord rest) :
    ∀ c ∈ (x.chars ++ rest).head?, isBlank c = false := by
  intro c hc
  cases x with
  | opening =>
    cases hc
    decide
  | closing =>
    cases hc
    decide
  | word w =>
    have hletter := isDelimiter_head? (hx w rfl).1 hc
    simp_all [isDelimiter]

theorem tokenAt?_eq {text : String} {xs rest : List Char} {x : Lexeme}
    (hx : ∀ w, x = .word w → IsWord w ∧ EndsWord rest)
    (h : text.toList = xs ++ (x.chars ++ rest)) : tokenAt? text (byteLength xs) =
      some (some (x.token (byteLength xs), byteLength xs + byteLength x.chars)) := by
  have hpeek := peek?_eq_head? h
  cases x with
  | opening =>
    simp only [tokenAt?, hpeek]
    rfl
  | closing =>
    simp only [tokenAt?, hpeek]
    rfl
  | word w =>
    obtain ⟨hw, hrest⟩ := hx w rfl
    have hfinish := skipWhile_eq_takeWhile (fun c => !isDelimiter c) h
    rw [Lexeme.chars, takeWhile_append_eq (fun c hc => by simp [hw.no_delimiter c hc])
      fun c hc => by simp [hrest c hc]] at hfinish
    have hslice : slice? text (byteLength xs) (byteLength xs + byteLength w) = some (.ofList w) :=
      slice?_eq_some h
    simp only [tokenAt?, hpeek, Option.bind_eq_bind, Option.bind_some]
    split
    · next hend =>
      have hnil : w ++ rest = [] := List.head?_eq_none_iff.1 hend
      exact absurd (List.append_eq_nil_iff.1 hnil).1 hw.ne_nil
    · next hopening => exact absurd (isDelimiter_head? hw hopening) (by decide)
    · next hclosing => exact absurd (isDelimiter_head? hw hclosing) (by decide)
    · rw [hfinish, Option.bind_some, hslice]
      simp [Lexeme.token, Lexeme.chars]

theorem next?_eq_none {text : String} {xs ys : List Char} (h : text.toList = xs ++ ys)
    (hys : IsBlanks ys) : next? text (byteLength xs) = some none := by
  have hskip := skipWhile_eq_takeWhile isBlank h
  have hpeek := peek?_eq_head? (h.trans (List.append_nil _).symm)
  rw [byteLength_append] at hpeek
  have htake : (ys ++ []).takeWhile isBlank = ys := takeWhile_append_eq hys (by simp)
  rw [List.append_nil] at htake
  rw [htake] at hskip
  simp only [next?, hskip, tokenAt?, Option.bind_eq_bind, Option.bind_some, hpeek]
  rfl

theorem next?_eq_some {text : String} {xs gap rest : List Char} {x : Lexeme}
    (hx : ∀ w, x = .word w → IsWord w ∧ EndsWord rest) (hgap : IsBlanks gap)
    (h : text.toList = xs ++ (gap ++ (x.chars ++ rest))) : next? text (byteLength xs) =
      some (some (x.token (byteLength (xs ++ gap)), byteLength (xs ++ gap ++ x.chars))) := by
  have hskip := skipWhile_eq_takeWhile isBlank h
  rw [takeWhile_append_eq hgap (isBlank_head?_chars hx), ← byteLength_append] at hskip
  have htoken := tokenAt?_eq hx (h.trans (List.append_assoc xs gap _).symm)
  rw [next?, hskip, byteLength_append (xs ++ gap) x.chars]
  exact htoken

/-- Whatever the text, all cuts are made between characters, and they give the tokens of the scan. -/
theorem cutFrom_eq {text : String} {xs ys : List Char} (h : text.toList = xs ++ ys) :
    cutFrom text (byteLength xs) = some (scanAt (byteLength xs) ys) := by
  -- by induction on the tokens that are left
  generalize hts : scanAt (byteLength xs) ys = ts
  induction ts generalizing xs ys with
  | nil =>
    rw [cutFrom, next?_eq_none h (isBlanks_of_scanAt_eq_nil hts)]
  | cons t ts ih =>
    obtain ⟨gap, rest, rfl, hgap, hposition, hrest, hword⟩ := scanAt_eq_cons hts
    have hafter : text.toList = (xs ++ gap ++ t.lexeme.chars) ++ rest := by
      rw [h, List.append_assoc, List.append_assoc]
    have hend : byteLength (xs ++ gap ++ t.lexeme.chars) =
        t.position + byteLength t.lexeme.chars := by
      rw [hposition, byteLength_append, byteLength_append]
    have hothers := ih hafter (by rw [hend, ← hrest])
    rw [cutFrom, next?_eq_some hword hgap h]
    simp only [hothers, Option.map_some]
    rw [byteLength_append, ← hposition, token_lexeme]

theorem cutFrom_zero (text : String) : cutFrom text 0 = some (scan text.toList) := by
  have hwhole : text.toList = [] ++ text.toList := rfl
  exact cutFrom_eq hwhole

end Token

end SemanticHypergraph
