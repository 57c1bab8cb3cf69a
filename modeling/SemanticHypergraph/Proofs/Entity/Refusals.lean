import SemanticHypergraph.Proofs.Entity.Reading
import SemanticHypergraph.Proofs.Entity.Slices

/-!
# Where a text is refused

A refusal comes with the byte at which the fault lies. That is the end of the text or the byte of a token,
so it is a boundary between characters, and what stands there and before it goes with the fault. For this
it is followed what the reader has used up: where something is left over, what was used up is an entity
by itself.
-/
namespace SemanticHypergraph

open Text

/-- The byte of a text at a place. -/
def byteAt? (text : String) (p : Nat) : Option UInt8 := text.toUTF8.data[p]?

/-- What the place of a refusal is in the text: what stands there and what before it. Words are never
empty and hold no delimiters, so that two of the faults do not occur. -/
def Refusal.PointsInto (text : String) (r : Refusal) : Prop :=
  ∃ before after : String, text = before ++ after ∧ before.utf8ByteSize = r.position ∧
    match r.fault with
    | .textTooLong n => before = "" ∧ n = text.utf8ByteSize ∧ maxTextLength < n
    | .unexpectedEnd => IsBlanks before.toList ∧ after = ""
    | .unbalancedClosing => byteAt? text r.position = some 0x29 ∧
      (IsBlanks before.toList ∨ ∃ e, Entity.parse before = .ok e)
    | .trailingInput => ∃ e, Entity.parse before = .ok e
    | .missingClosing | .emptyEdge | .tooDeep => byteAt? text r.position = some 0x28
    | .tooManyParts _ | .emptyRoot | .emptyNamespace _ | .emptyType _ =>
      ∃ w rest, after.toList = w ++ rest ∧ IsWord w ∧ EndsWord rest ∧
        EndsWord before.toList.reverse ∧ Atom.ofWord r.position w = .error r
    | .emptyWord | .invalidCharacter _ => False

namespace Fault

/-- The faults that lie at an opening parenthesis. -/
def isOfEdge : Fault → Bool
  | missingClosing | emptyEdge | tooDeep => true
  | _ => false

/-- The faults of a word. -/
def isOfWord : Fault → Bool
  | tooManyParts _ | emptyRoot | emptyNamespace _ | emptyType _ => true
  | _ => false

end Fault

/-- All faults of a word lie at its first character. -/
theorem Atom.ofWord_eq_error {p : Nat} {w : List Char} {r : Refusal} (hw : IsWord w)
    (h : ofWord p w = .error r) : r.fault.isOfWord ∧ r.position = p := by
  rw [ofWord_of_isWord hw] at h
  unfold ofParts at h
  split at h
  · split_ifs at h
    cases h
    exact ⟨rfl, rfl⟩
  · split_ifs at h <;> cases h <;> exact ⟨rfl, rfl⟩
  · split_ifs at h <;> cases h <;> exact ⟨rfl, rfl⟩
  · cases h
    exact ⟨rfl, rfl⟩

namespace Entity

/-- The reader reads the tokens as an entity and uses them all up. -/
def Reads (ts : List Token) (e : Entity) : Prop := ∀ finish, readTokens finish ts = .ok e

/-- Which of the tokens is at fault. -/
inductive Refuses (finish : Nat) : List Token → Refusal → Prop
  | nothing : Refuses finish [] ⟨.unexpectedEnd, finish⟩
  | closingFirst (p : Nat) (rest : List Token) :
    Refuses finish (.closing p :: rest) ⟨.unbalancedClosing, p⟩
  | closingLeft {done : List Token} {e : Entity} (p : Nat) (rest : List Token) (h : Reads done e) :
    Refuses finish (done ++ .closing p :: rest) ⟨.unbalancedClosing, p⟩
  | left {done : List Token} {e : Entity} (t : Token) (rest : List Token) (h : Reads done e) :
    Refuses finish (done ++ t :: rest) ⟨.trailingInput, t.position⟩
  | edge {ts : List Token} {r : Refusal} (hfault : r.fault.isOfEdge) (h : .opening r.position ∈ ts) :
    Refuses finish ts r
  | word {ts : List Token} {r : Refusal} {p : Nat} {w : List Char} (h : .word p w ∈ ts)
    (hword : Atom.ofWord p w = .error r) : Refuses finish ts r

/-- What was used up to the end of the outermost edge is read in the same way by itself. -/
theorem readInside_used {top : OpenEdge} {below : List OpenEdge} {ts rest : List Token} {e : Entity}
    (h : readInside top below ts = .ok (e, rest)) :
    ∃ used, ts = used ++ rest ∧ readInside top below used = .ok (e, []) := by
  fun_induction readInside top below ts with
  | case1 => cases h
  | case2 => cases h
  | case3 top below p w ts a ha ih =>
    obtain ⟨used, rfl, hused⟩ := ih h
    exact ⟨.word p w :: used, rfl, by simp [readInside, ha, hused]⟩
  | case4 => cases h
  | case5 top below p ts hroom ih =>
    obtain ⟨used, rfl, hused⟩ := ih h
    exact ⟨.opening p :: used, rfl, by simp [readInside, hroom, hused]⟩
  | case6 => cases h
  | case7 top q ts hne =>
    cases h
    exact ⟨[.closing q], rfl, by simp [readInside, hne]⟩
  | case8 top q ts hne outer below ih =>
    obtain ⟨used, rfl, hused⟩ := ih h
    exact ⟨.closing q :: used, rfl, by simp [readInside, hne, hused]⟩

/-- The fault lies at the opening parenthesis of an edge that is open, at that of an edge still to come or
in a word. -/
inductive Blames (opened : List Nat) (ts : List Token) (r : Refusal) : Prop
  | opened (hfault : r.fault.isOfEdge) (h : r.position ∈ opened)
  | opening (hfault : r.fault.isOfEdge) (h : .opening r.position ∈ ts)
  | word {p : Nat} {w : List Char} (h : .word p w ∈ ts) (hword : Atom.ofWord p w = .error r)

theorem Blames.cons {opened : List Nat} {ts : List Token} {r : Refusal} (h : Blames opened ts r)
    (t : Token) : Blames opened (t :: ts) r := by
  cases h with
  | opened hfault h => exact .opened hfault h
  | opening hfault h => exact .opening hfault (List.mem_cons_of_mem t h)
  | word h hword => exact .word (List.mem_cons_of_mem t h) hword

theorem readInside_eq_error {top : OpenEdge} {below : List OpenEdge} {ts : List Token} {r : Refusal}
    (h : readInside top below ts = .error r) :
    Blames ((top :: below).map OpenEdge.position) ts r := by
  fun_induction readInside top below ts with
  | case1 top below =>
    cases h
    exact .opened rfl List.mem_cons_self
  | case2 top below p w ts r' hr =>
    cases h
    exact .word List.mem_cons_self hr
  | case3 top below p w ts a ha ih => exact (ih h).cons _
  | case4 top below p ts hdeep =>
    cases h
    exact .opening rfl List.mem_cons_self
  | case5 top below p ts hroom ih =>
    -- the edge that is opened here is one of those still to come
    cases ih h with
    | opened hfault hopened =>
      rcases List.mem_cons.1 hopened with heq | hopened
      · exact .opening hfault (by rw [heq]; exact List.mem_cons_self)
      · exact .opened hfault hopened
    | opening hfault hmem => exact .opening hfault (List.mem_cons_of_mem _ hmem)
    | word hmem hword => exact .word (List.mem_cons_of_mem _ hmem) hword
  | case6 top below q ts hempty =>
    cases h
    exact .opened rfl List.mem_cons_self
  | case7 => cases h
  | case8 top q ts hne outer below ih =>
    cases ih h with
    | opened hfault hopened => exact .opened hfault (List.mem_cons_of_mem _ hopened)
    | opening hfault hmem => exact .opening hfault (List.mem_cons_of_mem _ hmem)
    | word hmem hword => exact .word (List.mem_cons_of_mem _ hmem) hword

theorem refuses_of_ensureEnd {finish : Nat} {done rest : List Token} {d : Entity} {r : Refusal}
    (hdone : Reads done d) (h : ensureEnd d rest = .error r) : Refuses finish (done ++ rest) r := by
  rcases rest with _ | ⟨t, rest⟩
  · cases h
  · cases t <;> cases h
    · exact .left _ rest hdone
    · exact .closingLeft _ rest hdone
    · exact .left _ rest hdone

theorem refuses_of_readTokens {finish : Nat} {ts : List Token} {r : Refusal}
    (h : readTokens finish ts = .error r) : Refuses finish ts r := by
  unfold readTokens at h
  split at h
  · cases h
    exact .nothing
  · cases h
    exact .closingFirst _ _
  · next p w ts =>
    split at h
    · next hword =>
      cases h
      exact .word List.mem_cons_self hword
    · next a ha =>
      have hreads : Reads [.word p w] (.atom a) := fun finish => by
        simp [readTokens, ha, ensureEnd]
      exact refuses_of_ensureEnd hreads h
  · next p ts =>
    split at h
    · next hinside =>
      cases h
      cases readInside_eq_error hinside with
      | opened hfault hopened =>
        rw [List.map_singleton, List.mem_singleton] at hopened
        exact .edge hfault (by rw [hopened]; exact List.mem_cons_self)
      | opening hfault hmem => exact .edge hfault (List.mem_cons_of_mem _ hmem)
      | word hmem hword => exact .word (List.mem_cons_of_mem _ hmem) hword
    · next e rest hinside =>
      obtain ⟨used, rfl, hused⟩ := readInside_used hinside
      have hreads : Reads (.opening p :: used) e := fun finish => by
        simp [readTokens, hused, ensureEnd]
      exact refuses_of_ensureEnd hreads h

end Entity

/-! ## Bytes -/

theorem byteAt?_append {before after : String} {p : Nat} {c : Char} {cs : List Char}
    (hposition : before.utf8ByteSize = p) (h : after.toList = c :: cs) :
    byteAt? (before ++ after) p = (String.utf8EncodeChar c)[0]? := by
  subst hposition
  have hpos : 0 < (String.utf8EncodeChar c).length := by
    rw [String.length_utf8EncodeChar]
    exact c.utf8Size_pos
  have hafter : after.toByteArray.data = ((c :: cs).flatMap String.utf8EncodeChar).toArray := by
    rw [← String.utf8Encode_toList, h, List.utf8Encode, List.data_toByteArray]
  have hsize : before.toByteArray.data.size = before.utf8ByteSize := rfl
  rw [byteAt?, String.toUTF8_eq_toByteArray, String.toByteArray_append, ByteArray.data_append,
    Array.getElem?_append_right (Nat.le_of_eq hsize), hsize, Nat.sub_self, hafter]
  simp [List.getElem?_append_left hpos]

namespace Refusal

theorem PointsInto.isValid {text : String} {r : Refusal} (h : r.PointsInto text) :
    String.Pos.Raw.IsValid text ⟨r.position⟩ := by
  obtain ⟨before, after, rfl, hposition, -⟩ := h
  rw [← hposition]
  exact String.Pos.Raw.isValid_iff_exists_append.2 ⟨before, after, rfl, rfl⟩

variable {before after : String} {r : Refusal}

theorem pointsInto_of_isOfEdge (hfault : r.fault.isOfEdge)
    (hposition : before.utf8ByteSize = r.position)
    (hbyte : byteAt? (before ++ after) r.position = some 0x28) : r.PointsInto (before ++ after) := by
  refine ⟨before, after, rfl, hposition, ?_⟩
  cases hf : r.fault with
  | missingClosing => exact hbyte
  | emptyEdge => exact hbyte
  | tooDeep => exact hbyte
  | _ =>
    rw [hf] at hfault
    cases hfault

theorem pointsInto_of_isOfWord (hfault : r.fault.isOfWord)
    (hposition : before.utf8ByteSize = r.position)
    (hword : ∃ w rest, after.toList = w ++ rest ∧ IsWord w ∧ EndsWord rest ∧
      EndsWord before.toList.reverse ∧ Atom.ofWord r.position w = .error r) :
    r.PointsInto (before ++ after) := by
  refine ⟨before, after, rfl, hposition, ?_⟩
  cases hf : r.fault with
  | tooManyParts w => exact hword
  | emptyRoot => exact hword
  | emptyNamespace w => exact hword
  | emptyType w => exact hword
  | _ =>
    rw [hf] at hfault
    cases hfault

end Refusal

namespace Entity

/-- Reads a text by cutting it at bytes. There is no result if a cut is made inside a character. -/
def parseCut (text : String) : Option (Except Error Entity) :=
  (Token.cutFrom text 0).map fun ts =>
    (if maxTextLength < text.utf8ByteSize then .error ⟨.textTooLong text.utf8ByteSize, 0⟩
      else readTokens text.utf8ByteSize ts).mapError Refusal.toError

theorem parseCut_eq (text : String) : parseCut text = some (parse text) := by
  rw [parseCut, Token.cutFrom_zero]
  rfl

/-- The text at a token. -/
theorem exists_eq_append {text : String} {done rest : List Token} {t : Token}
    (h : Token.scan text.toList = done ++ t :: rest) : ∃ before after : String,
      text = before ++ after ∧ before.utf8ByteSize = t.position ∧
      Token.scan before.toList = done ∧ ∃ cs, after.toList = t.lexeme.chars ++ cs ∧
        ∀ w, t.lexeme = .word w → IsWord w ∧ EndsWord cs ∧ EndsWord before.toList.reverse := by
  obtain ⟨xs, ys, htext, hposition, hdone, hword⟩ := Token.exists_eq_append_of_scanAt h
  refine ⟨.ofList xs, .ofList (t.lexeme.chars ++ ys), ?_, ?_, ?_, ys, ?_, ?_⟩
  · rw [← String.ofList_append, ← htext, String.ofList_toList]
  · rw [hposition, ← byteLength_toList, String.toList_ofList, Nat.zero_add]
  · rw [String.toList_ofList]
    exact hdone
  · rw [String.toList_ofList]
  · rw [String.toList_ofList]
    exact hword

theorem parse_of_reads {before after : String} {e : Entity}
    (h : Reads (Token.scan before.toList) e)
    (hsize : (before ++ after).utf8ByteSize ≤ maxTextLength) : parse before = .ok e := by
  rw [String.utf8ByteSize_append] at hsize
  have hshort : ¬ maxTextLength < before.utf8ByteSize := by omega
  rw [parse, readSized, if_neg hshort, h]
  rfl

theorem pointsInto_of_refuses {text : String} {r : Refusal}
    (hsize : text.utf8ByteSize ≤ maxTextLength)
    (h : Refuses text.utf8ByteSize (Token.scan text.toList) r) : r.PointsInto text := by
  generalize hts : Token.scan text.toList = ts at h
  cases h with
  | nothing =>
    have hblank : IsBlanks text.toList := Token.isBlanks_of_scanAt_eq_nil hts
    exact ⟨text, "", by simp, rfl, hblank, rfl⟩
  | closingFirst p rest =>
    obtain ⟨before, after, rfl, hposition, hdone, cs, hafter, -⟩ :=
      exists_eq_append (hts.trans (List.nil_append _).symm)
    have hblank : IsBlanks before.toList := Token.isBlanks_of_scanAt_eq_nil hdone
    have hbyte := byteAt?_append hposition hafter
    exact ⟨before, after, rfl, hposition, hbyte, .inl hblank⟩
  | @closingLeft done e p rest hreads =>
    obtain ⟨before, after, rfl, hposition, hdone, cs, hafter, -⟩ := exists_eq_append hts
    have hbyte := byteAt?_append hposition hafter
    exact ⟨before, after, rfl, hposition, hbyte, .inr ⟨e, parse_of_reads (hdone ▸ hreads) hsize⟩⟩
  | @left done e t rest hreads =>
    obtain ⟨before, after, rfl, hposition, hdone, -⟩ := exists_eq_append hts
    exact ⟨before, after, rfl, hposition, e, parse_of_reads (hdone ▸ hreads) hsize⟩
  | edge hfault hmem =>
    obtain ⟨done, rest, rfl⟩ := List.append_of_mem hmem
    obtain ⟨before, after, rfl, hposition, -, cs, hafter, -⟩ := exists_eq_append hts
    have hbyte := byteAt?_append hposition hafter
    exact Refusal.pointsInto_of_isOfEdge hfault hposition hbyte
  | word hmem hword =>
    obtain ⟨done, rest, rfl⟩ := List.append_of_mem hmem
    obtain ⟨before, after, rfl, hposition, -, cs, hafter, hends⟩ := exists_eq_append hts
    obtain ⟨hw, hcs, hbefore⟩ := hends _ rfl
    obtain ⟨hfault, hp⟩ := Atom.ofWord_eq_error hw hword
    refine Refusal.pointsInto_of_isOfWord hfault (hposition.trans hp.symm) ?_
    exact ⟨_, cs, hafter, hw, hcs, hbefore, by rw [hp]; exact hword⟩

theorem pointsInto_of_readSized {text : String} {r : Refusal}
    (h : readSized text.utf8ByteSize text.toList = .error r) : r.PointsInto text := by
  unfold readSized at h
  split at h
  · next hlong =>
    cases h
    exact ⟨"", text, by simp, rfl, rfl, rfl, hlong⟩
  · next hshort => exact pointsInto_of_refuses (Nat.not_lt.1 hshort) (refuses_of_readTokens h)

/-- A text that is refused is refused after cuts between characters only, with a byte of the text or its
end as the place. What is left over lies after an entity, an unbalanced parenthesis is one and lies after
an entity or blanks, the faults of an edge lie at an opening parenthesis and those of a word at the first
byte of the whole of it. -/
theorem parse_error_place {text : String} {error : Error} (h : parse text = .error error) :
    parseCut text = some (.error error) ∧
      ∃ r : Refusal, readSized text.utf8ByteSize text.toList = .error r ∧ error = r.toError ∧
        r.position ≤ text.utf8ByteSize ∧ String.Pos.Raw.IsValid text ⟨r.position⟩ ∧
        r.PointsInto text := by
  refine ⟨by rw [parseCut_eq, h], ?_⟩
  unfold parse at h
  cases hread : readSized text.utf8ByteSize text.toList with
  | ok e =>
    rw [hread] at h
    cases h
  | error r =>
    rw [hread] at h
    cases h
    have hplace := pointsInto_of_readSized hread
    exact ⟨r, rfl, rfl, hplace.isValid.le_rawEndPos, hplace.isValid, hplace⟩

/-- What is before an unbalanced parenthesis is an entity, with characters of two bytes in it. -/
theorem parse_error_place_after_edge :
    parse "(é ü)) x" = .error (.parse "unbalanced ')'" 7) ∧
      parseCut "(é ü)) x" = some (.error (.parse "unbalanced ')'" 7)) ∧
      (⟨.unbalancedClosing, 7⟩ : Refusal).PointsInto "(é ü)) x" := by
  have hscan : Token.scan "(é ü)) x".toList =
      [.opening 0, .word 1 ['é'], .word 4 ['ü'], .closing 6, .closing 7, .word 9 ['x']] := by
    decide +kernel
  have hshort : ¬ maxTextLength < "(é ü)) x".utf8ByteSize := by decide +kernel
  have hread : readSized "(é ü)) x".utf8ByteSize "(é ü)) x".toList =
      .error ⟨.unbalancedClosing, 7⟩ := by
    rw [readSized, if_neg hshort, hscan]
    rfl
  have hparse : parse "(é ü)) x" = .error (.parse "unbalanced ')'" 7) := by
    rw [parse, hread]
    rfl
  obtain ⟨hcut, r, hr, -, -, -, hplace⟩ := parse_error_place hparse
  cases Except.error.inj (hread.symm.trans hr)
  exact ⟨hparse, hcut, hplace⟩

end Entity

end SemanticHypergraph
