import SemanticHypergraph.Proofs.Entity.RoundTrip

/-!
# The printed text of what was read

Printing drops the blanks of a text, all but one between neighbours, and puts one in where neighbours
touch, which an edge may do. So what is printed is longer than what was read by the number of these
places at most, and a text that is short enough may be printed as one that is not.
-/
namespace SemanticHypergraph

open Text

theorem Text.byteLength_toList (s : String) : byteLength s.toList = s.utf8ByteSize := by
  have hlist : ∀ cs : List Char, byteLength cs = (String.ofList cs).utf8ByteSize := by
    intro cs
    induction cs with
    | nil => rfl
    | cons c cs ih =>
      have hsplit : String.ofList (c :: cs) = String.singleton c ++ String.ofList cs := by
        rw [← String.toList_inj]
        simp
      rw [byteLength_cons, ih, hsplit, String.utf8ByteSize_append, String.utf8ByteSize_singleton]
  rw [hlist, String.ofList_toList]

/-- The two characters are the end of an entity and the beginning of the next one, with nothing
between them. -/
def touches (c d : Char) : Bool :=
  (c == ')' || d == '(') && !isBlank c && !isBlank d && c != '(' && d != ')'

/-- The number of places where neighbours touch. -/
def touching : List Char → Nat
  | c :: d :: cs => (if touches c d then 1 else 0) + touching (d :: cs)
  | _ => 0

theorem touching_append_cons (xs : List Char) (c d : Char) (ys : List Char) :
    touching (xs ++ c :: d :: ys) =
      touching (xs ++ [c]) + (if touches c d then 1 else 0) + touching (d :: ys) := by
  induction xs with
  | nil => simp [touching]
  | cons x xs ih =>
    cases xs with
    | nil => simp [touching, Nat.add_assoc]
    | cons y xs =>
      simp only [List.cons_append] at ih ⊢
      rw [touching, ih, touching]
      omega

theorem touching_append_le (xs ys : List Char) :
    touching xs + touching ys ≤ touching (xs ++ ys) := by
  rcases List.eq_nil_or_concat xs with rfl | ⟨xs, c, rfl⟩
  · simp [touching]
  · cases ys with
    | nil => simp [touching]
    | cons d ys =>
      have hsplit := touching_append_cons xs c d ys
      simp only [List.concat_eq_append, List.append_assoc, List.cons_append, List.nil_append] at *
      omega

theorem touches_of_not_isBlank {c d : Char} (hc : isBlank c = false) (hopen : c ≠ '(')
    (hd : isBlank d = false) (hclose : d ≠ ')') (h : c = ')' ∨ d = '(') : touches c d = true := by
  simp [touches, hc, hopen, hd, hclose, h]

/-! ## From what is read to what is printed -/

/-- An entity ends in a letter or in a closing parenthesis. -/
theorem Spells.exists_last {s : List Char} {e : Entity} (h : Spells s e) :
    ∃ init c, s = init ++ [c] ∧ isBlank c = false ∧ c ≠ '(' ∧ (e.isAtom = false → c = ')') := by
  cases h with
  | atom ha =>
    obtain ⟨hne, hletters⟩ := ha.isWord
    obtain ⟨init, c, rfl⟩ := (List.eq_nil_or_concat s).resolve_left hne
    obtain ⟨hblank, hopening, -⟩ := isDelimiter_eq_false.1 (hletters c (by simp))
    exact ⟨init, c, List.concat_eq_append, hblank, hopening, by simp [Entity.isAtom]⟩
  | @edge before inner after =>
    exact ⟨'(' :: (before ++ inner ++ after), ')', by simp, by decide, by decide, fun _ => rfl⟩

/-- An entity begins with a letter or with an opening parenthesis. -/
theorem Spells.exists_first {s : List Char} {e : Entity} (h : Spells s e) :
    ∃ d rest, s = d :: rest ∧ isBlank d = false ∧ d ≠ ')' ∧ (e.isAtom = false → d = '(') := by
  cases h with
  | atom ha =>
    obtain ⟨hne, hletters⟩ := ha.isWord
    obtain ⟨d, rest, rfl⟩ := List.exists_cons_of_ne_nil hne
    obtain ⟨hblank, -, hclosing⟩ := isDelimiter_eq_false.1 (hletters d (by simp))
    exact ⟨d, rest, rfl, hblank, hclosing, by simp [Entity.isAtom]⟩
  | edge => exact ⟨'(', _, rfl, by decide, by decide, fun _ => rfl⟩

theorem SpellsAll.exists_first {s : List Char} {e : Entity} {es : List Entity}
    (h : SpellsAll s (e :: es)) :
    ∃ d rest, s = d :: rest ∧ isBlank d = false ∧ d ≠ ')' ∧ (e.isAtom = false → d = '(') := by
  cases h with
  | one he => exact he.exists_first
  | more he =>
    obtain ⟨d, rest, rfl, hd⟩ := he.exists_first
    exact ⟨d, _, rfl, hd⟩

/-- Neighbours with nothing between them touch, as one of them is an edge. -/
theorem touching_append_of_neighbours {s t : List Char} {d e : Entity} {es : List Entity}
    (hd : Spells s d) (hes : SpellsAll t (e :: es)) (hedge : d.isAtom = true → e.isAtom = false) :
    touching s + 1 + touching t ≤ touching (s ++ t) := by
  obtain ⟨init, c, rfl, hc, hopen, hlast⟩ := hd.exists_last
  obtain ⟨first, rest, rfl, hfirst, hclose, hhead⟩ := hes.exists_first
  have hends : c = ')' ∨ first = '(' := by
    cases h : d.isAtom with
    | false => exact .inl (hlast h)
    | true => exact .inr (hhead (hedge h))
  have htouches := touches_of_not_isBlank hc hopen hfirst hclose hends
  have hsplit := touching_append_cons init c first rest
  rw [htouches, if_pos rfl] at hsplit
  rw [List.append_assoc, List.singleton_append]
  exact Nat.le_of_eq hsplit.symm

theorem SpellsAtom.toList_toText {w : List Char} {a : Atom} (h : SpellsAtom w a) :
    a.toText.toList = w := by
  cases h <;> simp [Atom.toText]

mutual

theorem Spells.byteLength_chars_le {s : List Char} {e : Entity} : Spells s e →
    byteLength e.chars ≤ byteLength s + touching s
  | .atom ha => by
    rw [Entity.chars, ha.toList_toText]
    exact Nat.le_add_right _ _
  | @Spells.edge before inner after cs hbefore hinner hafter => by
    have hbound := hinner.byteLength_charsAll_le
    have hinside : touching inner ≤ touching ('(' :: (before ++ inner ++ after ++ [')'])) := by
      have hleft := touching_append_le ('(' :: before) inner
      have hright := touching_append_le ('(' :: before ++ inner) (after ++ [')'])
      simp only [List.cons_append, List.append_assoc] at hleft hright ⊢
      omega
    simp only [Entity.chars, byteLength_cons, byteLength_append, byteLength_nil] at hbound ⊢
    omega

theorem SpellsAll.byteLength_charsAll_le {s : List Char} {es : List Entity} : SpellsAll s es →
    byteLength (Entity.charsAll es) ≤ byteLength s + touching s
  | .one he => by
    have hbound := he.byteLength_chars_le
    simpa [Entity.charsAll, Entity.charsAfter] using hbound
  | @SpellsAll.more s gap t d e es hd hgap hneighbours hes => by
    have hbound := hd.byteLength_chars_le
    have hbounds := hes.byteLength_charsAll_le
    have hspace : byteLength [' '] = 1 := by decide
    rw [Entity.charsAll_cons_cons, byteLength_append, byteLength_append, hspace]
    -- The blank that is printed was there, or else it stands where the neighbours touched.
    cases gap with
    | nil =>
      have hedge : d.isAtom = true → e.isAtom = false := by
        intro hatom
        exact Bool.eq_false_iff.2 fun he => hneighbours hatom he rfl
      have htouch := touching_append_of_neighbours hd hes hedge
      rw [List.append_nil, byteLength_append]
      omega
    | cons c gap =>
      have hpos := c.utf8Size_pos
      have hleft := touching_append_le s (c :: gap)
      have hright := touching_append_le (s ++ c :: gap) t
      rw [byteLength_append, byteLength_append, byteLength_cons]
      omega

end

namespace Entity

/-- Printing adds to what was read a byte for every place where neighbours touch, at most. -/
theorem utf8ByteSize_toText_le {text : String} {e : Entity} (h : parse text = .ok e) :
    e.toText.utf8ByteSize ≤ text.utf8ByteSize + touching text.toList := by
  obtain ⟨-, -, before, s, after, htext, -, hs, -⟩ := parse_eq_ok_iff.1 h
  have hbound := hs.byteLength_chars_le
  have hleft := touching_append_le before s
  have hright := touching_append_le (before ++ s) after
  rw [← byteLength_toList, ← byteLength_toList, toList_toText, htext, byteLength_append,
    byteLength_append]
  omega

/-- What was read is printed as a text that is read as the same, unless it is too long for that, and
then this is what the reader says. It can be too long only if neighbours touch in what was read. -/
theorem parse_toText_of_parse {text : String} {e : Entity} (h : parse text = .ok e) :
    parse e.toText = (if e.toText.utf8ByteSize ≤ maxTextLength then .ok e else
      .error (.parse (Fault.textTooLong e.toText.utf8ByteSize).message 0)) ∧
    e.toText.utf8ByteSize ≤ text.utf8ByteSize + touching text.toList ∧
    (touching text.toList = 0 → parse e.toText = .ok e) := by
  obtain ⟨hlength, hdepth, hdenotes⟩ := parse_eq_ok_iff.1 h
  have hformed : e.WellFormed := (denotes_iff.1 hdenotes).wellFormed
  have hsize := utf8ByteSize_toText_le h
  refine ⟨?_, hsize, fun hnone => ?_⟩
  · split
    · next hshort => exact (parse_toText_iff e).2 ⟨hformed, hdepth, hshort⟩
    · next hlong => rw [parse, readSized, if_pos (Nat.not_le.1 hlong)]; rfl
  · apply (parse_toText_iff e).2 ⟨hformed, hdepth, _⟩
    omega

/-- One place where neighbours touch takes the byte of a blank that is dropped. -/
theorem parse_toText_of_parse_touching :
    let e := edge [.atom { root := "a" }, .edge [.atom { root := "b" }, .atom { root := "c" }]]
    parse "( a(b c))" = .ok e ∧ touching "( a(b c))".toList = 1 ∧ parse e.toText = .ok e := by
  intro e
  have hread : parse "( a(b c))" = .ok e := rfl
  have hshort : e.toText.utf8ByteSize ≤ maxTextLength := by decide +kernel
  have hprinted := (parse_toText_of_parse hread).1
  rw [if_pos hshort] at hprinted
  exact ⟨hread, by decide, hprinted⟩

/-! ## The longest text -/

/-- An edge of a long atom and an edge that touches it. -/
def tightChars (n : Nat) : List Char := '(' :: (List.replicate n 'a' ++ ['(', 'b', ')', ')'])

def tight (n : Nat) : Entity :=
  .edge [.atom { root := String.ofList (List.replicate n 'a') }, .edge [.atom { root := "b" }]]

theorem denotes_tight {n : Nat} (hn : n ≠ 0) : Denotes (tightChars n) (tight n) := by
  have hlong : SpellsAtom (List.replicate n 'a') { root := String.ofList (List.replicate n 'a') } := by
    refine .root ⟨by simpa using hn, fun c hc => ?_⟩
    rw [List.eq_of_mem_replicate hc]
    decide
  have hshort : SpellsAtom ['b'] { root := "b" } :=
    .root ⟨List.cons_ne_nil _ _, List.forall_mem_singleton.2 (by decide)⟩
  have hedge : Spells ['(', 'b', ')'] (.edge [.atom { root := "b" }]) :=
    .edge isBlanks_nil (.one (.atom hshort)) isBlanks_nil
  have hinner : SpellsAll (List.replicate n 'a' ++ [] ++ ['(', 'b', ')']) _ :=
    .more (.atom hlong) isBlanks_nil (by simp [isAtom]) (.one hedge)
  have hspells := Spells.edge isBlanks_nil hinner isBlanks_nil
  refine ⟨[], tightChars n, [], by simp, isBlanks_nil, ?_, isBlanks_nil⟩
  simpa [tightChars, tight] using hspells

theorem depth_tight_le (n : Nat) : (tight n).depth ≤ maxNesting := by
  have hlevels : (tight n).depth ≤ 1 + 1 := depth_edge_le.2 (by simp [depth, maxDepth])
  exact Nat.le_trans hlevels (by decide)

theorem byteLength_replicate_a (n : Nat) : byteLength (List.replicate n 'a') = n := by
  have hletter : 'a'.utf8Size = 1 := by decide
  induction n with
  | zero => rfl
  | succ n ih => rw [List.replicate_succ, byteLength_cons, ih, hletter, Nat.add_comm]

theorem byteLength_tightChars (n : Nat) : byteLength (tightChars n) = n + 5 := by
  have hopening : '('.utf8Size = 1 := by decide
  have hrest : byteLength ['(', 'b', ')', ')'] = 4 := by decide
  rw [tightChars, byteLength_cons, byteLength_append, byteLength_replicate_a, hopening, hrest]
  omega

theorem utf8ByteSize_toText_tight (n : Nat) : (tight n).toText.utf8ByteSize = n + 6 := by
  have hchars : (tight n).chars =
      '(' :: (List.replicate n 'a' ++ [' ', '(', 'b', ')', ')']) := by
    simp [tight, chars, charsAll, charsAfter, Atom.toText]
  have hopening : '('.utf8Size = 1 := by decide
  have hrest : byteLength [' ', '(', 'b', ')', ')'] = 5 := by decide
  rw [← byteLength_toList, toList_toText, hchars, byteLength_cons, byteLength_append,
    byteLength_replicate_a, hopening, hrest]
  omega

/-- A text of the greatest length is read, and what was read is printed with a byte too many. -/
theorem parse_toText_tight :
    parse (String.ofList (tightChars 1048571)) = .ok (tight 1048571) ∧
      parse (tight 1048571).toText =
        .error (.parse "input length 1048577 exceeds maximum 1048576 bytes" 0) := by
  have hlength : (String.ofList (tightChars 1048571)).utf8ByteSize = 1048576 := by
    rw [← byteLength_toList, String.toList_ofList, byteLength_tightChars]
  have hsize := utf8ByteSize_toText_tight 1048571
  constructor
  · rw [parse_eq_ok_iff, hlength, String.toList_ofList]
    exact ⟨by decide, depth_tight_le _, denotes_tight (by decide)⟩
  · rw [parse, readSized, hsize]
    rfl

end Entity

end SemanticHypergraph
