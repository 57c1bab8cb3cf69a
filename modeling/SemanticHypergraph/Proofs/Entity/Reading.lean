import SemanticHypergraph.Proofs.Entity.Grammar

/-!
# Reading accepts the grammar

A text of at most `maxTextLength` bytes is read as an entity exactly where it denotes the entity and
the entity is nested at most `maxNesting` deep.
-/
namespace SemanticHypergraph.Entity

open Text

theorem exists_word_token {ts : List Token} {w : List Char}
    (h : ts.map Token.lexeme = [.word w]) : ∃ p, ts = [.word p w] := by
  obtain ⟨t, none, rfl, ht, hnone⟩ := List.map_eq_cons_iff.1 h
  rw [List.map_eq_nil_iff.1 hnone]
  cases t with
  | opening => cases ht
  | closing => cases ht
  | word p v =>
    cases ht
    exact ⟨p, rfl⟩

theorem exists_edge_tokens {ts : List Token} {xs : List Lexeme}
    (h : ts.map Token.lexeme = .opening :: (xs ++ [.closing])) :
    ∃ p q inner, ts = .opening p :: (inner ++ [.closing q]) ∧ inner.map Token.lexeme = xs := by
  obtain ⟨first, others, rfl, hfirst, hothers⟩ := List.map_eq_cons_iff.1 h
  obtain ⟨inner, last, rfl, hinner, hlast⟩ := List.map_eq_append_iff.1 hothers
  obtain ⟨last, none, rfl, hlast, hnone⟩ := List.map_eq_cons_iff.1 hlast
  rw [List.map_eq_nil_iff.1 hnone]
  cases first <;> cases hfirst
  cases last <;> cases hlast
  exact ⟨_, _, inner, rfl, hinner⟩

/-! ## What the grammar derives is read -/

mutual

/-- Inside an edge an entity is read as its next child, if enough of the depth is left. -/
theorem readInside_derives {ts rest : List Token} {e : Entity} (top : OpenEdge)
    (below : List OpenEdge) : {xs : List Lexeme} → Derives xs e → ts.map Token.lexeme = xs →
      below.length + 1 + e.depth ≤ maxNesting →
      readInside top below (ts ++ rest) =
        readInside { top with children := e :: top.children } below rest
  | _, .atom ha, hts, _ => by
    obtain ⟨p, rfl⟩ := exists_word_token hts
    simp [readInside, Atom.ofWord_of_spells ha p]
  | _, @Derives.edge _ cs hne hcs, hts, hdepth => by
    obtain ⟨p, q, inner, rfl, hinner⟩ := exists_edge_tokens hts
    -- The edge takes one level, and its children are read one level further in.
    have hlevels : depth (.edge cs) ≤ maxNesting - below.length - 2 + 1 := by omega
    have hroom : ¬ maxNesting ≤ below.length + 1 := by
      have hpos : 0 < depth (.edge cs) := Nat.succ_pos _
      omega
    have hdepths : ∀ c ∈ cs, (top :: below).length + 1 + c.depth ≤ maxNesting := by
      intro c hc
      have hchild := depth_edge_le.1 hlevels c hc
      rw [List.length_cons]
      omega
    rw [List.cons_append, List.append_assoc, readInside, if_neg hroom,
      readInside_derivesAll _ (top :: below) hcs hinner hdepths]
    simp [readInside, hne]

theorem readInside_derivesAll {ts rest : List Token} {es : List Entity} (top : OpenEdge)
    (below : List OpenEdge) : {xs : List Lexeme} → DerivesAll xs es → ts.map Token.lexeme = xs →
      (∀ e ∈ es, below.length + 1 + e.depth ≤ maxNesting) →
      readInside top below (ts ++ rest) =
        readInside { top with children := es.reverse ++ top.children } below rest
  | _, .nil, hts, _ => by
    cases List.map_eq_nil_iff.1 hts
    rfl
  | _, .cons he hes, hts, hdepth => by
    obtain ⟨first, others, rfl, hfirst, hothers⟩ := List.map_eq_append_iff.1 hts
    obtain ⟨hdepth, hdepths⟩ := List.forall_mem_cons.1 hdepth
    rw [List.append_assoc, readInside_derives top below he hfirst hdepth,
      readInside_derivesAll _ below hes hothers hdepths]
    simp

end

theorem readTokens_derives {ts : List Token} {e : Entity} (finish : Nat)
    (h : Derives (ts.map Token.lexeme) e) (hdepth : e.depth ≤ maxNesting) :
    readTokens finish ts = .ok e := by
  generalize hxs : ts.map Token.lexeme = xs at h
  cases h with
  | atom ha =>
    obtain ⟨p, rfl⟩ := exists_word_token hxs
    simp [readTokens, ensureEnd, Atom.ofWord_of_spells ha p]
  | @edge _ cs hne hcs =>
    obtain ⟨p, q, inner, rfl, hinner⟩ := exists_edge_tokens hxs
    have hlevels : depth (.edge cs) ≤ maxNesting - 1 + 1 := by
      rw [Nat.sub_add_cancel (by decide)]
      exact hdepth
    have hdepths : ∀ c ∈ cs, ([] : List OpenEdge).length + 1 + c.depth ≤ maxNesting := by
      intro c hc
      have hchild := depth_edge_le.1 hlevels c hc
      have hpos : 1 ≤ maxNesting := by decide
      rw [List.length_nil]
      omega
    have hinside : readInside ⟨p, []⟩ [] (inner ++ [.closing q]) = .ok (.edge cs, []) := by
      rw [readInside_derivesAll ⟨p, []⟩ [] hcs hinner hdepths]
      simp [readInside, hne]
    simp [readTokens, hinside, ensureEnd]

/-! ## What is read the grammar derives -/

/-- The lexemes end the innermost open edge, which has these children so far (latest first), and
then those around it; `e` is the outermost. -/
def Closes : List OpenEdge → List Entity → List Lexeme → Entity → Prop
  | [], children, xs, e =>
    ∃ cs ys, DerivesAll ys cs ∧ children.reverse ++ cs ≠ [] ∧ xs = ys ++ [.closing] ∧
      e = .edge (children.reverse ++ cs)
  | outer :: below, children, xs, e =>
    ∃ cs ys zs, DerivesAll ys cs ∧ children.reverse ++ cs ≠ [] ∧ xs = ys ++ .closing :: zs ∧
      Closes below (.edge (children.reverse ++ cs) :: outer.children) zs e

theorem Closes.child {below : List OpenEdge} {children : List Entity} {c e : Entity}
    {xs ys : List Lexeme} (hc : Derives ys c) (h : Closes below (c :: children) xs e) :
    Closes below children (ys ++ xs) e := by
  cases below with
  | nil =>
    obtain ⟨cs, zs, hcs, hne, rfl, rfl⟩ := h
    exact ⟨c :: cs, ys ++ zs, .cons hc hcs, by simp, by simp, by simp⟩
  | cons outer below =>
    obtain ⟨cs, zs, last, hcs, hne, rfl, hlast⟩ := h
    refine ⟨c :: cs, ys ++ zs, last, .cons hc hcs, by simp, by simp, ?_⟩
    simpa using hlast

theorem closes_of_readInside {top : OpenEdge} {below : List OpenEdge} {ts rest : List Token}
    {e : Entity} (h : readInside top below ts = .ok (e, rest)) :
    ∃ xs, ts.map Token.lexeme = xs ++ rest.map Token.lexeme ∧ Closes below top.children xs e := by
  fun_induction readInside top below ts with
  | case1 => cases h
  | case2 => cases h
  | case3 top below p w ts a ha ih =>
    obtain ⟨xs, hxs, hcloses⟩ := ih h
    have hatom : Derives [.word w] (.atom a) := .atom (Atom.spells_of_ofWord ha)
    exact ⟨[.word w] ++ xs, by simp [hxs, Token.lexeme], hcloses.child hatom⟩
  | case4 => cases h
  | case5 top below p ts _ ih =>
    obtain ⟨xs, hxs, cs, ys, zs, hcs, hne, rfl, hcloses⟩ := ih h
    -- The edge opened here is a child like any other once it is closed.
    have hedge : Derives (.opening :: (ys ++ [.closing])) (.edge cs) := .edge hne hcs
    exact ⟨.opening :: (ys ++ [.closing]) ++ zs, by simp [hxs, Token.lexeme], hcloses.child hedge⟩
  | case6 => cases h
  | case7 top q ts hne =>
    cases h
    exact ⟨[.closing], rfl, [], [], .nil, by simpa using hne, rfl, by simp⟩
  | case8 top q ts hne outer below ih =>
    obtain ⟨xs, hxs, hcloses⟩ := ih h
    refine ⟨.closing :: xs, by simp [hxs, Token.lexeme], [], [], xs, .nil, by simpa using hne, rfl, ?_⟩
    simpa using hcloses

/-- Each open edge has room for a child of depth zero at its level, and its children fit there. -/
def Shallow : List OpenEdge → Prop
  | [] => True
  | top :: below =>
    below.length < maxNesting ∧ (∀ c ∈ top.children, below.length + 1 + c.depth ≤ maxNesting) ∧
      Shallow below

theorem Shallow.child {top : OpenEdge} {below : List OpenEdge} {c : Entity}
    (h : Shallow (top :: below)) (hc : below.length + 1 + c.depth ≤ maxNesting) :
    Shallow ({ top with children := c :: top.children } :: below) := by
  obtain ⟨hroom, hchildren, hbelow⟩ := h
  exact ⟨hroom, List.forall_mem_cons.2 ⟨hc, hchildren⟩, hbelow⟩

theorem Shallow.depth_edge {top : OpenEdge} {below : List OpenEdge} (h : Shallow (top :: below)) :
    below.length + depth (.edge top.children.reverse) ≤ maxNesting := by
  obtain ⟨hroom, hchildren, -⟩ := h
  have hlevels : depth (.edge top.children.reverse) ≤ maxNesting - below.length - 1 + 1 := by
    apply depth_edge_le.2
    intro c hc
    have hchild := hchildren c (List.mem_reverse.1 hc)
    omega
  omega

theorem depth_le_of_readInside {top : OpenEdge} {below : List OpenEdge} {ts rest : List Token}
    {e : Entity} (h : readInside top below ts = .ok (e, rest)) (hshallow : Shallow (top :: below)) :
    e.depth ≤ maxNesting := by
  fun_induction readInside top below ts with
  | case1 => cases h
  | case2 => cases h
  | case3 top below p w ts a ha ih =>
    have hroom := hshallow.1
    exact ih h (hshallow.child hroom)
  | case4 => cases h
  | case5 top below p ts hroom ih => exact ih h ⟨by simpa using hroom, by simp, hshallow⟩
  | case6 => cases h
  | case7 top q ts hne =>
    cases h
    simpa using hshallow.depth_edge
  | case8 top q ts hne outer below ih =>
    have hedge := hshallow.depth_edge
    rw [List.length_cons] at hedge
    exact ih h (hshallow.2.2.child hedge)

theorem eq_nil_of_ensureEnd {d e : Entity} {ts : List Token} (h : ensureEnd d ts = .ok e) :
    ts = [] ∧ d = e := by
  rcases ts with _ | ⟨t, ts⟩
  · exact ⟨rfl, Except.ok.inj h⟩
  · cases t <;> cases h

theorem derives_of_readTokens {finish : Nat} {ts : List Token} {e : Entity}
    (h : readTokens finish ts = .ok e) :
    Derives (ts.map Token.lexeme) e ∧ e.depth ≤ maxNesting := by
  unfold readTokens at h
  split at h
  · cases h
  · cases h
  · split at h
    · cases h
    · next ha =>
      obtain ⟨rfl, rfl⟩ := eq_nil_of_ensureEnd h
      exact ⟨.atom (Atom.spells_of_ofWord ha), Nat.zero_le _⟩
  · split at h
    · cases h
    · next p ts _ e rest hinside =>
      obtain ⟨rfl, rfl⟩ := eq_nil_of_ensureEnd h
      obtain ⟨xs, hxs, cs, ys, hcs, hne, rfl, rfl⟩ := closes_of_readInside hinside
      have hdepth := depth_le_of_readInside hinside ⟨by decide, by simp, trivial⟩
      refine ⟨?_, hdepth⟩
      have hedge : Derives (.opening :: (ys ++ [.closing])) (.edge cs) := .edge hne hcs
      simpa [Token.lexeme, hxs] using hedge

theorem readTokens_eq_ok_iff {finish : Nat} {ts : List Token} {e : Entity} :
    readTokens finish ts = .ok e ↔ Derives (ts.map Token.lexeme) e ∧ e.depth ≤ maxNesting :=
  ⟨derives_of_readTokens, fun h => readTokens_derives finish h.1 h.2⟩

theorem readSized_eq_ok_iff {length : Nat} {cs : List Char} {e : Entity} :
    readSized length cs = .ok e ↔
      length ≤ maxTextLength ∧ e.depth ≤ maxNesting ∧ Denotes cs e := by
  unfold readSized
  split
  · next hlong => simp [Nat.not_le.2 hlong]
  · next hshort =>
    rw [readTokens_eq_ok_iff, Token.map_lexeme_scan, denotes_iff]
    simp [Nat.not_lt.1 hshort, and_comm]

/-- Exactly the texts that denote an entity within the two limits are read, each as the one entity
that it denotes; no text, of whatever length and depth, denotes two. -/
theorem parse_accepts_grammar :
    (∀ (text : String) (e : Entity), parse text = .ok e ↔
      text.utf8ByteSize ≤ maxTextLength ∧ e.depth ≤ maxNesting ∧ Denotes text.toList e) ∧
    ∀ (text : String) (e e' : Entity), Denotes text.toList e → Denotes text.toList e' → e = e' := by
  constructor
  · intro text e
    rw [← readSized_eq_ok_iff, parse]
    cases readSized text.utf8ByteSize text.toList <;> simp [Except.mapError]
  · intro text e e' h h'
    exact (denotes_iff.1 h).unique (denotes_iff.1 h')

/-- Neighbours may touch where one of them is an edge. -/
theorem denotes_touching_neighbours :
    Denotes " ( a(b/t c//n)d)".toList
      (.edge [.atom { root := "a" },
        .edge [.atom { root := "b", kind := some "t" }, .atom { root := "c", scope := some "n" }],
        .atom { root := "d" }]) :=
  ((parse_accepts_grammar.1 _ _).1 rfl).2.2

end SemanticHypergraph.Entity
