import SemanticHypergraph.Http.Server

/-!
# Only who shows the key is let in

Comparing two keys byte by byte, with zeros after the shorter one, and then their lengths is the same
as comparing them. So a request is admitted exactly if its first header of that name says the key. What
is admitted is answered as if there were no key, and that is never a denial; what is not admitted is
denied before the store is looked at.
-/
namespace SemanticHypergraph.Http

/-! ## Comparing keys -/

/-- What was found different so far stays, and any two bytes that differ add to it. -/
theorem foldl_difference_eq_zero_iff (pairs : List (UInt8 × UInt8)) (d : UInt8) :
    pairs.foldl (fun d (x, y) => d ||| (x ^^^ y)) d = 0 ↔ d = 0 ∧ ∀ p ∈ pairs, p.1 = p.2 := by
  induction pairs generalizing d with
  | nil => simp
  | cons p pairs ih =>
    rw [List.foldl_cons, ih, UInt8.or_eq_zero_iff, UInt8.xor_eq_zero_iff, List.forall_mem_cons,
      and_assoc]

/-- Nothing is put after lists of the same length. -/
theorem padded_of_length_eq {a b : List UInt8} (h : a.length = b.length) : padded a b = a.zip b := by
  simp [padded, h]

theorem forall_mem_zip_iff {α : Type} {a b : List α} (hlength : a.length = b.length) :
    (∀ p ∈ a.zip b, p.1 = p.2) ↔ a = b := by
  induction a generalizing b with
  | nil =>
    cases b with
    | nil => simp
    | cons y b => cases hlength
  | cons x a ih =>
    cases b with
    | nil => cases hlength
    | cons y b =>
      rw [List.zip_cons_cons, List.forall_mem_cons, ih (Nat.succ.inj hlength), List.cons.injEq]

theorem keyMatches_iff (a b : String) : keyMatches a b = true ↔ a = b := by
  have hbytes : a.toUTF8.data.toList = b.toUTF8.data.toList ↔ a = b := by
    rw [Array.toList_inj, ← ByteArray.ext_iff]
    exact String.toByteArray_inj
  simp only [keyMatches, Bool.and_eq_true, beq_iff_eq, foldl_difference_eq_zero_iff, true_and]
  constructor
  · rintro ⟨hpairs, hlength⟩
    rw [padded_of_length_eq hlength, forall_mem_zip_iff hlength] at hpairs
    exact hbytes.1 hpairs
  · rintro rfl
    rw [padded_of_length_eq rfl, forall_mem_zip_iff rfl]
    exact ⟨rfl, rfl⟩

/-- Without the comparison of the lengths these would match. -/
example : keyMatches "s3cret\x00" "s3cret" = false := by decide

/-! ## Showing the key -/

/-- The first header of that name is readable and says the key, after one scheme name or, where it
has none, as it is. -/
def Shows (key : String) (r : Request) : Prop :=
  ∃ before text after, r.headers = before ++ ("authorization", text) :: after ∧
    (∀ header ∈ before, header.1 ≠ "authorization") ∧
    (∀ c ∈ text.toList, isHeaderChar c = true) ∧
    (text = "Bearer " ++ key ∨ text = key ∧ ¬ "Bearer ".toList <+: text.toList)

theorem credential_scheme (rest : String) : credential ("Bearer " ++ rest) = rest := by
  have hlist : ("Bearer " ++ rest).toList = "Bearer ".toList ++ rest.toList := String.toList_append
  have hprefix : "Bearer ".toList.isPrefixOf ("Bearer ".toList ++ rest.toList) = true :=
    List.isPrefixOf_iff_prefix.2 (List.prefix_append _ _)
  have hdrop : ("Bearer ".toList ++ rest.toList).drop 7 = rest.toList :=
    List.drop_left' (by decide)
  rw [credential, hlist, if_pos hprefix, hdrop, String.ofList_toList]

theorem credential_plain {text : String} (h : ¬ "Bearer ".toList <+: text.toList) :
    credential text = text := by
  rw [credential, if_neg (by rwa [List.isPrefixOf_iff_prefix])]

theorem credential_eq_iff {text key : String} : credential text = key ↔
    text = "Bearer " ++ key ∨ text = key ∧ ¬ "Bearer ".toList <+: text.toList := by
  constructor
  · intro h
    by_cases hscheme : "Bearer ".toList <+: text.toList
    · obtain ⟨rest, hrest⟩ := hscheme
      have htext : text = "Bearer " ++ String.ofList rest := by
        rw [← String.toList_inj, ← hrest]
        simp
      rw [htext, credential_scheme] at h
      exact .inl (h ▸ htext)
    · exact .inr ⟨credential_plain hscheme ▸ h, hscheme⟩
  · rintro (rfl | ⟨rfl, hscheme⟩)
    · exact credential_scheme key
    · exact credential_plain hscheme

theorem header?_eq_some_iff {r : Request} {name text : String} : r.header? name = some text ↔
    ∃ before after, r.headers = before ++ (name, text) :: after ∧
      ∀ header ∈ before, header.1 ≠ name := by
  rw [Request.header?, List.lookup_eq_some_iff]
  simp only [bne_iff_ne, ne_comm]

theorem showsKey_iff {r : Request} {key : String} :
    showsKey (r.header? "authorization") key = true ↔ Shows key r := by
  simp only [showsKey, Option.any_eq_true, Bool.and_eq_true, keyMatches_iff, credential_eq_iff,
    isHeaderText, List.all_eq_true, header?_eq_some_iff]
  constructor
  · rintro ⟨text, ⟨before, after, hheaders, hfirst⟩, hreadable, hkey⟩
    exact ⟨before, text, after, hheaders, hfirst, hreadable, hkey⟩
  · rintro ⟨before, text, after, hheaders, hfirst, hreadable, hkey⟩
    exact ⟨text, ⟨before, after, hheaders, hfirst⟩, hreadable, hkey⟩

/-! ## Answers -/

theorem statusOf_ne_denied (e : Error) : statusOf e ≠ 401 := by
  cases e <;> simp [statusOf]

theorem Failure.status_ne_denied (failure : Failure) : failure.status ≠ 401 := by
  cases failure with
  | invalidEntity => simp [status]
  | unnamedAttribute => simp [status]
  | refused task e => exact statusOf_ne_denied e

theorem perform_status_ne_denied (call : Call) (s : Store) : (perform call s).1.status ≠ 401 := by
  change (Answer.ofOutcome call (call.perform s).1).status ≠ 401
  cases (call.perform s).1 with
  | ok reply => exact (by decide : 200 ≠ 401)
  | error failure => exact failure.status_ne_denied

theorem report_status (r : Request) (a : Answer) : (report r a).status = a.status := by
  unfold report
  split <;> rfl

theorem statusAnswer_status_ne_denied (s : Store) : (statusAnswer s).status ≠ 401 := by
  unfold statusAnswer
  split
  · exact (by decide : 200 ≠ 401)
  · next e _ => exact statusOf_ne_denied e

theorem readCall_status_ne_denied {bodyLimit : Nat} {kind : CallKind} {r : Request}
    {outcome : Outcome} (h : readCall bodyLimit kind r = .error outcome) : outcome.status ≠ 401 := by
  unfold readCall at h
  split at h
  · cases h
    decide
  · split at h
    · cases h
      decide
    · cases hbody : kind.ofBody r.body with
      | ok call =>
        rw [hbody] at h
        cases h
      | error fault =>
        rw [hbody] at h
        cases h
        cases fault <;> decide

/-- An endpoint denies nobody who gets as far as there. -/
theorem Endpoint.serve_status_ne_denied (endpoint : Endpoint) (bodyLimit : Nat) (r : Request)
    (s : Store) : (endpoint.serve bodyLimit r s).1.status ≠ 401 := by
  cases endpoint with
  | health =>
    rw [serve, report_status]
    decide
  | status =>
    rw [serve, report_status]
    exact statusAnswer_status_ne_denied s
  | call kind =>
    rw [serve]
    split
    · exact perform_status_ne_denied _ s
    · next outcome h => exact readCall_status_ne_denied h
  | exportAll => exact perform_status_ne_denied .exportAll s

namespace Server

variable {r : Request} {endpoint : Endpoint}

/-- An endpoint that is not open is reached by what is admitted alone. -/
theorem route_endpoint (server : Server) (hmethod : r.method ≠ "OPTIONS")
    (hpath : Endpoint.ofPath? r.path = some endpoint) (hclosed : endpoint ≠ .health) (s : Store) :
    server.route r s = if server.admits r then
        if endpoint.allows r.method then endpoint.serve server.bodyLimit r s
        else ({ status := 405 }, s)
      else (.denial r true, s) := by
  have hopen : endpoint.isOpen = false := by simpa [Endpoint.isOpen] using hclosed
  simp only [route, if_neg hmethod, hpath, Option.any_some, hopen, Bool.false_or,
    Bool.not_eq_true', Option.isSome_some]
  cases server.admits r <;> rfl

theorem respond_eq (server : Server) (r : Request) (s : Store) :
    server.respond r s = (⟨(server.route r s).1.status, (server.route r s).1.body,
      server.origins.answer (r.header? "origin")⟩, (server.route r s).2) := rfl

theorem admits_ofEnvironment_iff {key : String} (hkey : key ≠ "") (origins : Option String)
    (bodyLimit : Nat) : (ofEnvironment (some key) origins bodyLimit).admits r = true ↔
      Shows key r := by
  have hrequired : requiredKey (some key) = some key := by
    simpa [requiredKey] using hkey
  rw [admits, ofEnvironment, hrequired, Option.all_some, showsKey_iff]

theorem route_of_not_admits {server : Server} (hmethod : r.method ≠ "OPTIONS")
    (hpath : Endpoint.ofPath? r.path = some endpoint) (hclosed : endpoint ≠ .health)
    (h : server.admits r = false) (s : Store) : server.route r s = (.denial r true, s) := by
  rw [route_endpoint server hmethod hpath hclosed, h]
  rfl

theorem respond_status_ne_denied {server : Server} (hmethod : r.method ≠ "OPTIONS")
    (hpath : Endpoint.ofPath? r.path = some endpoint) (hclosed : endpoint ≠ .health)
    (h : server.admits r = true) (s : Store) : (server.respond r s).1.status ≠ 401 := by
  rw [respond_eq, route_endpoint server hmethod hpath hclosed, if_pos h]
  split
  · exact endpoint.serve_status_ne_denied server.bodyLimit r s
  · exact (by decide : 405 ≠ 401)

/-- With a key in the environment a request to an endpoint that is not open is answered as without
one, and does the same to the store, exactly if it shows the key. If it does not, it is denied, the
store stays as it is, and the answer tells nothing about it. Keys match only if they are equal. -/
theorem respond_guarded {key : String} (hkey : key ≠ "") (origins : Option String)
    (bodyLimit : Nat) (hmethod : r.method ≠ "OPTIONS")
    (hpath : Endpoint.ofPath? r.path = some endpoint) (hclosed : endpoint ≠ .health) :
    let server := Server.ofEnvironment (some key) origins bodyLimit
    let unguarded := Server.ofEnvironment none origins bodyLimit
    (∀ s, server.respond r s = unguarded.respond r s ↔ Shows key r) ∧
    (¬ Shows key r → ∀ s, (server.respond r s).1.status = 401 ∧ (server.respond r s).2 = s ∧
      ∀ t, (server.respond r t).1 = (server.respond r s).1) ∧
    ∀ a b, keyMatches a b = true ↔ a = b := by
  intro server unguarded
  have hadmits : server.admits r = true ↔ Shows key r := admits_ofEnvironment_iff hkey _ _
  have hfree : unguarded.admits r = true := rfl
  have hdenied : ¬ Shows key r → ∀ s, server.route r s = (.denial r true, s) := by
    intro hshows
    rw [← hadmits, Bool.not_eq_true] at hshows
    exact route_of_not_admits hmethod hpath hclosed hshows
  refine ⟨fun s => ⟨fun hsame => ?_, fun hshows => ?_⟩, fun hshows s => ?_, keyMatches_iff⟩
  · refine Classical.byContradiction fun hshows => ?_
    apply respond_status_ne_denied hmethod hpath hclosed hfree s
    rw [← hsame, respond_eq, hdenied hshows]
    rfl
  · rw [respond_eq, respond_eq, route_endpoint server hmethod hpath hclosed,
      route_endpoint unguarded hmethod hpath hclosed, if_pos (hadmits.2 hshows), if_pos hfree]
    rfl
  · -- The one answer is made of the request alone.
    have hanswer : ∀ t, server.respond r t = (⟨401, (Outcome.denial r true).body,
        server.origins.answer (r.header? "origin")⟩, t) := by
      intro t
      rw [respond_eq, hdenied hshows]
      rfl
    exact ⟨by rw [hanswer], by rw [hanswer], fun t => by rw [hanswer, hanswer]⟩

/-- One scheme name may stand before the key, or none. After two of them it is another key. -/
theorem respond_guarded_twice :
    let plain : Request := ⟨"POST", "/add", [("authorization", "s3cret")], "not read"⟩
    let twice : Request := ⟨"POST", "/add", [("authorization", "Bearer Bearer s3cret")], "not read"⟩
    let server := Server.ofEnvironment (some "s3cret") none 1024
    (∀ s, server.respond plain s = (Server.ofEnvironment none none 1024).respond plain s) ∧
      ∀ s, (server.respond twice s).1.status = 401 ∧ (server.respond twice s).2 = s ∧
        ∀ t, (server.respond twice t).1 = (server.respond twice s).1 := by
  intro plain twice server
  have hkey : "s3cret" ≠ "" := by decide
  have hpath : Endpoint.ofPath? plain.path = some (.call .add) := by decide
  have hplain := respond_guarded hkey none 1024 (by decide : plain.method ≠ "OPTIONS") hpath
    (by decide)
  have htwice := respond_guarded hkey none 1024 (by decide : twice.method ≠ "OPTIONS") hpath
    (by decide)
  constructor
  · intro s
    refine (hplain.1 s).2 (showsKey_iff.1 ?_)
    decide
  · apply htwice.2.1
    rw [← showsKey_iff]
    decide

end Server

end SemanticHypergraph.Http
