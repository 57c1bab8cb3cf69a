import SemanticHypergraph.Proofs.Http.Access
import SemanticHypergraph.Proofs.Http.Calls

/-!
# What a request is answered

A request that makes a call is refused with 400 for what is wrong with the call, and else answered
with 200; the store is never at fault. Whatever is answered with something else than 200 has not
touched the store. No request leads to a store that operations do not lead to, so all this holds of a
server that goes on from one request to the next.
-/
namespace SemanticHypergraph

open SemanticHypergraph.Hypergraph LawfulHypergraph

namespace Http

variable {s : Store}

/-! ## Answers to calls -/

theorem perform_eq (call : Call) (s : Store) : perform call s =
    (.ofAnswer (.ofOutcome call (call.perform s).1), (call.perform s).2) := rfl

theorem perform_of_refused (hs : Consistent s) {call : Call} (h : call.Refused s) :
    (perform call s).1.status = 400 ∧ (perform call s).2 = s := by
  obtain ⟨failure, hfailure, hstatus⟩ := (refusedIf_perform hs call).refused h
  rw [perform_eq, hfailure]
  exact ⟨hstatus, rfl⟩

/-- The body of a success says so first. -/
theorem Answer.ofReply_eq_object (reply : Reply) :
    ∃ members, Answer.ofReply reply = .object (("success", .flag true) :: members) := by
  cases reply <;> exact ⟨_, rfl⟩

theorem perform_of_not_refused (hs : Consistent s) {call : Call} (h : ¬ call.Refused s) :
    (perform call s).1.status = 200 ∧ ∃ members, (perform call s).1.body =
      some (Json.Value.object (("success", .flag true) :: members)).compact := by
  obtain ⟨reply, t, hreply⟩ := (refusedIf_perform hs call).done h
  obtain ⟨members, hmembers⟩ := Answer.ofReply_eq_object reply
  rw [perform_eq, hreply]
  refine ⟨rfl, members, ?_⟩
  rw [← hmembers]
  rfl

theorem perform_unchanged (hs : Consistent s) (call : Call)
    (h : (perform call s).1.status ≠ 200) : (perform call s).2 = s := by
  by_cases hrefused : call.Refused s
  · exact (perform_of_refused hs hrefused).2
  · exact absurd (perform_of_not_refused hs hrefused).1 h

theorem Endpoint.serve_unchanged (hs : Consistent s) (endpoint : Endpoint) (bodyLimit : Nat)
    (r : Request) (h : (endpoint.serve bodyLimit r s).1.status ≠ 200) :
    (endpoint.serve bodyLimit r s).2 = s := by
  cases endpoint with
  | health => rfl
  | status => rfl
  | call kind =>
    rw [serve] at h ⊢
    split at h
    · next c _ => exact perform_unchanged hs c h
    · rfl
  | exportAll => exact perform_unchanged hs .exportAll h

/-! ## Answers to requests -/

namespace Server

/-- The request is posted to the endpoint of a kind of call, in JSON and within the limit, and its
body reads as the call. -/
structure Receives (server : Server) (r : Request) (call : Call) : Prop where
  posted : r.method = "POST"
  isJson : r.hasJson = true
  isShort : r.body.utf8ByteSize ≤ server.bodyLimit
  reads : ∃ kind, Endpoint.ofPath? r.path = some (.call kind) ∧ kind.ofBody r.body = .ok call

theorem readCall_of_receives {bodyLimit : Nat} {kind : CallKind} {r : Request} {call : Call}
    (hjson : r.hasJson = true) (hshort : r.body.utf8ByteSize ≤ bodyLimit)
    (hbody : kind.ofBody r.body = .ok call) : readCall bodyLimit kind r = .ok call := by
  rw [readCall, hjson, if_neg (by decide), if_neg (Nat.not_lt.2 hshort), hbody]
  rfl

/-- Without a key such a request is answered as the call is. -/
theorem Receives.route_eq {server : Server} {r : Request} {call : Call} (h : server.Receives r call)
    (hkey : server.key = none) (s : Store) : server.route r s = perform call s := by
  obtain ⟨kind, hpath, hbody⟩ := h.reads
  have hadmits : server.admits r = true := by rw [admits, hkey, Option.all_none]
  have hmethod : r.method ≠ "OPTIONS" := by rw [h.posted]; decide
  have hallows : (Endpoint.call kind).allows r.method = true := by rw [h.posted]; rfl
  rw [route_endpoint server hmethod hpath (by simp), if_pos hadmits, if_pos hallows,
    Endpoint.serve, readCall_of_receives h.isJson h.isShort hbody]

/-- A request is served at an endpoint or turned away without a look at the store. -/
theorem route_cases (server : Server) (r : Request) (s : Store) :
    (∃ outcome, server.route r s = (outcome, s)) ∨
      ∃ endpoint : Endpoint, server.route r s = endpoint.serve server.bodyLimit r s := by
  simp only [route]
  split
  · exact .inl ⟨_, rfl⟩
  · split
    · exact .inl ⟨_, rfl⟩
    · split
      · exact .inl ⟨_, rfl⟩
      · next endpoint _ =>
        split
        · exact .inr ⟨endpoint, rfl⟩
        · exact .inl ⟨_, rfl⟩

theorem route_unchanged (hs : Consistent s) (server : Server) (r : Request)
    (h : (server.route r s).1.status ≠ 200) : (server.route r s).2 = s := by
  obtain ⟨outcome, hroute⟩ | ⟨endpoint, hroute⟩ := server.route_cases r s
  · rw [hroute]
  · rw [hroute] at h ⊢
    exact endpoint.serve_unchanged hs server.bodyLimit r h

/-- On every reachable store a request that makes a call of a server without a key is refused with 400
exactly for what is wrong with the call, and else answered with 200 and a body that says that it was a
success. Any request at all that any server answers with something else than 200 leaves the store as
it was. -/
theorem respond_contract (hs : s.Reachable) :
    (∀ (server : Server) (r : Request) (call : Call), server.key = none → server.Receives r call →
      ((server.respond r s).1.status = 400 ↔ call.Refused s) ∧
      (¬ call.Refused s → (server.respond r s).1.status = 200 ∧
        ∃ members, (server.respond r s).1.body =
          some (Json.Value.object (("success", .flag true) :: members)).compact)) ∧
    ∀ (server : Server) (r : Request), (server.respond r s).1.status ≠ 200 →
      (server.respond r s).2 = s := by
  refine ⟨fun server r call hkey h => ?_, fun server r => route_unchanged hs.consistent server r⟩
  have hroute := h.route_eq hkey s
  simp only [respond_eq, hroute]
  refine ⟨⟨fun h400 => ?_, fun hrefused => (perform_of_refused hs.consistent hrefused).1⟩,
    perform_of_not_refused hs.consistent⟩
  -- Nothing but what is wrong with the call is answered with 400: the store itself never fails.
  refine Classical.byContradiction fun hnot => ?_
  rw [(perform_of_not_refused hs.consistent hnot).1] at h400
  cases h400

/-- A step from a text is refused; from an attribute that is absent it is made. -/
theorem respond_contract_step :
    let a : Entity := .atom { root := "a" }
    let s := Operation.run [.add a, .change (.setAttribute a "k" (.text "v"))]
      (Store.empty .file "test" .preserve)
    let server : Server := ⟨none, .any, 1024⟩
    let inc := fun body : String =>
      (⟨"POST", "/attribute", [("content-type", "application/json")], body⟩ : Request)
    let refused := inc "[\"inc\",\"a\",\"k\"]"
    (server.respond refused s).1.status = 400 ∧ (server.respond refused s).2 = s ∧
      (server.respond (inc "[\"inc\",\"a\",\"n\"]") s).1.status = 200 := by
  intro a s server inc refused
  have hs : s.Reachable := (Store.Reachable.empty .file "test" .preserve).run _
  have hparse : Entity.parse "a" = .ok a := rfl
  have htext : server.Receives refused (.attribute "a" "k" (.step .up)) :=
    ⟨rfl, by decide +kernel, by decide +kernel, .attribute, by decide, by decide +kernel⟩
  have hnew : server.Receives (inc "[\"inc\",\"a\",\"n\"]") (.attribute "a" "n" (.step .up)) :=
    ⟨rfl, by decide +kernel, by decide +kernel, .attribute, by decide, by decide +kernel⟩
  obtain ⟨hcontract, hunchanged⟩ := respond_contract hs
  have hvalue : attributeOf s a "k" = .ok (some (.text "v")) := by decide +kernel
  have hstatus := (hcontract server refused _ rfl htext).1.2 (.step .up hparse hvalue)
  refine ⟨hstatus, hunchanged server refused (by rw [hstatus]; decide), ?_⟩
  refine ((hcontract server _ _ rfl hnew).2 fun hrefused => ?_).1
  rcases refused_attribute.1 hrefused with hunreadable | ⟨e, he, hname | ⟨step, text, -, habsent⟩⟩
  · exact not_unreadable hparse hunreadable
  · exact absurd hname (by decide)
  · obtain rfl : a = e := Except.ok.inj (hparse.symm.trans he)
    have hnone : attributeOf s a "n" = .ok none := by decide +kernel
    rw [hnone] at habsent
    cases habsent

end Server

/-! ## From request to request -/

/-- A property of stores that the work keeps. -/
def Work.Keeps {σ α : Type} (P : σ → Prop) (w : Work σ α) : Prop := ∀ s, P s → P (w s).2

section Keeps

variable {σ α β : Type} {P : σ → Prop}

theorem Work.Keeps.during {u : Update σ α} (h : Update.Keeps P u) (task : String) :
    Work.Keeps P (Work.during task u) := h

theorem Work.Keeps.map {w : Work σ α} (h : Work.Keeps P w) (f : α → β) :
    Work.Keeps P (do return f (← w)) := by
  intro s hs
  rw [Work.map_apply]
  exact h s hs

theorem Work.Keeps.withEntity {work : Entity → Work σ α} (h : ∀ e, Work.Keeps P (work e))
    (text : String) : Work.Keeps P (Work.withEntity text work) := by
  intro s hs
  rw [Work.withEntity]
  cases readEntity text with
  | ok e => exact h e s hs
  | error error => exact hs

end Keeps

theorem reachable_of_byChanges {α : Type} {u : Update Store α} (h : ByChanges u) :
    Update.Keeps Store.Reachable u := by
  intro s hs
  obtain ⟨cs, -, hcs⟩ := h s
  rw [hcs]
  clear hcs
  induction cs generalizing s with
  | nil => exact hs
  | cons c cs ih => exact ih _ (hs.perform (.change c))

theorem reachable_action (e : Entity) (name : String) (action : AttributeAction) :
    Update.Keeps Store.Reachable (action.perform e name) := by
  cases action with
  | get => exact .ask _
  | set value =>
    refine (reachable_of_byChanges (byChanges_setAttribute e name value)).bind fun found => ?_
    cases found with
    | true => exact .ask _
    | false => exact .pure none
  | step step =>
    exact reachable_of_byChanges
      (.of_change (.stepAttribute e name step) nofun (Change.state_stepAttribute e name step))

/-- A call does to a store what operations do. -/
theorem Call.keeps_reachable (call : Call) : Work.Keeps Store.Reachable call.perform := by
  have hask : ∀ {α : Type} (task : String) (query : Store → Except Error α),
      Work.Keeps Store.Reachable (Work.asking task query) := fun _ _ _ hs => hs
  cases call with
  | add text isPrimary =>
    have hadd : ∀ e, Update.Keeps Store.Reachable (addMarked e isPrimary) := fun e =>
      (reachable_of_byChanges (byChanges_addWith e isPrimary)).bind fun _ => .ask _
    exact .withEntity (fun e => (Work.Keeps.during (hadd e) _).map _) text
  | remove text removal =>
    have hremove : ∀ e, Update.Keeps Store.Reachable (removeWith e removal) := fun e =>
      reachable_of_byChanges (byChanges_removeWith e removal)
    exact .withEntity (fun e => (Work.Keeps.during (hremove e) _).map _) text
  | lookUp text => exact .withEntity (fun e => (hask _ _).map _) text
  | find pattern limit => exact (hask _ _).map _
  | star text limit => exact .withEntity (fun e => (hask _ _).map _) text
  | ego text => exact .withEntity (fun e => (hask _ _).map _) text
  | degree text isDeep => exact .withEntity (fun e => (hask _ _).map _) text
  | removeMatching pattern =>
    have hremove := reachable_of_byChanges (byChanges_removeText pattern)
    exact (Work.Keeps.during hremove _).map _
  | «attribute» text name action =>
    refine .withEntity (fun e => ?_) text
    have haction := Work.Keeps.during (reachable_action e name action) "Attribute failed"
    cases hname : name.isEmpty with
    | true => exact fun _ hs => hs
    | false => exact haction.map _
  | exportAll => exact (hask _ _).map _

/-- The store after the server has answered the requests, one after the other. -/
def Server.serveAll (server : Server) (rs : List Request) (s : Store) : Store :=
  rs.foldl (fun s r => (server.respond r s).2) s

theorem reachable_respond (server : Server) (r : Request) (hs : s.Reachable) :
    (server.respond r s).2.Reachable := by
  rw [Server.respond_eq]
  obtain ⟨outcome, hroute⟩ | ⟨endpoint, hroute⟩ := server.route_cases r s
  · rw [hroute]
    exact hs
  · rw [hroute]
    cases endpoint with
    | health => exact hs
    | status => exact hs
    | call kind =>
      rw [Endpoint.serve]
      split
      · next call _ => exact call.keeps_reachable s hs
      · exact hs
    | exportAll => exact Call.exportAll.keeps_reachable s hs

/-- So whatever a server is asked, its store is one that operations lead to. -/
theorem reachable_serveAll (server : Server) (rs : List Request) (hs : s.Reachable) :
    (server.serveAll rs s).Reachable := by
  induction rs generalizing s with
  | nil => exact hs
  | cons r rs ih => exact ih (reachable_respond server r hs)

end Http

end SemanticHypergraph
