import SemanticHypergraph.Http.Access
import SemanticHypergraph.Http.Answer
import SemanticHypergraph.Http.Body
import SemanticHypergraph.Http.MediaType
import SemanticHypergraph.Json.Writing
import SemanticHypergraph.Settings.Application
import SemanticHypergraph.Store.Basic

/-!
# The server

A request goes through three gates: it must show the key if one is required, its path and method must
be offered, and its body must be JSON that reads as a call. A request that fails at a gate never
reaches the store. Questions about permission to ask are answered before all gates.
-/
namespace SemanticHypergraph.Http

/-- The release that the server reports. -/
def version : String := "0.4.2"

inductive Endpoint where
  | health
  | status
  | call (kind : CallKind)
  | exportAll
  deriving DecidableEq, Repr

namespace Endpoint

def table : List (String × Endpoint) := [
  ("/health", health),
  ("/status", status),
  ("/add", call .add),
  ("/remove", call .remove),
  ("/exists", call .lookUp),
  ("/match", call .find),
  ("/star", call .star),
  ("/ego", call .ego),
  ("/degree", call .degree),
  ("/remove_pattern", call .removeMatching),
  ("/attribute", call .attribute),
  ("/export", exportAll)]

def ofPath? (path : String) : Option Endpoint := table.lookup path

/-- Reports are fetched, all else is posted. -/
def allows (endpoint : Endpoint) (method : String) : Bool :=
  match endpoint with
  | health => method == "GET" || method == "HEAD"
  | status => method == "GET" || method == "HEAD"
  | _ => method == "POST"

/-- Whoever watches over the server needs no key to see that it runs. -/
def isOpen (endpoint : Endpoint) : Bool := endpoint == health

end Endpoint

/-- The names of headers are in lower case. -/
structure Request where
  method : String
  target : String
  headers : List (String × String)
  body : String
  deriving DecidableEq, Repr

namespace Request

/-- The first header of that name. -/
def header? (r : Request) (name : String) : Option String := r.headers.lookup name

def endsPath (c : Char) : Bool := c == '?' || c == '#'

/-- What follows the host of a full address; nothing follows where there is only a host. -/
def afterHost? : List Char → Option (List Char)
  | ':' :: '/' :: '/' :: rest => some (rest.dropWhile fun c => c != '/' && !endsPath c)
  | _ :: cs => afterHost? cs
  | [] => none

def pathOf (target : List Char) : List Char :=
  let path := fun cs : List Char => cs.takeWhile fun c => !endsPath c
  match target with
  | '/' :: _ => path target
  | ['*'] => target
  | _ =>
    match (afterHost? target).map path with
    | some [] => ['/']
    | some cs => cs
    | none => []

/-- The target without its host and its query. The path of a full address is never empty. -/
def path (r : Request) : String := String.ofList (pathOf r.target.toList)

def hasJson (r : Request) : Bool :=
  (r.header? "content-type").any fun type => isHeaderText type && namesJson type

end Request

/-- A body is given where its text is part of the answer: in JSON and with a denial. -/
structure Response where
  status : Nat
  body : Option String
  allowOrigin : Option String
  deriving DecidableEq, Repr

/-- What a server is told when it starts. -/
structure Server where
  key : Option String
  origins : Origins
  bodyLimit : Nat

namespace Server

/-- The server that the texts of the environment describe. -/
def ofEnvironment (key origins : Option String) (bodyLimit : Nat) : Server :=
  ⟨requiredKey key, .ofEnvironment origins, bodyLimit⟩

def admits (server : Server) (r : Request) : Bool :=
  server.key.all fun key => showsKey (r.header? "authorization") key

end Server

/-- A status without a body, or with one. -/
structure Outcome where
  status : Nat
  body : Option String := none
  deriving DecidableEq, Repr

namespace Outcome

def ofAnswer (a : Answer) : Outcome := ⟨a.status, some a.body.compact⟩

/-- A request for the head alone gets no text, unless it names a path at which nothing is
offered. -/
def denial (r : Request) (isOffered : Bool) : Outcome :=
  let namesHead := r.method = "HEAD" ∧ (isOffered ∨ r.path.toList.head? ≠ some '/')
  ⟨401, some (if namesHead then "" else "Unauthorized")⟩

/-- What a body that cannot be read is answered. -/
def ofFault : Json.Fault → Outcome
  | .malformed => { status := 400 }
  | .shape => { status := 422 }

end Outcome

def healthAnswer : Answer := ⟨200, .object [("status", .text "ok"), ("version", .text version)]⟩

def statusAnswer (s : Store) : Answer :=
  match Hypergraph.counts s with
  | .ok c => ⟨200, .object [
      ("name", .text (Hypergraph.name s)),
      ("backend", .text s.backend.word),
      ("atoms", .ofNat c.atoms),
      ("edges", .ofNat c.edges),
      ("primary_atoms", .ofNat c.primaryAtoms),
      ("primary_edges", .ofNat c.primaryEdges)]⟩
  | .error e => ⟨statusOf e, .object [("success", .flag false), ("error", .text e.message)]⟩

/-- A report, of which a request for the head alone gets no text. -/
def report (r : Request) (a : Answer) : Outcome :=
  if r.method = "HEAD" then ⟨a.status, some ""⟩ else .ofAnswer a

/-- The call that the request makes, if its body can be read. -/
def readCall (bodyLimit : Nat) (kind : CallKind) (r : Request) : Except Outcome Call :=
  if !r.hasJson then .error { status := 415 }
  else if bodyLimit < r.body.utf8ByteSize then .error { status := 413 }
  else (kind.ofBody r.body).mapError .ofFault

def perform (call : Call) (s : Store) : Outcome × Store :=
  let (answer, t) := call.answer s
  (.ofAnswer answer, t)

namespace Endpoint

/-- Answers a request that has been admitted. -/
def serve (endpoint : Endpoint) (bodyLimit : Nat) (r : Request) (s : Store) : Outcome × Store :=
  match endpoint with
  | health => (report r healthAnswer, s)
  | status => (report r (statusAnswer s), s)
  | call kind =>
    match readCall bodyLimit kind r with
    | .ok c => perform c s
    | .error outcome => (outcome, s)
  | exportAll => perform .exportAll s

end Endpoint

namespace Server

def route (server : Server) (r : Request) (s : Store) : Outcome × Store :=
  let endpoint? := Endpoint.ofPath? r.path
  if r.method = "OPTIONS" then ({ status := 200 }, s)
  else if !(endpoint?.any Endpoint.isOpen || server.admits r) then
    (.denial r endpoint?.isSome, s)
  else
    match endpoint? with
    | none => ({ status := 404 }, s)
    | some endpoint =>
      if endpoint.allows r.method then endpoint.serve server.bodyLimit r s
      else ({ status := 405 }, s)

/-- Answers the request and names the origin that may see the answer. -/
def respond (server : Server) (r : Request) (s : Store) : Response × Store :=
  let (outcome, t) := server.route r s
  (⟨outcome.status, outcome.body, server.origins.answer (r.header? "origin")⟩, t)

end Server

end SemanticHypergraph.Http
