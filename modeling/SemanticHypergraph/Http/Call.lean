import SemanticHypergraph.Json.Basic
import SemanticHypergraph.Store.Transfer
import SemanticHypergraph.Text.Hex

/-!
# Calls

What a client may ask of a store, and what is answered. A text that is not understood is refused with
400, an operation that the store lacks with 501 and a failure of the store with 500; that something is
absent is never an error.
-/
namespace SemanticHypergraph.Http

open SemanticHypergraph.Hypergraph

inductive AttributeAction where
  | get
  | set (value : Value)
  | step (step : Step)
  deriving DecidableEq, Repr

inductive Call where
  | add (entity : String) (isPrimary : Bool)
  | remove (entity : String) (removal : Removal)
  | lookUp (entity : String)
  | find (pattern : String) (limit : Option Nat)
  | star (entity : String) (limit : Option Nat)
  | ego (entity : String)
  | degree (entity : String) (isDeep : Bool)
  | removeMatching (pattern : String)
  | attribute (entity name : String) (action : AttributeAction)
  | exportAll
  deriving DecidableEq, Repr

/-- What a call that succeeds answers. -/
inductive Reply where
  | entity (text : String) (found isPrimary : Bool)
  | entities (texts : List String)
  | degree (degree : Nat) (isDeep : Bool)
  | removed (count : Nat)
  | attribute (value : Option Value)
  | snapshot (s : Snapshot)

/-- Why a call fails. -/
inductive Failure where
  | invalidEntity (e : Error)
  | unnamedAttribute
  /-- The store or the pattern is at fault; `task` says what was being done. -/
  | refused (task : String) (e : Error)
  deriving DecidableEq, Repr

/-- The status of an answer that reports the error. -/
def statusOf : Error → Nat
  | .parse _ _ => 400
  | .invalidEntity _ => 400
  | .danglingChild _ _ => 400
  | .attributeType _ _ => 400
  | .config _ => 400
  | .unsupported _ => 501
  | .serialization _ => 500
  | .io _ => 500

namespace Failure

def status : Failure → Nat
  | invalidEntity _ => 400
  | unnamedAttribute => 400
  | refused _ e => statusOf e

def message : Failure → String
  | invalidEntity e => "Invalid entity: " ++ e.message
  | unnamedAttribute => "Attribute name must not be empty"
  | refused task e => task ++ ": " ++ e.message

end Failure

/-- No list in an answer is longer. -/
def maxResults : Nat := 10000

def effectiveLimit (requested : Option Nat) : Nat := min (requested.getD maxResults) maxResults

/-- The entity that the text names; a blank text names none. -/
def readEntity (text : String) : Except Error Entity :=
  if Text.allBlank text.toList then .error (.parse "'entity' must not be empty" 0)
  else Entity.parse text

/-- Work on a store that may fail. -/
abbrev Work (σ α : Type) := ExceptT Failure (StateM σ) α

namespace Work

variable {σ α : Type}

/-- Changes the store and reports an error as the failure of the task. -/
def during (task : String) (update : Update σ α) : Work σ α := fun s =>
  let (result, t) := update s
  (result.mapError (.refused task), t)

/-- Asks the store and reports an error as the failure of the task. -/
def asking (task : String) (query : σ → Except Error α) : Work σ α := during task (Update.ask query)

/-- Goes on with the entity that the text names. -/
def withEntity (text : String) (work : Entity → Work σ α) : Work σ α :=
  match readEntity text with
  | .ok e => work e
  | .error e => throw (.invalidEntity e)

end Work

variable {σ : Type} [Hypergraph σ]

/-- Adds the entity and asks for its mark, which the store may have decided otherwise. -/
def addMarked (e : Entity) (isPrimary : Bool) : Update σ Bool := do
  let added ← addWith e isPrimary
  Update.ask (Hypergraph.isPrimary · added)

/-- Writes the attribute and answers it as it is now; what is absent takes none. -/
def writeAttribute (e : Entity) (name : String) (value : Value) : Update σ (Option Value) := do
  if ← setAttribute e name value then Update.ask (attributeOf · e name) else return none

def AttributeAction.perform (e : Entity) (name : String) : AttributeAction → Update σ (Option Value)
  | get => Update.ask (attributeOf · e name)
  | set value => writeAttribute e name value
  | step s => stepAttribute e name s

namespace Call

def perform : Call → Work σ Reply
  | add text isPrimary => .withEntity text fun e => do
    return .entity e.toText true (← .during "Add failed" (addMarked e isPrimary))
  | remove text removal => .withEntity text fun e => do
    return .entity e.toText (← .during "Remove failed" (removeWith e removal)) false
  | lookUp text => .withEntity text fun e => do
    let (found, isPrimary) ← .asking "Lookup failed" (presence · e)
    return .entity e.toText found isPrimary
  | find pattern limit => do
    let found ← .asking "Match failed" (matchText · pattern)
    return .entities ((found.toList.take (effectiveLimit limit)).map Entity.toText)
  | star text limit => .withEntity text fun e => do
    let found ← .asking "Star failed" (Hypergraph.star · e (some (effectiveLimit limit)))
    return .entities (found.map Entity.toText)
  | ego text => .withEntity text fun e => do
    return .entities ((← .asking "Ego failed" (Hypergraph.ego · e)).map Atom.toText)
  | degree text isDeep => .withEntity text fun e => do
    return .degree (← .asking "Degree failed" (degreeOf · e isDeep)) isDeep
  | removeMatching pattern => do
    return .removed (← .during "Pattern removal failed" (removeText pattern))
  | .attribute text name action => .withEntity text fun e => do
    if name.isEmpty then throw .unnamedAttribute
    return .attribute (← .during "Attribute failed" (action.perform e name))
  | exportAll => do
    return .snapshot (← .asking "Failed to capture snapshot" Snapshot.capture)

end Call

end SemanticHypergraph.Http
