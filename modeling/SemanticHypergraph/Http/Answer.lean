import SemanticHypergraph.Http.Call

/-!
# Answers

The body that reports the outcome of a call. Every kind of call has members of its own, in a fixed
order; the last one is the error, and where there is one the others say nothing.
-/
namespace SemanticHypergraph.Http

def attributeValue : Value → Json.Value
  | .text s => .text s
  | .int n => .integer n.toInt
  | .float x => .float x

structure Answer where
  status : Nat
  body : Json.Value

namespace Answer

def entityBody (success : Bool) (text : Option String) (found isPrimary : Bool)
    (error : Option String) : Json.Value := .object [
  ("success", .flag success),
  ("entity", .ofOption .text text),
  ("found", .flag found),
  ("primary", .flag isPrimary),
  ("error", .ofOption .text error)]

def listBody (success : Bool) (texts : List String) (error : Option String) : Json.Value := .object [
  ("success", .flag success),
  ("entities", .list (texts.map .text)),
  ("error", .ofOption .text error)]

def degreeBody (success : Bool) (degree : Nat) (isDeep : Bool) (error : Option String) : Json.Value :=
  .object [
  ("success", .flag success),
  ("degree", .ofNat degree),
  ("deep", .flag isDeep),
  ("error", .ofOption .text error)]

def removedBody (success : Bool) (count : Nat) (error : Option String) : Json.Value := .object [
  ("success", .flag success),
  ("removed", .ofNat count),
  ("error", .ofOption .text error)]

def attributeBody (success : Bool) (value : Option Value)
    (error : Option String) : Json.Value := .object [
  ("success", .flag success),
  ("value", .ofOption attributeValue value),
  ("error", .ofOption .text error)]

def snapshotBody (success : Bool) (snapshot : Option Snapshot) (error : Option String) : Json.Value :=
  .object [
  ("success", .flag success),
  ("data", .ofOption (fun s => .text (Text.base64OfBytes s.toBytes)) snapshot),
  ("checksum", .ofOption (fun s => .ofNat s.checksum.toNat) snapshot),
  ("entities", .ofNat ((snapshot.map fun s => s.entries.length).getD 0)),
  ("error", .ofOption .text error)]

def ofReply : Reply → Json.Value
  | .entity text found isPrimary => entityBody true (some text) found isPrimary none
  | .entities texts => listBody true texts none
  | .degree degree isDeep => degreeBody true degree isDeep none
  | .removed count => removedBody true count none
  | .attribute value => attributeBody true value none
  | .snapshot s => snapshotBody true (some s) none

/-- The body of a call that failed with the message. -/
def ofMessage (call : Call) (message : String) : Json.Value :=
  match call with
  | .add _ _ => entityBody false none false false (some message)
  | .remove _ _ => entityBody false none false false (some message)
  | .lookUp _ => entityBody false none false false (some message)
  | .find _ _ => listBody false [] (some message)
  | .star _ _ => listBody false [] (some message)
  | .ego _ => listBody false [] (some message)
  | .degree _ _ => degreeBody false 0 false (some message)
  | .removeMatching _ => removedBody false 0 (some message)
  | .attribute _ _ _ => attributeBody false none (some message)
  | .exportAll => snapshotBody false none (some message)

def ofOutcome (call : Call) : Except Failure Reply → Answer
  | .ok reply => ⟨200, ofReply reply⟩
  | .error failure => ⟨failure.status, ofMessage call failure.message⟩

end Answer

/-- Performs the call and reports its outcome. -/
def Call.answer {σ : Type} [Hypergraph σ] (call : Call) (s : σ) : Answer × σ :=
  let (outcome, t) := call.perform s
  (.ofOutcome call outcome, t)

end SemanticHypergraph.Http
