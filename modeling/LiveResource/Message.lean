import LiveResource.Fault
import LiveResource.Json.Parser
import LiveResource.Text.Dotted

set_option autoImplicit false

/-!
# Messages on the wire

A request carries an id and a method. An inbound message with an id is the response to the request
of that id, one without an id but with an event is an event; everything else is malformed. The name
of an event is what stands behind the last dot, and the resource it is about what stands before.
-/

namespace LiveResource

inductive Malformed
  | notJson
  | notObject
  | invalidId (id : Json)
  | eventNotString
  | invalidEvent (event : String)
  | unclassified
  | invalidError (error : DecodeError)

def Malformed.reason : Malformed → String
  | notJson => "<json>"
  | notObject => "not an object"
  | invalidId id => "invalid id: " ++ id.text
  | eventNotString => "event is not a string"
  | invalidEvent event => "invalid event: " ++ event
  | unclassified => "neither a response nor an event"
  | invalidError error => error.message

/-- Failures of the protocol, none of which ends a request of its own accord. -/
inductive ProtocolError
  | malformed (why : Malformed)
  | unknownRequest (id : Nat)
  | transport (message : String)
  | handshake (fault : Fault)

def ProtocolError.message : ProtocolError → String
  | malformed why => "malformed message: " ++ why.reason
  | unknownRequest id => "response for unknown request id " ++ String.ofList (Json.natText id)
  | transport message => "transport error: " ++ message
  | handshake fault => "version handshake failed: " ++ fault.text

structure Request where
  id : Nat
  method : String
  params : Option Json

def Request.toJson (r : Request) : Json :=
  .obj (("id", .nat r.id) :: ("method", .str r.method) ::
    (r.params.map fun p => ("params", p)).toList)

def Request.text (r : Request) : String := r.toJson.text

structure IncomingEvent where
  rid : String
  name : String
  data : Option Json

inductive Message
  | response (id : Nat) (outcome : Outcome Json)
  | invalidResponse (id : Nat) (why : DecodeError)
  | event (event : IncomingEvent)

namespace Message

/-- How the members of a response say that its request ended. A null error is none, and a missing
    result is null. -/
def outcome? (members : List (String × Json)) : Decoded (Outcome Json) :=
  match (Dict.lookup "error" members).bind Fault.present with
  | none => .ok (.ok ((Dict.lookup "result" members).getD .null))
  | some error =>
    match Fault.ofJson error with
    | .error e => .error e
    | .ok fault => .ok (.error fault)

def response? (id : Json) (members : List (String × Json)) : Except Malformed Message :=
  match id.natural? with
  | none => .error (.invalidId id)
  | some id =>
    match outcome? members with
    | .error why => .ok (.invalidResponse id why)
    | .ok outcome => .ok (.response id outcome)

/-- Both sides of the last dot must have some text. -/
def eventName? (target : String) : Option (String × String) :=
  match Text.splitLastDot target.toList with
  | none => none
  | some (rid, name) =>
    if rid.isEmpty || name.isEmpty then none
    else some (String.ofList rid, String.ofList name)

def event? (target : Json) (members : List (String × Json)) : Except Malformed Message :=
  match target.str? with
  | none => .error .eventNotString
  | some target =>
    match eventName? target with
    | none => .error (.invalidEvent target)
    | some (rid, name) => .ok (.event ⟨rid, name, Dict.lookup "data" members⟩)

def ofJson : Json → Except Malformed Message
  | .obj members =>
    match Dict.lookup "id" members with
    | some id => response? id members
    | none =>
      match Dict.lookup "event" members with
      | some target => event? target members
      | none => .error .unclassified
  | _ => .error .notObject

def decode (text : String) : Except Malformed Message :=
  match Json.parse? text with
  | none => .error .notJson
  | some j => ofJson j

end Message

end LiveResource
