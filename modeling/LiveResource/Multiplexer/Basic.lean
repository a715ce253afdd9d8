import LiveResource.Channel
import LiveResource.Message

set_option autoImplicit false

/-!
# Requests over one connection

Every request gets the next id and leaves a callback in a table. The callback fires once: with the
response, with the failure to send, or when the multiplexer is disposed.
-/

namespace LiveResource

abbrev Fired (κ : Type) := List (κ × Outcome Json)

structure Multiplexer (κ : Type) where
  /-- The way to the peer. -/
  outgoing : Pipe
  /-- The outstanding requests in id order, none once disposed. -/
  table : Option (List (Nat × κ))
  nextId : Nat

namespace Multiplexer

variable {κ : Type}

def fresh : Multiplexer κ := ⟨.fresh, some [], 1⟩

instance : Inhabited (Multiplexer κ) := ⟨fresh⟩

def isDisposed (m : Multiplexer κ) : Bool := m.table.isNone

def outstanding (m : Multiplexer κ) : Nat := (m.table.getD []).length

def take (m : Multiplexer κ) (id : Nat) : Option κ × Multiplexer κ :=
  match m.table with
  | none => (none, m)
  | some table =>
    (table.lookup id, { m with table := some (table.filter (·.1 != id)) })

/-- Send a request and leave a callback for its outcome. After disposal the request takes no id and
    fails at once. -/
def request (m : Multiplexer κ) (method : String) (params : Option Json) (callback : κ) :
    Option Nat × Fired κ × Multiplexer κ :=
  match m.table with
  | none => (none, [(callback, .error .connectionClosed)], m)
  | some table =>
    let id := m.nextId
    let (sent, outgoing) := m.outgoing.send (Request.text ⟨id, method, params⟩)
    if sent then
      (some id, [], { m with
        outgoing := outgoing, table := some (table ++ [(id, callback)]), nextId := id + 1 })
    else (some id, [(callback, .error .connectionClosed)], { m with nextId := id + 1 })

/-- Take in one text from the peer. A response completes its request; an event is handed on. -/
def handle (m : Multiplexer κ) (text : String) :
    Except ProtocolError (Option IncomingEvent) × Fired κ × Multiplexer κ :=
  match Message.decode text with
  | .error why => (.error (.malformed why), [], m)
  | .ok (.event event) => (.ok (some event), [], m)
  | .ok (.response id outcome) =>
    match m.take id with
    | (some callback, m) => (.ok none, [(callback, outcome)], m)
    | (none, m) => (.error (.unknownRequest id), [], m)
  | .ok (.invalidResponse id why) =>
    let failure : Outcome Json := .error (.internal ("invalid response: " ++ why.message))
    match m.take id with
    | (some callback, m) => (.error (.malformed (.invalidError why)), [(callback, failure)], m)
    | (none, m) => (.error (.malformed (.invalidError why)), [], m)

/-- Give up the connection and every outstanding request. -/
def dispose (m : Multiplexer κ) : Fired κ × Multiplexer κ :=
  ((m.table.getD []).map fun e => (e.2, .error .connectionClosed),
    { m with outgoing := m.outgoing.closeSender, table := none })

end Multiplexer

end LiveResource
