import LiveResource.Multiplexer.Basic

set_option autoImplicit false

/-!
# Sessions on a multiplexer

Requests are made with a callback or as calls that wait for their outcome. A call is a task: it is
queued when it starts and queued again when its outcome is there.
-/

namespace LiveResource

inductive Callback
  | note (label : String)
  | resume (label : String)

inductive RequestTurn
  | begin (label method : String) (params : Option Json)
  | finish (label : String) (outcome : Outcome Json)

structure RequestSession where
  mux : Multiplexer Callback
  held : Bool
  ready : List RequestTurn
  noted : List (String × Outcome Json)
  done : List (String × Outcome Json)

namespace RequestSession

def empty : RequestSession := ⟨.fresh, true, [], [], []⟩

def fire (s : RequestSession) : Fired Callback → RequestSession
  | [] => s
  | (.note label, outcome) :: rest => ({ s with noted := s.noted ++ [(label, outcome)] }).fire rest
  | (.resume label, outcome) :: rest =>
    ({ s with ready := s.ready ++ [RequestTurn.finish label outcome] }).fire rest

def request (s : RequestSession) (label method : String) (params : Option Json) :
    Option Nat × RequestSession :=
  let (id, fired, mux) := s.mux.request method params (.note label)
  (id, ({ s with mux := mux }).fire fired)

def call (s : RequestSession) (label method : String) (params : Option Json) : RequestSession :=
  { s with ready := s.ready ++ [RequestTurn.begin label method params] }

def handle (s : RequestSession) (text : String) :
    Except ProtocolError (Option IncomingEvent) × RequestSession :=
  let (result, fired, mux) := s.mux.handle text
  (result, ({ s with mux := mux }).fire fired)

def dispose (s : RequestSession) : RequestSession :=
  let (fired, mux) := s.mux.dispose
  ({ s with mux := mux }).fire fired

/-- Whether a call waits for its outcome, which keeps the multiplexer alive. -/
def isWaiting (s : RequestSession) : Bool :=
  (s.mux.table.getD []).any fun e => match e.2 with
    | .resume _ => true
    | .note _ => false

/-- The application lets go of the multiplexer. It is disposed unless a call still waits. -/
def release (s : RequestSession) : RequestSession :=
  let s := { s with held := false }
  if s.isWaiting then s else s.dispose

def closePeer (s : RequestSession) : RequestSession :=
  { s with mux := { s.mux with outgoing := s.mux.outgoing.closeReceiver } }

def turn (s : RequestSession) : RequestTurn → RequestSession
  | .begin label method params =>
    let (_, fired, mux) := s.mux.request method params (.resume label)
    ({ s with mux := mux }).fire fired
  | .finish label outcome => { s with done := s.done ++ [(label, outcome)] }

def runQueue (s : RequestSession) : Nat → RequestSession
  | 0 => s
  | fuel + 1 =>
    match s.ready with
    | [] => s
    | t :: ready => (({ s with ready := ready }).turn t).runQueue fuel

/-- Run until every call has to wait. A queued call takes at most two turns. -/
def settle (s : RequestSession) : RequestSession := s.runQueue (2 * s.ready.length)

def clear (s : RequestSession) : List String × RequestSession :=
  let (sent, outgoing) := s.mux.outgoing.drain
  (sent, { s with mux := { s.mux with outgoing := outgoing }, noted := [], done := [] })

end RequestSession

end LiveResource
