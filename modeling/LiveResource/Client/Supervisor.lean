import LiveResource.Client.Basic

set_option autoImplicit false

/-!
# The supervisor of a connection

Each connection of a client has a supervisor, which takes in what the server sends. When the
connection is lost, or the application disconnects, it gives the connection up and tells the
application; then it either ends or rests and asks the transport for another connection, again and
again until it gets one. Each text and each of these steps counts towards what it may do in a turn.
-/

namespace LiveResource

/-- Where a supervisor has got to. -/
inductive Supervisor
  /-- It waits for texts on a connection. -/
  | listening (connection : Nat)
  /-- It has yielded, and will go on to take in texts. -/
  | catchingUp (connection : Nat)
  /-- It has yielded before telling the application that a connection is over. -/
  | leaving (connection : Nat)
  /-- It has yielded before it rests. -/
  | regrouping (connection : Nat)
  /-- It waits for the next attempt to replace a lost connection, which may be due. -/
  | resting (connection : Nat) (due : Bool)
  /-- It has asked the transport to replace a lost connection. -/
  | reopening (connection : Nat)
  | retired
deriving DecidableEq, Repr

namespace Client

def deafen (c : Client) (number : Nat) : Client :=
  let connection := c.connection number
  c.setConnection number { connection with inbox := connection.inbox.closeReceiver }

/-- Whether a supervisor that has taken in everything is to give its connection up. -/
def isOver (c : Client) (number : Nat) : Bool :=
  !(c.connection number).inbox.senderOpen || c.closing

/-- The supervisor tells the application, and ends unless it is to reconnect. -/
def conclude (c : Client) (number : Nat) : Supervisor × Client :=
  let c := c.lost
  if !c.config.autoReconnect || c.closing then (.retired, c.deafen number)
  else (.regrouping number, c)

def regroup (c : Client) : Client := { c with state := .reconnecting }

/-- A resting supervisor looks around: it ends if the application has disconnected, and asks the
    transport when the next attempt is due. -/
def stir (c : Client) (number : Nat) (due : Bool) : Supervisor × Client :=
  if c.closing then (.retired, { c with state := .disconnected }.deafen number)
  else if due then (.reopening number, c)
  else (.resting number false, c)

def reopened (c : Client) (number : Nat) : Nat × Client :=
  let (next, c) := c.opened
  (next, c.deafen number)

end Client

end LiveResource
