import LiveResource.Cache.Call
import LiveResource.Config
import LiveResource.Multiplexer.Basic

set_option autoImplicit false

/-!
# The client

A client owns a cache and at most one live connection. When the connection is lost every
subscription becomes stale, all requests fail, and the application is told; what is stale is
resubscribed on the next connection.
-/

namespace LiveResource

inductive ConnectionState
  | disconnected
  | connecting
  | connected
  | reconnecting
deriving DecidableEq, Repr

def ConnectionState.text : ConnectionState → String
  | disconnected => "disconnected"
  | connecting => "connecting"
  | connected => "connected"
  | reconnecting => "reconnecting"

/-- One connection: requests go out through the multiplexer, texts come in through the inbox. -/
structure Connection where
  mux : Multiplexer Ticket
  inbox : Pipe

def Connection.fresh : Connection := ⟨.fresh, .fresh⟩

instance : Inhabited Connection := ⟨.fresh⟩

inductive Answer
  | payload (value : Json)
  /-- The request created or returned a resource, which is subscribed now. -/
  | resource (handle : Handle)

structure Client where
  config : Config
  cache : Cache
  state : ConnectionState
  closing : Bool
  live : Option Nat
  connections : List Connection
  replies : Ledger (Outcome Json)
  channelTaken : Bool

namespace Client

def fresh (config : Config) : Client :=
  { config := config, cache := .empty, state := .disconnected, closing := false, live := none
    connections := [], replies := .empty, channelTaken := false }

/-- The channel of notices can be taken once. -/
def takeChannel (c : Client) : Bool × Client := (!c.channelTaken, { c with channelTaken := true })

def withCache (c : Client) (cache : Cache) : Client := { c with cache := cache }

def notify (c : Client) (notice : Notice) : Client := c.withCache (c.cache.send notice)

def connection (c : Client) (number : Nat) : Connection := c.connections.getD number .fresh

def setConnection (c : Client) (number : Nat) (connection : Connection) : Client :=
  { c with connections := c.connections.set number connection }

def fire (c : Client) (fired : Fired Ticket) : Client :=
  { c with replies := fired.foldl (fun l f => l.settle f.1 f.2) c.replies }

def request (c : Client) (number : Nat) (method : String) (params : Option Json) :
    Ticket × Client :=
  let (ticket, replies) := c.replies.issue
  let connection := c.connection number
  let (_, fired, mux) := connection.mux.request method params ticket
  let c := { c with replies := replies }.setConnection number { connection with mux := mux }
  (ticket, c.fire fired)

/-- Send a request over the connection that was live when the call began. -/
def requestOn (c : Client) (live : Option Nat) (method : String) (params : Option Json) :
    Ticket × Client :=
  match live with
  | some number => c.request number method params
  | none =>
    let (ticket, replies) := c.replies.issue
    (ticket, { c with replies := replies.settle ticket (.error .connectionClosed) })

def dispose (c : Client) (number : Nat) : Client :=
  let connection := c.connection number
  let (fired, mux) := connection.mux.dispose
  (c.setConnection number { connection with mux := mux }).fire fired

/-- Stop the supervisor and give up the live connection. -/
def shutdown (c : Client) : Client :=
  let c := { c with closing := true }
  match c.live with
  | none => c
  | some number => { c with live := none }.dispose number

def mayConnect (c : Client) : Bool := c.state = .disconnected

def beginConnect (c : Client) : Client := { c with state := .connecting, closing := false }

def refused (c : Client) : Client := { c with state := .disconnected }

def opened (c : Client) : Nat × Client :=
  let number := c.connections.length
  (number, ({ c with
    connections := c.connections ++ [Connection.fresh], live := some number, state := .connected
    }).notify .connected)

def greet (c : Client) (number : Nat) : Ticket × Client :=
  c.request number "version" (some (.obj [("protocol", .str c.config.protocolVersion)]))

/-- A failed handshake is reported, and nothing else. -/
def greeted (c : Client) : Outcome Json → Client
  | .ok _ => c
  | .error fault => c.notify (.protocolError (.handshake fault))

def dispatch (c : Client) (number : Nat) (text : String) : Client :=
  let connection := c.connection number
  let (result, fired, mux) := connection.mux.handle text
  let c := (c.setConnection number { connection with mux := mux }).fire fired
  match result with
  | .error e => c.notify (.protocolError e)
  | .ok none => c
  | .ok (some event) =>
    match c.cache.handleEvent event.rid event.name event.data with
    | (.ok _, cache) => c.withCache cache
    | (.error e, cache) => (c.withCache cache).notify (.cacheError e)

/-- A connection is over: its subscriptions are stale and its requests fail. -/
def abandon (c : Client) (number : Nat) : Client :=
  let c := (c.withCache c.cache.setAllStale.2).dispose number
  { c with live := if c.live = some number then none else c.live }

def lost (c : Client) : Client := { c with state := .disconnected }.notify .disconnected

/-- The answer that a result stands for. A result with a resource id carries the resources to merge,
    and subscribes to that one. -/
def answer (c : Client) (result : Json) : Outcome Answer × Client :=
  match (result.get? "rid").bind Json.str? with
  | none => (.ok (.payload ((result.get? "payload").getD .null)), c)
  | some rid =>
    match Batch.ofJson result with
    | .error e => (.error (.internal ("malformed resource response: " ++ e.message)), c)
    | .ok batch =>
      match c.cache.add batch rid with
      | (.ok handle, cache) => (.ok (.resource handle), c.withCache cache)
      | (.error e, cache) => (.error e.toFault, c.withCache cache)

end Client

end LiveResource
