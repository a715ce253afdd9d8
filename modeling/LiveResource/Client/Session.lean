import LiveResource.Cache.Holdings
import LiveResource.Client.Supervisor
import LiveResource.Gathering

set_option autoImplicit false

/-!
# Client sessions

A session runs one client over an in-memory transport. Calls, the supervisor of a connection and
the resubscriptions after a reconnect are tasks, each the job of one schedule. What a task waits for
queues it again.
-/

namespace LiveResource

inductive ClientTask
  | connect
  | connecting
  | greet (connection : Nat)
  | greeting (connection : Nat) (reply : Ticket)
  | resubscribing (connection : Nat) (parts : Gathering)
  | supervise (place : Supervisor)
  | subscribe (rid : String)
  | fetching (rid : String) (shared reply : Ticket)
  | joined (rid : String) (shared : Ticket)
  | loading (rid : String) (pending : Ticket)
  | unsubscribe (rid : String)
  | releasing (rid : String) (reply : Ticket)
  | request (method : String) (params : Option Json)
  | answering (reply : Ticket)

inductive AnswerView
  | payload (value : Json)
  | resource (view : View)

inductive ClientEnding
  | connected (result : Except ProtocolError Unit)
  | subscribed (result : Outcome View)
  | unsubscribed (result : Outcome Unit)
  | answered (result : Outcome AnswerView)
  | retired

inductive ClientProgress
  | waiting (task : ClientTask)
  | pausing (task : ClientTask) (pause : Pause)
  | ended (ending : ClientEnding)

structure ClientJob where
  id : Nat
  /-- The label of a call. The client's own tasks have none. -/
  label : Option String
  task : ClientTask

structure SeenRequest where
  id : Json
  method : String
  answered : Bool

structure Peer where
  isOpen : Bool
  seen : List SeenRequest

def Peer.fresh : Peer := ⟨true, []⟩

instance : Inhabited Peer := ⟨.fresh⟩

inductive ServerMessage
  | text (text : String)
  /-- An answer to the oldest request with a method that has not been answered so. -/
  | reply (method : String) (members : List (String × Json))

structure ClientSession where
  client : Client
  jobs : List ClientJob
  nextJob : Nat
  schedule : Schedule
  refusing : Bool
  held : Bool
  alive : Bool
  peers : List Peer
  done : List (String × ClientEnding)
  kept : Holdings

namespace ClientSession

def fresh (config : Config) : ClientSession :=
  { client := .fresh config, jobs := [], nextJob := 0, schedule := .idle
    refusing := false, held := true, alive := true, peers := [], done := [], kept := ∅ }

def withClient (s : ClientSession) (client : Client) : ClientSession := { s with client := client }

def withCache (s : ClientSession) (cache : Cache) : ClientSession :=
  s.withClient (s.client.withCache cache)

def spawn (s : ClientSession) (label : Option String) (task : ClientTask) : ClientSession :=
  { s with
    jobs := s.jobs ++ [⟨s.nextJob, label, task⟩]
    nextJob := s.nextJob + 1
    schedule := s.schedule.add s.nextJob }

def awaitsReply (ticket : Ticket) : ClientTask → Bool
  | .greeting _ reply => reply == ticket
  | .resubscribing _ parts => parts.awaits ticket
  | .fetching _ _ reply => reply == ticket
  | .releasing _ reply => reply == ticket
  | .answering reply => reply == ticket
  | _ => false

def awaitsCompletion (ticket : Ticket) : ClientTask → Bool
  | .joined _ shared => shared == ticket
  | .loading _ pending => pending == ticket
  | _ => false

/-- Whether a task hears of it when the application disconnects. -/
def hearsClosing : ClientTask → Bool
  | .supervise (.listening _) => true
  | .supervise (.resting _ _) => true
  | _ => false

def listensOn (number : Nat) : ClientTask → Bool
  | .supervise (.listening n) => n == number
  | _ => false

def isResting : ClientTask → Bool
  | .supervise (.resting _ _) => true
  | _ => false

def queue (s : ClientSession) (p : ClientJob → Bool) : ClientSession :=
  { s with schedule := s.schedule.addAll ((s.jobs.filter p).map (·.id)) }

def wakeSince (before s : ClientSession) (running : Option Nat) : ClientSession :=
  let replies := s.client.replies.settledSince before.client.replies.settled.length
  let completions :=
    s.client.cache.store.ledger.settledSince before.client.cache.store.ledger.settled.length
  let wake (awaits : Ticket → ClientTask → Bool) (s : ClientSession) (t : Ticket) :=
    s.queue fun j => running != some j.id && awaits t j.task
  completions.foldl (wake awaitsCompletion) (replies.foldl (wake awaitsReply) s)

def shutdown (s : ClientSession) : ClientSession :=
  wakeSince s ((s.queue (hearsClosing ·.task)).withClient s.client.shutdown) none

/-- The client ends with its last user: the application or a call. -/
def endIfUnused (s : ClientSession) : ClientSession :=
  if s.alive && !s.held && s.jobs.all (·.label.isNone) then { s with alive := false }.shutdown
  else s

def host (number : Nat) : Gathering.Host Client where
  ask c rid :=
    let (ticket, c) := c.request number ("subscribe." ++ rid) none
    (.inr ticket, c)
  replies c := c.replies
  takeIn c rid outcome := c.withCache (c.cache.resubscribed rid outcome)

def runResubscribing (s : ClientSession) (number : Nat) (parts : Gathering) (allowance : Nat) :
    ClientProgress × ClientSession :=
  let turn := parts.run (host number) s.client allowance
  let s := s.withClient turn.session
  if turn.gathering.size = 0 then (.ended (.connected (.ok ())), s)
  else (.pausing (.resubscribing number turn.gathering) turn.pause, s)

/-- The handshake is one of the replies that count. -/
def runGreeting (s : ClientSession) (number : Nat) (reply : Ticket) :
    ClientProgress × ClientSession :=
  match s.client.replies.outcome? reply with
  | none => (.waiting (.greeting number reply), s)
  | some outcome =>
    let s := s.withClient (s.client.greeted outcome)
    s.runResubscribing number (.ofList s.client.cache.store.staleRids) (Schedule.allowance - 1)

def meet (s : ClientSession) (client : Client) : ClientSession :=
  { s with client := client, peers := s.peers ++ [Peer.fresh] }

def runGreet (s : ClientSession) (number : Nat) : ClientProgress × ClientSession :=
  let (ticket, client) := s.client.greet number
  (s.withClient client).runGreeting number ticket

def runConnecting (s : ClientSession) : ClientProgress × ClientSession :=
  if s.refusing then
    (.ended (.connected (.error (.transport "refused"))), s.withClient s.client.refused)
  else
    let (number, client) := s.client.opened
    ((s.meet client).spawn none (.supervise (.listening number))).runGreet number

def runConnect (s : ClientSession) : ClientProgress × ClientSession :=
  if s.client.mayConnect then (s.withClient s.client.beginConnect).runConnecting
  else (.ended (.connected (.ok ())), s)

def goOn : Supervisor → ClientProgress
  | .retired => .ended .retired
  | place => .waiting (.supervise place)

def takeText (s : ClientSession) (number : Nat) (text : String) : ClientSession :=
  wakeSince s (s.withClient (s.client.dispatch number text)) none

def yieldAt (place : Supervisor) : ClientProgress :=
  .pausing (.supervise place) .untilNextRound

def runReopening (s : ClientSession) (number : Nat) : ClientProgress × ClientSession :=
  if s.refusing then (goOn (.resting number false), s)
  else
    let (next, client) := s.client.reopened number
    (goOn (.listening next), (s.meet client).spawn none (.greet next))

def runResting (s : ClientSession) (number : Nat) (due : Bool) : ClientProgress × ClientSession :=
  match s.client.stir number due with
  | (.reopening number, client) => (s.withClient client).runReopening number
  | (place, client) => (goOn place, s.withClient client)

def runRegrouping (s : ClientSession) (number : Nat) : Nat → ClientProgress × ClientSession
  | 0 => (yieldAt (.regrouping number), s)
  | left + 1 =>
    let s := s.withClient s.client.regroup
    if left = 0 then (yieldAt (.resting number false), s) else s.runResting number false

def runLeaving (s : ClientSession) (number : Nat) : Nat → ClientProgress × ClientSession
  | 0 => (yieldAt (.leaving number), s)
  | left + 1 =>
    match s.client.conclude number with
    | (.regrouping number, client) => (s.withClient client).runRegrouping number left
    | (place, client) => (goOn place, s.withClient client)

def runListening (s : ClientSession) (number : Nat) : ClientProgress × ClientSession :=
  let connection := s.client.connection number
  let (texts, inbox) := connection.inbox.take Schedule.allowance
  let client := s.client.setConnection number { connection with inbox := inbox }
  let s := texts.foldl (fun s text => s.takeText number text) (s.withClient client)
  match Schedule.allowance - texts.length with
  | 0 => (yieldAt (.catchingUp number), s)
  | left + 1 =>
    if s.client.isOver number then (s.withClient (s.client.abandon number)).runLeaving number left
    else (goOn (.listening number), s)

def runSupervisor (s : ClientSession) : Supervisor → ClientProgress × ClientSession
  | .listening number => s.runListening number
  | .catchingUp number => s.runListening number
  | .leaving number => s.runLeaving number Schedule.allowance
  | .regrouping number => s.runRegrouping number Schedule.allowance
  | .resting number due => s.runResting number due
  | .reopening number => s.runReopening number
  | .retired => (goOn .retired, s)

def endSubscribe (s : ClientSession) (result : Outcome Handle) : ClientProgress × ClientSession :=
  (.ended (.subscribed (s.client.cache.viewOutcome result)), s)

def runLoading (s : ClientSession) (rid : String) (pending : Ticket) :
    ClientProgress × ClientSession :=
  match s.client.cache.store.ledger.outcome? pending with
  | none => (.waiting (.loading rid pending), s)
  | some outcome => s.endSubscribe (s.client.cache.loaded rid outcome)

def runJoined (s : ClientSession) (rid : String) (shared : Ticket) :
    ClientProgress × ClientSession :=
  match s.client.cache.store.ledger.outcome? shared with
  | none => (.waiting (.joined rid shared), s)
  | some outcome =>
    match s.client.cache.join rid outcome with
    | (.error fault, cache) => (s.withCache cache).endSubscribe (.error fault)
    | (.ok pending, cache) => (s.withCache cache).runLoading rid pending

def runFetching (s : ClientSession) (rid : String) (shared reply : Ticket) :
    ClientProgress × ClientSession :=
  match s.client.replies.outcome? reply with
  | none => (.waiting (.fetching rid shared reply), s)
  | some outcome =>
    let (result, cache) := s.client.cache.fetched rid shared outcome
    (s.withCache cache).endSubscribe result

def runSubscribe (s : ClientSession) (rid : String) : ClientProgress × ClientSession :=
  match s.client.cache.subscribe rid with
  | (.loading rid pending, cache) => (s.withCache cache).runLoading rid pending
  | (.joined rid shared, cache) => (s.withCache cache).runJoined rid shared
  | (.fetching rid shared, cache) =>
    let s := s.withCache cache
    let (ticket, client) := s.client.requestOn s.client.live ("subscribe." ++ rid) none
    (s.withClient client).runFetching rid shared ticket

def runReleasing (s : ClientSession) (rid : String) (reply : Ticket) :
    ClientProgress × ClientSession :=
  match s.client.replies.outcome? reply with
  | none => (.waiting (.releasing rid reply), s)
  | some outcome =>
    let (result, cache) := s.client.cache.released rid (outcome.map fun _ => ())
    (.ended (.unsubscribed result), s.withCache cache)

def runUnsubscribe (s : ClientSession) (rid : String) : ClientProgress × ClientSession :=
  match s.client.cache.unsubscribe rid with
  | (.error fault, cache) => (.ended (.unsubscribed (.error fault)), s.withCache cache)
  | (.ok .done, cache) => (.ended (.unsubscribed (.ok ())), s.withCache cache)
  | (.ok .asking, cache) =>
    let s := s.withCache cache
    let (ticket, client) := s.client.requestOn s.client.live ("unsubscribe." ++ rid) none
    (s.withClient client).runReleasing rid ticket

def viewAnswer (c : Cache) : Outcome Answer → Outcome AnswerView
  | .error fault => .error fault
  | .ok (.payload value) => .ok (.payload value)
  | .ok (.resource handle) => (c.viewOutcome (.ok handle)).map .resource

def runAnswering (s : ClientSession) (reply : Ticket) : ClientProgress × ClientSession :=
  match s.client.replies.outcome? reply with
  | none => (.waiting (.answering reply), s)
  | some (.error fault) => (.ended (.answered (.error fault)), s)
  | some (.ok result) =>
    let (answer, client) := s.client.answer result
    (.ended (.answered (viewAnswer client.cache answer)), s.withClient client)

def runRequest (s : ClientSession) (method : String) (params : Option Json) :
    ClientProgress × ClientSession :=
  let (ticket, client) := s.client.requestOn s.client.live method params
  (s.withClient client).runAnswering ticket

def advance (s : ClientSession) : ClientTask → ClientProgress × ClientSession
  | .connect => s.runConnect
  | .connecting => s.runConnecting
  | .greet number => s.runGreet number
  | .greeting number reply => s.runGreeting number reply
  | .resubscribing number parts => s.runResubscribing number parts Schedule.allowance
  | .supervise place => s.runSupervisor place
  | .subscribe rid => s.runSubscribe rid
  | .fetching rid shared reply => s.runFetching rid shared reply
  | .joined rid shared => s.runJoined rid shared
  | .loading rid pending => s.runLoading rid pending
  | .unsubscribe rid => s.runUnsubscribe rid
  | .releasing rid reply => s.runReleasing rid reply
  | .request method params => s.runRequest method params
  | .answering reply => s.runAnswering reply

def pause (s : ClientSession) (id : Nat) (task : ClientTask) (p : Pause) : ClientSession :=
  { s with
    jobs := s.jobs.map fun j => if j.id == id then { j with task := task } else j
    schedule := s.schedule.pause id p }

def finish (s : ClientSession) (job : ClientJob) (ending : ClientEnding) : ClientSession :=
  let ended := match job.label with
    | some label => [(label, ending)]
    | none => []
  { s with
    jobs := s.jobs.filter (·.id != job.id)
    schedule := s.schedule.drop job.id
    done := s.done ++ ended }

def runJob (s : ClientSession) (job : ClientJob) : ClientSession :=
  let (progress, after) := s.advance job.task
  let woken := wakeSince s after (some job.id)
  match progress with
  | .waiting task => woken.pause job.id task .untilWoken
  | .pausing task p => woken.pause job.id task p
  | .ended ending => (woken.finish job ending).endIfUnused

def newRound (s : ClientSession) : ClientSession :=
  { s with
    schedule := s.schedule.renew
    jobs := s.jobs.map fun j => match j.task with
      | .resubscribing number parts =>
        { j with task := .resubscribing number (parts.renew s.client.replies) }
      | _ => j }

def runQueue (s : ClientSession) : Nat → ClientSession
  | 0 => s
  | fuel + 1 =>
    match s.schedule.next with
    | .rest => s
    | .round => s.newRound.runQueue fuel
    | .turn id schedule =>
      let s := { s with schedule := schedule }
      match s.jobs.find? (·.id == id) with
      | none => s.runQueue fuel
      | some job => (s.runJob job).runQueue fuel

def backlog (s : ClientSession) : Nat :=
  s.client.connections.foldl (fun n c => n + c.inbox.items.length) 0

def parts (s : ClientSession) : Nat :=
  s.jobs.foldl (fun n j => match j.task with
    | .resubscribing _ parts => n + parts.size
    | _ => n) 0

/-- An upper bound on the turns and rounds until every job waits. A job may start another one, and
    takes a few turns, except that a resubscription may take one for every resource. -/
def turns (s : ClientSession) : Nat :=
  4 * (2 * s.jobs.length + 4) * (s.client.cache.store.entries.size + 8) + 4 * (s.backlog + s.parts)

def settle (s : ClientSession) : ClientSession := s.newRound.runQueue s.turns

def start (s : ClientSession) (label : String) (task : ClientTask) : ClientSession :=
  s.spawn (some label) task

def disconnect (s : ClientSession) : ClientSession := s.shutdown

def release (s : ClientSession) : ClientSession := { s with held := false }.endIfUnused

def tick (s : ClientSession) : ClientSession :=
  let s := s.queue (isResting ·.task)
  { s with jobs := s.jobs.map fun j => match j.task with
      | .supervise (.resting number _) => { j with task := .supervise (.resting number true) }
      | _ => j }

def peer (s : ClientSession) (number : Nat) : Peer := s.peers.getD number .fresh

def answerSeen (method : String) : List SeenRequest → Option (Json × List SeenRequest)
  | [] => none
  | r :: rest =>
    if !r.answered && r.method == method then some (r.id, { r with answered := true } :: rest)
    else (answerSeen method rest).map fun (id, rest) => (id, r :: rest)

def messageText (p : Peer) : ServerMessage → Option (String × Peer)
  | .text text => some (text, p)
  | .reply method members =>
    (answerSeen method p.seen).map fun (id, seen) =>
      ((Json.obj ((Dict.ofList members).insert "id" id).entries).text, { p with seen := seen })

/-- Put a text into the inbox of a connection. Tells whether the client still listens. -/
def deliver (s : ClientSession) (number : Nat) (text : String) : Bool × ClientSession :=
  let connection := s.client.connection number
  let (sent, inbox) := connection.inbox.send text
  let s := s.withClient (s.client.setConnection number { connection with inbox := inbox })
  (sent, s.queue (listensOn number ·.task))

def deliverAll (s : ClientSession) (number : Nat) :
    List ServerMessage → List Bool × ClientSession
  | [] => ([], s)
  | message :: rest =>
    match messageText (s.peer number) message with
    | none => s.deliverAll number rest
    | some (text, peer) =>
      let (sent, s) := { s with peers := s.peers.set number peer }.deliver number text
      let (others, s) := s.deliverAll number rest
      (sent :: others, s)

def closePeer (s : ClientSession) (number : Nat) : ClientSession :=
  let connection := s.client.connection number
  let connection : Connection :=
    ⟨{ connection.mux with outgoing := connection.mux.outgoing.closeReceiver },
      connection.inbox.closeSender⟩
  let s := s.withClient (s.client.setConnection number connection)
  { s with peers := s.peers.set number { s.peer number with isOpen := false } }.queue
    (listensOn number ·.task)

/-- The server acts on a connection, the newest one if none is named. There is no result unless the
    connection is open. -/
def server (s : ClientSession) (number : Option Nat) (messages : List ServerMessage)
    (close : Bool) : Option (List Bool) × ClientSession :=
  let number := number.getD (s.peers.length - 1)
  if number < s.peers.length && (s.peer number).isOpen then
    let (sent, s) := s.deliverAll number messages
    (some sent, if close then s.closePeer number else s)
  else (none, s)

def seenRequest (text : String) : SeenRequest :=
  let j := (Json.parse? text).getD .null
  ⟨(j.get? "id").getD .null, ((j.get? "method").bind Json.str?).getD "", false⟩

def receiveFrom (s : ClientSession) (number : Nat) : Nat → List (Nat × String) × ClientSession
  | 0 => ([], s)
  | left + 1 =>
    let p := s.peer number
    if p.isOpen then
      let connection := s.client.connection number
      let (texts, outgoing) := connection.mux.outgoing.drain
      let client := s.client.setConnection number
        { connection with mux := { connection.mux with outgoing := outgoing } }
      let seen := p.seen ++ texts.map seenRequest
      let s := { s with client := client, peers := s.peers.set number { p with seen := seen } }
      let (others, s) := s.receiveFrom (number + 1) left
      (texts.map (number, ·) ++ others, s)
    else s.receiveFrom (number + 1) left

def receive (s : ClientSession) : List (Nat × String) × ClientSession :=
  s.receiveFrom 0 s.peers.length

def clear (s : ClientSession) : ClientSession :=
  { s with
    client := s.client.withCache { s.client.cache with channel := [] }
    done := [] }

end ClientSession

end LiveResource
