import LiveResource.Cache.Call
import LiveResource.Cache.Holdings
import LiveResource.Gathering

set_option autoImplicit false

/-!
# Sessions

A session runs calls on one cache as tasks, each the job of one schedule. What a task waits for
queues it again. The server's replies to the network calls are given at once or, under a label,
later.
-/

namespace LiveResource

inductive Reply
  | now (outcome : Outcome Json)
  | later (label : String)

inductive Task
  | subscribe (rid : String) (reply : Reply) (leave : Bool)
  | fetching (rid : String) (shared reply : Ticket) (leave : Bool)
  | joined (rid : String) (shared : Ticket) (leave : Bool)
  | loading (rid : String) (pending : Ticket) (leave : Bool)
  | unsubscribe (rid : String) (reply : Reply)
  | releasing (rid : String) (reply : Ticket)
  | resubscribe (replies : Dict Reply)
  | resubscribing (replies : Dict Reply) (parts : Gathering)

inductive Ending
  | subscribed (result : Outcome View)
  /-- A subscription that was given up at once. -/
  | left (first : Outcome View) (second : Outcome Unit)
  | finished (result : Outcome Unit)

inductive Progress
  | waiting (task : Task)
  | pausing (task : Task) (pause : Pause)
  | ended (ending : Ending)

structure Job where
  id : Nat
  label : String
  task : Task

structure Session where
  cache : Cache
  jobs : List Job
  nextJob : Nat
  schedule : Schedule
  replies : Ledger (Outcome Json)
  /-- The network calls that are answered later. -/
  labels : Dict Ticket
  calls : List (String × String)
  /-- The calls that have ended, with their labels. -/
  done : List (String × Ending)
  held : Holdings

namespace Session

def empty (registry : Registry) : Session :=
  { cache := { Cache.empty with registry := registry }
    jobs := [], nextJob := 0, schedule := .idle, replies := .empty, labels := ∅
    calls := [], done := [], held := ∅ }

def noReply : Fault := .make "test.noReply" "no reply"

def withCache (s : Session) (cache : Cache) : Session := { s with cache := cache }

def ask (s : Session) (method rid : String) (reply : Reply) : Ticket × Session :=
  let (ticket, replies) := s.replies.issue
  let s := { s with replies := replies, calls := s.calls ++ [(method, rid)] }
  match reply with
  | .now outcome => (ticket, { s with replies := s.replies.settle ticket outcome })
  | .later label =>
    let replies := match s.labels.get? label with
      | some earlier => s.replies.settle earlier (.error noReply)
      | none => s.replies
    (ticket, { s with replies := replies, labels := s.labels.insert label ticket })

def answer (s : Session) (label : String) (outcome : Outcome Json) : Bool × Session :=
  match s.labels.get? label with
  | none => (false, s)
  | some ticket =>
    (true, { s with
      replies := s.replies.settle ticket outcome, labels := s.labels.erase label })

def leaveNow (c : Cache) (rid : String) : Outcome Unit × Cache :=
  match c.unsubscribe rid with
  | (.error fault, c) => (.error fault, c)
  | (.ok .done, c) => (.ok (), c)
  | (.ok .asking, c) => c.released rid (.ok ())

def endSubscribe (s : Session) (rid : String) (leave : Bool) (result : Outcome Handle) :
    Progress × Session :=
  let first := s.cache.viewOutcome result
  if leave then
    let (second, cache) := leaveNow s.cache rid
    (.ended (.left first second), s.withCache cache)
  else (.ended (.subscribed first), s)

def runLoading (s : Session) (rid : String) (pending : Ticket) (leave : Bool) :
    Progress × Session :=
  match s.cache.store.ledger.outcome? pending with
  | none => (.waiting (.loading rid pending leave), s)
  | some outcome => s.endSubscribe rid leave (s.cache.loaded rid outcome)

def runJoined (s : Session) (rid : String) (shared : Ticket) (leave : Bool) : Progress × Session :=
  match s.cache.store.ledger.outcome? shared with
  | none => (.waiting (.joined rid shared leave), s)
  | some outcome =>
    match s.cache.join rid outcome with
    | (.error fault, cache) => (s.withCache cache).endSubscribe rid leave (.error fault)
    | (.ok pending, cache) => (s.withCache cache).runLoading rid pending leave

def runFetching (s : Session) (rid : String) (shared reply : Ticket) (leave : Bool) :
    Progress × Session :=
  match s.replies.outcome? reply with
  | none => (.waiting (.fetching rid shared reply leave), s)
  | some outcome =>
    let (result, cache) := s.cache.fetched rid shared outcome
    (s.withCache cache).endSubscribe rid leave result

def runReleasing (s : Session) (rid : String) (reply : Ticket) : Progress × Session :=
  match s.replies.outcome? reply with
  | none => (.waiting (.releasing rid reply), s)
  | some outcome =>
    let (result, cache) := s.cache.released rid (outcome.map fun _ => ())
    (.ended (.finished result), s.withCache cache)

/-- Resubscription asks the server for a snapshot of each stale resource. -/
def host (replies : Dict Reply) : Gathering.Host Session where
  ask s rid :=
    let reply := (replies.get? rid).getD (.now (.error noReply))
    let (ticket, s) := s.ask "subscribe" rid reply
    match reply with
    | .now outcome => (.inl outcome, s)
    | .later _ => (.inr ticket, s)
  replies s := s.replies
  takeIn s rid outcome := s.withCache (s.cache.resubscribed rid outcome)

def runResubscribing (s : Session) (replies : Dict Reply) (parts : Gathering) :
    Progress × Session :=
  let turn := parts.run (host replies) s Schedule.allowance
  if turn.gathering.size = 0 then (.ended (.finished (.ok ())), turn.session)
  else (.pausing (.resubscribing replies turn.gathering) turn.pause, turn.session)

def advance (s : Session) : Task → Progress × Session
  | .subscribe rid reply leave =>
    match s.cache.subscribe rid with
    | (.loading rid pending, cache) => (s.withCache cache).runLoading rid pending leave
    | (.joined rid shared, cache) => (s.withCache cache).runJoined rid shared leave
    | (.fetching rid shared, cache) =>
      let (ticket, s) := (s.withCache cache).ask "subscribe" rid reply
      s.runFetching rid shared ticket leave
  | .fetching rid shared reply leave => s.runFetching rid shared reply leave
  | .joined rid shared leave => s.runJoined rid shared leave
  | .loading rid pending leave => s.runLoading rid pending leave
  | .unsubscribe rid reply =>
    match s.cache.unsubscribe rid with
    | (.error fault, cache) => (.ended (.finished (.error fault)), s.withCache cache)
    | (.ok .done, cache) => (.ended (.finished (.ok ())), s.withCache cache)
    | (.ok .asking, cache) =>
      let (ticket, s) := (s.withCache cache).ask "unsubscribe" rid reply
      s.runReleasing rid ticket
  | .releasing rid reply => s.runReleasing rid reply
  | .resubscribe replies => s.runResubscribing replies (.ofList s.cache.store.staleRids)
  | .resubscribing replies parts => s.runResubscribing replies parts

def awaitsReply (ticket : Ticket) : Task → Bool
  | .fetching _ _ reply _ => reply == ticket
  | .releasing _ reply => reply == ticket
  | .resubscribing _ parts => parts.awaits ticket
  | _ => false

def awaitsCompletion (ticket : Ticket) : Task → Bool
  | .joined _ shared _ => shared == ticket
  | .loading _ pending _ => pending == ticket
  | _ => false

def queue (s : Session) (p : Job → Bool) : Session :=
  { s with schedule := s.schedule.addAll ((s.jobs.filter p).map (·.id)) }

/-- Queue the jobs whose waiting has ended since an earlier moment, except for the one that runs. -/
def wakeSince (before s : Session) (running : Option Nat) : Session :=
  let replies := s.replies.settledSince before.replies.settled.length
  let completions := s.cache.store.ledger.settledSince before.cache.store.ledger.settled.length
  let wake (awaits : Ticket → Task → Bool) (s : Session) (t : Ticket) :=
    s.queue fun j => running != some j.id && awaits t j.task
  completions.foldl (wake awaitsCompletion) (replies.foldl (wake awaitsReply) s)

def act {α : Type} (s : Session) (f : Session → α × Session) : α × Session :=
  let (a, after) := f s
  (a, wakeSince s after none)

def findJob (s : Session) (id : Nat) : Option Job := s.jobs.find? (·.id == id)

def pause (s : Session) (id : Nat) (task : Task) (p : Pause) : Session :=
  { s with
    jobs := s.jobs.map fun j => if j.id == id then { j with task := task } else j
    schedule := s.schedule.pause id p }

def finish (s : Session) (job : Job) (ending : Ending) : Session :=
  { s with
    jobs := s.jobs.filter (·.id != job.id)
    schedule := s.schedule.drop job.id
    done := s.done ++ [(job.label, ending)] }

def runJob (s : Session) (job : Job) : Session :=
  let (progress, after) := s.advance job.task
  let woken := wakeSince s after (some job.id)
  match progress with
  | .waiting task => woken.pause job.id task .untilWoken
  | .pausing task p => woken.pause job.id task p
  | .ended ending => woken.finish job ending

def newRound (s : Session) : Session :=
  { s with
    schedule := s.schedule.renew
    jobs := s.jobs.map fun j => match j.task with
      | .resubscribing replies parts =>
        { j with task := .resubscribing replies (parts.renew s.replies) }
      | _ => j }

def runQueue (s : Session) : Nat → Session
  | 0 => s
  | fuel + 1 =>
    match s.schedule.next with
    | .rest => s
    | .round => s.newRound.runQueue fuel
    | .turn id schedule =>
      let s := { s with schedule := schedule }
      match s.findJob id with
      | none => s.runQueue fuel
      | some job => (s.runJob job).runQueue fuel

def parts (s : Session) : Nat :=
  s.jobs.foldl (fun n j => match j.task with
    | .resubscribing _ parts => n + parts.size
    | _ => n) 0

/-- An upper bound on the turns and rounds until every job waits. No job takes more than a few
    turns, except that a resubscription may take one for every resource. -/
def turns (s : Session) : Nat :=
  4 * (s.jobs.length + 1) * (s.cache.store.entries.size + 4) + 4 * s.parts

def settle (s : Session) : Session := s.newRound.runQueue s.turns

def start (s : Session) (label : String) (task : Task) : Session :=
  { s with
    jobs := s.jobs ++ [⟨s.nextJob, label, task⟩]
    nextJob := s.nextJob + 1
    schedule := s.schedule.add s.nextJob }

def clear (s : Session) : Session :=
  { s with cache := { s.cache with channel := [] }, calls := [], done := [] }

end Session

end LiveResource
