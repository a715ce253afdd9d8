import LiveResource.Cache.Basic

set_option autoImplicit false

/-!
# Calls in progress

To subscribe and to unsubscribe may take a request to the server and the waiting for its reply. A
call is cut into the steps it does without waiting, so that any number of calls can be interleaved.
Callers who want a resource while a network subscribe for it is in flight join it and share its
outcome.
-/

namespace LiveResource

/-- What a caller who wants a resource has to wait for. -/
inductive Call
  /-- The reply to its own network subscribe, whose outcome others may share. -/
  | fetching (rid : String) (shared : Ticket)
  /-- The outcome of another caller's network subscribe. -/
  | joined (rid : String) (shared : Ticket)
  /-- The first contents, with the subscription counted already. -/
  | loading (rid : String) (pending : Ticket)
deriving DecidableEq, Repr

inductive Leaving
  /-- The server has to be asked. -/
  | asking
  | done

namespace Cache

def subscribe (c : Cache) (rid : String) : Call × Cache :=
  let (e, s) := c.store.obtain rid
  if 0 < e.direct then
    (.loading rid e.pending, { c with store := s.put rid { e with direct := e.direct + 1 } })
  else
    match e.subscribing with
    | some shared => (.joined rid shared, { c with store := s })
    | none =>
      let (shared, ledger) := s.ledger.issue
      (.fetching rid shared, { c with
        store := { s with ledger := ledger }.put rid { e with subscribing := some shared } })

def mergeReply (c : Cache) (rid : String) (subscriptions : Nat) (reply : Outcome Json) :
    Outcome Handle × Cache :=
  match reply with
  | .error fault => (.error fault, c)
  | .ok snapshot =>
    let merged : Except CacheError Handle × Cache := match Batch.ofJson snapshot with
      | .error e => (.error (.malformedSnapshot e), c)
      | .ok batch => c.merge batch rid subscriptions
    match merged with
    | (.ok handle, c) => (.ok handle, c)
    | (.error e, c) =>
      let (fault, c) := c.report e
      (.error fault, c)

/-- The network subscribe of a resource is over. After a failure an entry that nothing needs goes
    away. -/
def closeFetch (s : Store) (rid : String) (result : Outcome Handle) : Store :=
  match s.get? rid with
  | none => s
  | some e =>
    let s := s.put rid { e with subscribing := none }
    match result with
    | .ok _ => s
    | .error fault =>
      if !e.loaded && e.direct == 0 && e.indirect == 0 then
        (s.settle e.pending (.error fault)).remove rid
      else s

def fetched (c : Cache) (rid : String) (shared : Ticket) (reply : Outcome Json) :
    Outcome Handle × Cache :=
  let (result, c) := c.mergeReply rid 1 reply
  let store := (closeFetch c.store rid result).settle shared (result.map fun _ => ())
  (result, { c with store := store })

/-- The outcome of the network subscribe that a caller has joined. If it succeeded the caller's
    subscription is counted, and what is left to wait for are the first contents. -/
def join (c : Cache) (rid : String) (outcome : Outcome Unit) : Outcome Ticket × Cache :=
  match outcome with
  | .error fault => (.error fault, c)
  | .ok () =>
    match c.store.get? rid with
    | none => (.error (CacheError.notFound rid).toFault, c)
    | some e =>
      (.ok e.pending,
        { c with store := c.store.put rid { e with direct := e.direct + 1 } })

def loaded (c : Cache) (rid : String) (outcome : Outcome Unit) : Outcome Handle :=
  match outcome with
  | .error fault => .error fault
  | .ok () =>
    match c.store.handle? rid with
    | some handle => .ok handle
    | none => .error (.notFound rid)

/-- Evict a resource that was left, unless it has been subscribed again. -/
def leave (c : Cache) (rid : String) : Outcome Unit × Cache :=
  match c.store.get? rid with
  | none => (.ok (), c)
  | some e =>
    if e.direct = 0 then
      let c := { c with store := c.store.put rid { e with stale := false } }
      match c.run (Op.tryDelete rid) with
      | (.ok _, _, c) => (.ok (), c)
      | (.error e, _, c) =>
        let (fault, c) := c.report e
        (.error fault, c)
    else (.ok (), c)

/-- Begin to drop one direct subscription. For the last one the server has to be asked, unless it
    has forgotten the subscription with the connection. -/
def unsubscribe (c : Cache) (rid : String) : Outcome Leaving × Cache :=
  match c.store.get? rid with
  | none => (.error (CacheError.notSubscribed rid).toFault, c)
  | some e =>
    if e.direct = 0 then (.error (CacheError.notSubscribed rid).toFault, c)
    else
      let c := { c with store := c.store.put rid { e with direct := e.direct - 1 } }
      if 1 < e.direct then (.ok .done, c)
      else if e.stale then
        match c.leave rid with
        | (.ok (), c) => (.ok .done, c)
        | (.error fault, c) => (.error fault, c)
      else (.ok .asking, c)

/-- The reply to a network unsubscribe. After a failure the subscription is restored. -/
def released (c : Cache) (rid : String) (reply : Outcome Unit) : Outcome Unit × Cache :=
  match reply with
  | .ok () => c.leave rid
  | .error fault =>
    (.error fault,
      { c with store := c.store.modify rid fun e => { e with direct := e.direct + 1 } })

/-- Drop a resource as if the server had ended its subscription. -/
def dropSubscription (c : Cache) (rid : String) (reason : Fault) : Cache :=
  match c.run (Op.endSubscription rid reason) with
  | (.error e, _, c) => (c.report e).2
  | (.ok (), out, c) =>
    match c.flush out with
    | (.ok (), c) => c
    | (.error e, c) => (c.report e).2

def resubscribed (c : Cache) (rid : String) (reply : Outcome Json) : Cache :=
  match c.mergeReply rid 0 reply with
  | (.ok _, c) => c
  | (.error reason, c) => c.dropSubscription rid reason

end Cache

end LiveResource
