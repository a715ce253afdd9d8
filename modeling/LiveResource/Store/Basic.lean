import LiveResource.Event
import LiveResource.Ledger

set_option autoImplicit false

/-!
# The store of cached resources

An entry counts the direct subscriptions to its resource and the hard references that other entries
hold to it. A store operation may fail half way; what it has done until then stays done, so its
result carries the store in both cases.
-/

namespace LiveResource

/-- The counts are natural numbers: it is assumed that no resource ever has 2 ^ 32 subscriptions or
references, which is where counters of a machine would overflow. -/
structure Entry where
  kind : Option Kind
  replica : Option Replica
  loaded : Bool
  direct : Nat
  indirect : Nat
  /-- Settled once the first contents are in place, or cannot be had. -/
  pending : Ticket
  /-- There while a network subscribe for this resource is in flight. -/
  subscribing : Option Ticket
  /-- Subscribed before the connection was lost and not yet resubscribed. -/
  stale : Bool
deriving Inhabited

namespace Entry

def fresh (pending : Ticket) : Entry := ⟨none, none, false, 0, 0, pending, none, false⟩

def handle? (e : Entry) (rid : String) : Option Handle :=
  match e.kind, e.replica with
  | some kind, some replica => if e.loaded then some ⟨rid, kind, replica.id⟩ else none
  | _, _ => none

def hardRefs (e : Entry) : List String :=
  match e.replica with
  | some replica => replica.hardRefs
  | none => []

def fault? (e : Entry) : Option Fault :=
  match e.replica with
  | some ⟨_, .error fault, _, _⟩ => some fault
  | _ => none

end Entry

structure Store where
  entries : Dict Entry
  /-- The replicas that are cached no more. A handle may still show them. -/
  retired : List Replica
  /-- Who waits for what: the loading of entries and network subscribes. -/
  ledger : Ledger (Outcome Unit)
  nextReplica : Nat

namespace Store

def empty : Store := ⟨∅, [], .empty, 0⟩

instance : Inhabited Store := ⟨empty⟩

def get? (s : Store) (rid : String) : Option Entry := s.entries.get? rid

def put (s : Store) (rid : String) (e : Entry) : Store :=
  { s with entries := s.entries.insert rid e }

def modify (s : Store) (rid : String) (f : Entry → Entry) : Store :=
  { s with entries := s.entries.modify rid f }

def settle (s : Store) (t : Ticket) (outcome : Outcome Unit) : Store :=
  { s with ledger := s.ledger.settle t outcome }

/-- The entry of a resource, a fresh one if there was none. -/
def obtain (s : Store) (rid : String) : Entry × Store :=
  match s.get? rid with
  | some e => (e, s)
  | none =>
    let (ticket, ledger) := s.ledger.issue
    (.fresh ticket, { s with ledger := ledger }.put rid (.fresh ticket))

def ensure (s : Store) (rid : String) : Store := (s.obtain rid).2

def rids (s : Store) : List String := (s.entries.filter fun _ e => e.loaded).keys

def isLoaded (s : Store) (rid : String) : Bool :=
  match s.get? rid with
  | some e => e.loaded
  | none => false

def handle? (s : Store) (rid : String) : Option Handle :=
  (s.get? rid).bind (·.handle? rid)

/-- The replica that a handle shows, cached or not. -/
def replica? (s : Store) (h : Handle) : Option Replica :=
  let cached := (s.get? h.rid).bind (·.replica)
  match cached with
  | some r => if r.id = h.replica then some r else s.retired.find? (·.id = h.replica)
  | none => s.retired.find? (·.id = h.replica)

end Store

/-- What a store operation leaves to be done after it: events and errors to deliver, and resources
    that lost a reference and may have become unreachable. -/
structure Output where
  events : List ResourceEvent := []
  errors : List CacheError := []
  orphans : List String := []

instance : Inhabited Output := ⟨{}⟩

structure Work where
  store : Store
  out : Output

/-- A store operation: it may fail, and changes the store in either case. -/
abbrev Op (α : Type) := EStateM CacheError Work α

namespace Op

def modifyStore (f : Store → Store) : Op Unit := modify fun w => { w with store := f w.store }

def emit (event : ResourceEvent) : Op Unit :=
  modify fun w => { w with out := { w.out with events := w.out.events ++ [event] } }

def report (error : CacheError) : Op Unit :=
  modify fun w => { w with out := { w.out with errors := w.out.errors ++ [error] } }

def orphan (rid : String) : Op Unit :=
  modify fun w => { w with out := { w.out with orphans := w.out.orphans ++ [rid] } }

def liftStore {α : Type} (f : Store → Except CacheError α) : Op α := fun w =>
  match f w.store with
  | .ok a => .ok a w
  | .error e => .error e w

def entry (rid : String) : Op Entry := liftStore fun s =>
  match s.get? rid with
  | some e => .ok e
  | none => .error (.notFound rid)

def replica (rid : String) : Op Replica := liftStore fun s =>
  match (s.get? rid).bind (·.replica) with
  | some r => .ok r
  | none => .error (.notFound rid)

def setReplica (rid : String) (replica : Replica) : Op Unit :=
  modifyStore (·.modify rid fun e => { e with replica := some replica })

def addIndirect (rid : String) : Op Unit := do
  let _ ← entry rid
  modifyStore (·.modify rid fun e => { e with indirect := e.indirect + 1 })

def removeIndirect (rid : String) : Op Unit := do
  let e ← entry rid
  if e.indirect = 0 then throw (.negativeReferences rid)
  modifyStore (·.modify rid fun e => { e with indirect := e.indirect - 1 })

def releaseReference (rid : String) : Op Unit := do
  removeIndirect rid
  let e ← entry rid
  if e.direct = 0 then orphan rid

def countValue (value : Value) : Op Unit :=
  match value.hardRef? with
  | some rid => addIndirect rid
  | none => pure ()

def releaseValue (value : Value) : Op Unit :=
  match value.hardRef? with
  | some rid => releaseReference rid
  | none => pure ()

/-- Report the failure of a hook; tell whether it let the event pass. -/
def judged (rid : String) (outcome : Outcome Bool) : Op Bool :=
  match outcome with
  | .ok passed => pure passed
  | .error fault => do
    report (.handler rid fault)
    pure false

end Op

end LiveResource
