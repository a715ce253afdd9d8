import LiveResource.Store.Eviction
import LiveResource.Store.Merge

set_option autoImplicit false

/-!
# The cache

The cache holds exactly the resources that can be reached through hard references from directly
subscribed ones, and those that are still loading. Every operation merges, edits or evicts, and
sends its events and errors on the channel.
-/

namespace LiveResource

structure Cache where
  registry : Registry
  store : Store
  channel : List Notice

namespace Store

def settleLoaded (s : Store) (rid : String) : Store :=
  match s.get? rid with
  | none => s
  | some e =>
    s.settle e.pending (match e.fault? with
      | some fault => .error fault
      | none => .ok ())

def settlePresent (s : Store) (rid : String) : Store :=
  match s.get? rid with
  | none => s
  | some e => s.settle e.pending (.ok ())

/-- Take hold of a loaded resource, with one more subscription or with none. It is up to date now.
    An error resource cannot be held. -/
def claim (s : Store) (rid : String) (subscriptions : Nat) : Except CacheError Handle × Store :=
  match s.get? rid with
  | none => (.error (.notFound rid), s)
  | some e =>
    if e.loaded then
      match e.fault? with
      | some fault => (.error (.resource fault), s)
      | none =>
        let e := { e with direct := e.direct + subscriptions, stale := false }
        match e.handle? rid with
        | some handle => (.ok handle, s.put rid e)
        | none => (.error (.notFound rid), s.put rid e)
    else (.error (.notFound rid), s)

def staleRids (s : Store) : List String := (s.entries.filter fun _ e => e.stale).keys

def isStale (s : Store) (rid : String) : Bool :=
  match s.get? rid with
  | some e => e.stale
  | none => false

def counts? (s : Store) (rid : String) : Option (Nat × Nat) :=
  (s.get? rid).map fun e => (e.direct, e.indirect)

end Store

namespace Op

def endSubscription (rid : String) (reason : Fault) : Op Unit := do
  modifyStore (·.modify rid fun e => { e with direct := 0, stale := false })
  let _ ← tryDelete rid
  emit (.unsubscribe rid reason)

def mergeEmbedded (registry : Registry) (rid name : String) (data : Json) : Op Unit :=
  match Batch.ofJson data with
  | .error e => throw (.invalidEvent rid name (.batch e))
  | .ok batch => do
    let created ← addResources registry batch
    modifyStore fun s => created.foldl Store.settlePresent s
    created.forM orphan

def hasBatch (members : List (String × Json)) : Bool :=
  Batch.sectionNames.any fun name => (Dict.lookup name members).isSome

def need {α : Type} (rid name : String) (flaw : EventFlaw) (part : Option α) : Op α :=
  match part with
  | some a => pure a
  | none => throw (.invalidEvent rid name flaw)

def applyEvent (registry : Registry) (rid : String) (kind : Option Kind) (name : String)
    (data : Option Json) : Op Unit := do
  let members := (data.bind Json.members?).getD []
  if hasBatch members then mergeEmbedded registry rid name (.obj members)
  let index := (Dict.lookup "idx" members).bind Json.natural?
  match kind with
  | some .model =>
    if name = "change" then
      let tokens ← need rid name .missingValues
        ((Dict.lookup "values" members).bind Json.members?)
      let changes ← liftStore (·.parseChanges tokens)
      applyChange rid changes
    else applyCustom rid name data
  | some .collection =>
    if name = "add" then
      let index ← need rid name .missingIndex index
      let token ← need rid name .missingValue (Dict.lookup "value" members)
      let value ← liftStore (·.parseStored token)
      applyAdd rid index value
    else if name = "remove" then
      let index ← need rid name .missingIndex index
      applyRemove rid index
    else applyCustom rid name data
  | some .error => pure ()
  | none => applyCustom rid name data

end Op

namespace Cache

def empty : Cache := ⟨.empty, .empty, []⟩

instance : Inhabited Cache := ⟨empty⟩

def send (c : Cache) (notice : Notice) : Cache := { c with channel := c.channel ++ [notice] }

/-- Send an error on the channel. Returns what a caller is told. -/
def report (c : Cache) (error : CacheError) : Fault × Cache :=
  (error.toFault, c.send (.cacheError error))

def run {α : Type} (c : Cache) (op : Op α) : Except CacheError α × Output × Cache :=
  match op ⟨c.store, {}⟩ with
  | .ok a w => (.ok a, w.out, { c with store := w.store })
  | .error e w => (.error e, w.out, { c with store := w.store })

/-- Deliver events and errors, then evict what has become unreachable. -/
def flush (c : Cache) (out : Output) : Except CacheError Unit × Cache :=
  let c := { c with
    channel := c.channel ++ out.events.map Notice.resource ++
      out.errors.map Notice.cacheError }
  match c.run (Op.collect out.orphans) with
  | (result, _, c) => (result, c)

def merge (c : Cache) (batch : Batch) (rid : String) (subscriptions : Nat) :
    Except CacheError Handle × Cache :=
  match c.run (Op.addResources c.registry batch) with
  | (.error e, _, c) => (.error e, c)
  | (.ok created, out, c) =>
    let (result, store) := (created.foldl Store.settleLoaded c.store).claim rid subscriptions
    match ({ c with store := store }).flush { out with orphans := out.orphans ++ created } with
    | (.error e, c) => (.error e, c)
    | (.ok (), c) => (result, c)

def add (c : Cache) (batch : Batch) (rid : String) : Except CacheError Handle × Cache :=
  c.merge batch rid 1

/-- Merge a batch for a stale resource, whose subscriptions are counted already. -/
def resubscribe (c : Cache) (batch : Batch) (rid : String) : Except CacheError Handle × Cache :=
  c.merge batch rid 0

def reasonOf (data : Option Json) : Fault :=
  match (data.bind (Json.get? "reason")).map Fault.ofJson with
  | some (.ok fault) => fault
  | _ => .missingReason

def eventOp (registry : Registry) (e : Entry) (rid name : String) (data : Option Json) : Op Unit :=
  if name = "unsubscribe" then Op.endSubscription rid (reasonOf data)
  else Op.applyEvent registry rid e.kind name data

/-- Apply a server event to its resource. An event for a resource that is not loaded is dropped.
    Returns the event as it was delivered, unless it was dropped or suppressed. -/
def handleEvent (c : Cache) (rid name : String) (data : Option Json) :
    Except CacheError (Option ResourceEvent) × Cache :=
  match c.store.get? rid with
  | none => (.ok none, c)
  | some e =>
    if !c.store.ledger.isSettled e.pending || !e.loaded then (.ok none, c)
    else
      match c.run (eventOp c.registry e rid name data) with
      | (applied, out, c) =>
        let delivered := out.events.getLast?.filter (·.rid == rid)
        match c.flush out with
        | (.error e, c) => (.error e, c)
        | (.ok (), c) =>
          match applied with
          | .error e => (.error e, c)
          | .ok () => (.ok delivered, c)

/-- Mark every directly subscribed resource as stale. Returns how many there are. -/
def setAllStale (c : Cache) : Nat × Cache :=
  let subscribed (e : Entry) : Bool := e.loaded && 0 < e.direct
  let count := (c.store.entries.filter fun _ e => subscribed e).size
  let entries := c.store.entries.map fun e => if subscribed e then { e with stale := true } else e
  (count, { c with store := { c.store with entries := entries } })

def get? (c : Cache) (rid : String) : Option Handle := c.store.handle? rid

def getItem (c : Cache) (rid : String) : Except CacheError Handle :=
  match c.get? rid with
  | some handle => .ok handle
  | none => .error (.notFound rid)

def registerModel (c : Cache) (pattern : String) (factory : ModelFactory) :
    Except PatternError Cache :=
  (c.registry.registerModel pattern factory).map fun r => { c with registry := r }

def registerCollection (c : Cache) (pattern : String) (factory : CollectionFactory) :
    Except PatternError Cache :=
  (c.registry.registerCollection pattern factory).map fun r => { c with registry := r }

end Cache

end LiveResource
