import LiveResource.Reconcile
import LiveResource.Registry
import LiveResource.Store.Edit
import LiveResource.Store.Token

set_option autoImplicit false

/-!
# Merging a batch

First the whole batch is checked. Then every resource of the batch that is not loaded gets a
replica, so that references within the batch find their targets whatever their order. Then the new
replicas are filled, and the loaded ones are brought in line with their snapshots by replaying the
difference as events.
-/

namespace LiveResource

/-- Put a pair in front of the first one whose key is not smaller. -/
def insertByKey {α : Type} (e : String × α) : List (String × α) → List (String × α)
  | [] => [e]
  | e' :: rest => if e'.1 < e.1 then e' :: insertByKey e rest else e :: e' :: rest

/-- The resources that a batch lists, in rid order. A rid listed in several sections comes once for
    each, models before collections and these before errors. -/
def Batch.incoming (b : Batch) : List (String × Kind) :=
  let listed := b.models.keys.map (·, Kind.model) ++ b.collections.keys.map (·, Kind.collection) ++
    b.errors.keys.map (·, Kind.error)
  listed.foldr insertByKey []

/-- A loaded resource must be listed as what it is. -/
def Store.checkKinds (s : Store) : List (String × Kind) → Except CacheError Unit
  | [] => .ok ()
  | (rid, kind) :: rest =>
    match s.get? rid with
    | some e =>
      match e.kind with
      | some cached =>
        if e.loaded && cached != kind then .error (.kindMismatch rid cached kind)
        else s.checkKinds rest
      | none => s.checkKinds rest
    | none => s.checkKinds rest

def Registry.create (r : Registry) (batch : Batch) (rid : String) : Kind → Content × Hooks
  | .model =>
    let (fields, hooks) := r.createModel rid
    (.model fields, hooks)
  | .collection =>
    let (values, hooks) := r.createCollection rid
    (.collection values, hooks)
  | .error => (.error ((batch.errors.get? rid).getD default), .pass)

namespace Store

/-- Give a resource that is not loaded a new replica. -/
def create (s : Store) (registry : Registry) (batch : Batch) (rid : String) (kind : Kind) : Store :=
  let (content, hooks) := registry.create batch rid kind
  let replica : Replica := ⟨s.nextReplica, content, hooks, 0⟩
  { s with nextReplica := s.nextReplica + 1 }.modify rid fun e =>
    { e with kind := some kind, replica := some replica }

/-- Make sure that every listed resource has a replica. Returns the resources that got one and
    those that were loaded before. -/
def createAll (s : Store) (registry : Registry) (batch : Batch) :
    List (String × Kind) → Store × List String × List (String × Kind)
  | [] => (s, [], [])
  | (rid, kind) :: rest =>
    let s := s.ensure rid
    if s.isLoaded rid then
      let (s, created, synced) := s.createAll registry batch rest
      (s, created, (rid, kind) :: synced)
    else
      let (s, created, synced) := (s.create registry batch rid kind).createAll registry batch rest
      (s, rid :: created, synced)

end Store

namespace Op

def parseCounted (token : Json) : Op Value := do
  let value ← liftStore (·.parseStored token)
  countValue value
  pure value

def parseFieldsCounted : List (String × Json) → Op (List (String × Value))
  | [] => pure []
  | (key, token) :: rest => do
    let value ← parseCounted token
    let others ← parseFieldsCounted rest
    pure ((key, value) :: others)

def parseValuesCounted : List Json → Op (List Value)
  | [] => pure []
  | token :: rest => do
    let value ← parseCounted token
    let others ← parseValuesCounted rest
    pure (value :: others)

def initContent (batch : Batch) (rid : String) : Op Unit := do
  let replica ← replica rid
  match batch.models.get? rid, batch.collections.get? rid with
  | some tokens, _ =>
    let fields ← parseFieldsCounted tokens.entries
    match replica.content with
    | .model _ =>
      let (fields, outcome) := replica.hooks.initModel replica.turn (Dict.ofList fields)
      setReplica rid (replica.hooked (.model fields))
      let _ ← judged rid (outcome.map fun _ => true)
    | _ => pure ()
  | none, some tokens =>
    let values ← parseValuesCounted tokens
    match replica.content with
    | .collection _ =>
      let (values, outcome) := replica.hooks.initCollection replica.turn values
      setReplica rid (replica.hooked (.collection values))
      let _ ← judged rid (outcome.map fun _ => true)
    | _ => pure ()
  | none, none => pure ()

def initResource (batch : Batch) (rid : String) : Op Unit := do
  initContent batch rid
  let _ ← entry rid
  modifyStore (·.modify rid fun e => { e with loaded := true })

def applyEdit (rid : String) : Edit → Op Unit
  | .add index value => applyAdd rid index value
  | .remove index => applyRemove rid index

def synchronize (batch : Batch) (rid : String) (kind : Kind) : Op Unit := do
  let replica ← replica rid
  match kind with
  | .model =>
    let fields ← liftStore (·.parseFields ((batch.models.get? rid).getD ∅))
    match replica.content with
    | .model old =>
      let changes := diffModel old fields
      if changes.isEmpty then pure () else applyChange rid changes
    | _ => pure ()
  | .collection =>
    let values ← liftStore (·.parseValues ((batch.collections.get? rid).getD []))
    match replica.content with
    | .collection old => (diffCollection old values).forM (applyEdit rid)
    | _ => pure ()
  | .error =>
    setReplica rid
      { replica with content := .error ((batch.errors.get? rid).getD default), hooks := .pass }

/-- Merge a batch. Returns the resources that were created for it. -/
def addResources (registry : Registry) (batch : Batch) : Op (List String) := do
  let incoming := batch.incoming
  liftStore (·.checkKinds incoming)
  liftStore (·.validate batch)
  let (store, created, synced) := (← get).store.createAll registry batch incoming
  modifyStore fun _ => store
  created.forM (initResource batch)
  synced.forM fun (rid, kind) => synchronize batch rid kind
  pure created

end Op

end LiveResource
