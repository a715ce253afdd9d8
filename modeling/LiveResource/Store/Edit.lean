import LiveResource.Store.Basic

set_option autoImplicit false

/-!
# Edits of a cached replica

Each edit changes the contents, moves the reference counts along, and then asks the replica's hook
what becomes of the event.
-/

namespace LiveResource

def Change.write (fields : Fields) (change : Change) (key : String) (value : Value) :
    Fields × Change :=
  let old := (fields.get? key).getD .delete
  if old == value then (fields, change)
  else
    let fields := if value.isDelete then fields.erase key else fields.insert key value
    (fields, ⟨change.new.insert key value, change.old.insert key old⟩)

def Change.writeAll (fields : Fields) (change : Change) : List (String × Value) → Fields × Change
  | [] => (fields, change)
  | (key, value) :: rest =>
    let (fields, change) := Change.write fields change key value
    Change.writeAll fields change rest

def Change.none : Change := ⟨∅, ∅⟩

namespace Op

/-- Change fields of a model. Fields that keep their value are no part of the event, and an event
    without fields is none. -/
def applyChange (rid : String) (changes : Fields) : Op Unit := do
  let replica ← replica rid
  match replica.content with
  | .model fields =>
    let (fields, change) := Change.writeAll fields .none changes.entries
    if change.new.isEmpty then pure ()
    else
      setReplica rid (replica.withContent (.model fields))
      change.new.values.forM countValue
      change.old.values.forM releaseValue
      let (fields, outcome) := replica.hooks.change replica.turn fields change
      setReplica rid (replica.hooked (.model fields))
      match outcome with
      | .ok (some change) => emit (.change rid change)
      | .ok .none => pure ()
      | .error fault => report (.handler rid fault)
  | _ => throw (.invalidEvent rid "change" .notModel)

def applyAdd (rid : String) (index : Nat) (value : Value) : Op Unit := do
  let replica ← replica rid
  match replica.content with
  | .collection values =>
    if values.length < index then
      throw (.invalidEvent rid "add" (.addOutOfRange index values.length))
    let values := values.insertIdx index value
    setReplica rid (replica.withContent (.collection values))
    countValue value
    let (values, outcome) := replica.hooks.add replica.turn values index value
    setReplica rid (replica.hooked (.collection values))
    if ← judged rid outcome then emit (.add rid index value)
  | _ => throw (.invalidEvent rid "add" .notCollection)

def applyRemove (rid : String) (index : Nat) : Op Unit := do
  let replica ← replica rid
  match replica.content with
  | .collection values =>
    match values[index]? with
    | none => throw (.invalidEvent rid "remove" (.removeOutOfRange index values.length))
    | some value =>
      let values := values.eraseIdx index
      setReplica rid (replica.withContent (.collection values))
      releaseValue value
      let (values, outcome) := replica.hooks.remove replica.turn values index value
      setReplica rid (replica.hooked (.collection values))
      if ← judged rid outcome then emit (.remove rid index value)
  | _ => throw (.invalidEvent rid "remove" .notCollection)

/-- Pass on a custom event. Error resources have none. -/
def applyCustom (rid name : String) (data : Option Json) : Op Unit := do
  let replica ← replica rid
  match replica.content with
  | .model fields =>
    let (fields, outcome) := replica.hooks.customModel replica.turn fields name data
    setReplica rid (replica.hooked (.model fields))
    if ← judged rid outcome then emit (.custom rid name data)
  | .collection values =>
    let (values, outcome) := replica.hooks.customCollection replica.turn values name data
    setReplica rid (replica.hooked (.collection values))
    if ← judged rid outcome then emit (.custom rid name data)
  | .error _ => pure ()

end Op

end LiveResource
