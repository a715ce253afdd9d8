import LiveResource.Fault
import LiveResource.Value

set_option autoImplicit false

/-!
# Replicas

A replica is the local copy of a remote resource. Its hooks are called after its contents have
changed; they may edit the contents, transform or suppress the event, or fail. A hook may answer
differently from call to call, so each is told how many hook calls its replica has had before.
-/

namespace LiveResource

/-- The fields of a model that changed, before and after. A field that was or is absent is marked
    as deleted there. -/
structure Change where
  new : Fields
  old : Fields

structure Hooks where
  /-- After the first fields of a model have been stored. -/
  initModel : Nat → Fields → Fields × Outcome Unit := fun _ fields => (fields, .ok ())
  /-- After the first values of a collection have been stored. -/
  initCollection : Nat → List Value → List Value × Outcome Unit :=
    fun _ values => (values, .ok ())
  /-- After a change was applied. No change is an event suppressed. -/
  change : Nat → Fields → Change → Fields × Outcome (Option Change) :=
    fun _ fields change => (fields, .ok (some change))
  /-- After a value was inserted. False suppresses the event. -/
  add : Nat → List Value → Nat → Value → List Value × Outcome Bool :=
    fun _ values _ _ => (values, .ok true)
  remove : Nat → List Value → Nat → Value → List Value × Outcome Bool :=
    fun _ values _ _ => (values, .ok true)
  /-- On a custom event of a model. -/
  customModel : Nat → Fields → String → Option Json → Fields × Outcome Bool :=
    fun _ fields _ _ => (fields, .ok true)
  /-- On a custom event of a collection. -/
  customCollection : Nat → List Value → String → Option Json → List Value × Outcome Bool :=
    fun _ values _ _ => (values, .ok true)

def Hooks.pass : Hooks := {}

instance : Inhabited Hooks := ⟨.pass⟩

inductive Content
  | model (fields : Fields)
  | collection (values : List Value)
  | error (fault : Fault)
deriving Inhabited

namespace Content

def kind : Content → Kind
  | model _ => .model
  | collection _ => .collection
  | error _ => .error

def values : Content → List Value
  | model fields => fields.values
  | collection values => values
  | error _ => []

def same : Content → Content → Bool
  | model a, model b => a == b
  | collection a, collection b => a == b
  | error a, error b => a == b
  | _, _ => false

instance : BEq Content := ⟨same⟩

end Content

structure Replica where
  /-- Tells this replica from every other one, of the same resource or not. -/
  id : Nat
  content : Content
  hooks : Hooks
  turn : Nat
deriving Inhabited

def Replica.hardRefs (r : Replica) : List String := LiveResource.hardRefs r.content.values

def Replica.withContent (r : Replica) (content : Content) : Replica := { r with content := content }

/-- The replica after a hook call that left these contents. -/
def Replica.hooked (r : Replica) (content : Content) : Replica :=
  { r with content := content, turn := r.turn + 1 }

structure Handle where
  rid : String
  kind : Kind
  replica : Nat
deriving DecidableEq, Repr

def Ref.handle (r : Ref) : Handle := ⟨r.rid, r.kind, r.replica⟩

end LiveResource
