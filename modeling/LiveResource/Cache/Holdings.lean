import LiveResource.Cache.Basic

set_option autoImplicit false

/-!
# Handles kept by an application

A handle shows its replica for as long as it is kept, also after the resource has been evicted. A
hard reference leads to its target only while the target's replica is alive.
-/

namespace LiveResource

structure View where
  rid : String
  kind : Kind
  content : Content

namespace Cache

def view? (c : Cache) (h : Handle) : Option View :=
  (c.store.replica? h).map fun r => ⟨h.rid, h.kind, r.content⟩

def viewOutcome (c : Cache) : Outcome Handle → Outcome View
  | .error fault => .error fault
  | .ok handle =>
    match c.view? handle with
    | some view => .ok view
    | none => .error (.notFound handle.rid)

def field? (c : Cache) (h : Handle) (key : String) : Option Value :=
  match c.store.replica? h with
  | some ⟨_, .model fields, _, _⟩ => fields.get? key
  | _ => none

def holds (c : Cache) (h : Handle) : Bool :=
  match (c.store.get? h.rid).bind (·.replica) with
  | some r => r.id == h.replica
  | none => false

end Cache

abbrev Holdings := Dict Handle

namespace Holdings

def hold (held : Holdings) (c : Cache) (rid name : String) : Bool × Holdings :=
  match c.get? rid with
  | none => (false, held)
  | some handle => (true, held.insert name handle)

def release (held : Holdings) (name : String) : Bool × Holdings :=
  (held.contains name, held.erase name)

def sameReplica? (held : Holdings) (c : Cache) (name rid : String) : Option Bool :=
  match held.get? name, c.get? rid with
  | some a, some b => some (a.replica == b.replica)
  | _, _ => none

/-- A replica is alive while it is cached or a handle of it is kept. -/
def isAlive (held : Holdings) (c : Cache) (h : Handle) : Bool :=
  c.holds h || held.values.any (·.replica == h.replica)

/-- The hard reference in a field of a kept model, or else of a cached one. -/
def refIn? (held : Holdings) (c : Cache) (name : Option String) (rid key : String) : Option Ref :=
  let handle := (name.bind held.get?).or (c.get? rid)
  match handle.bind fun h => c.field? h key with
  | some (.hard ref) => some ref
  | _ => none

def target? (held : Holdings) (c : Cache) (ref : Ref) : Option View :=
  if held.isAlive c ref.handle then c.view? ref.handle else none

end Holdings

end LiveResource
