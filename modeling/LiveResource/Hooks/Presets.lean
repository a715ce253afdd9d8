import LiveResource.Replica

set_option autoImplicit false

/-!
# Ready-made hooks

Small hooks to combine: they mark, copy or drop a part of the first contents, suppress events, or
fail.
-/

namespace LiveResource.Hooks

def failed (what : String) : Fault := .internal (what ++ " failed")

inductive InitMode
  | pass
  | fail
  /-- Leave a mark with the resource id: the field `_rid`, or a value at the end. -/
  | stamp
  /-- Copy the field `ref` to `ref_dup`, or the first value to the end. -/
  | dup
  /-- Remove the field `ref`, or the first value. -/
  | drop
deriving DecidableEq, Repr

inductive ChangeMode
  | pass
  | fail
  | suppress
  /-- Take the field `secret` out of the event, and suppress an event without new values. -/
  | strip
deriving DecidableEq, Repr

inductive EditMode
  | pass
  | fail
  | suppress
deriving DecidableEq, Repr

inductive CustomMode
  | pass
  | fail
  | suppress
  /-- Let only the event `ping` pass. -/
  | onlyPing
  /-- Let only events with data pass. -/
  | withData
deriving DecidableEq, Repr

structure Modes where
  init : InitMode := .pass
  change : ChangeMode := .pass
  add : EditMode := .pass
  remove : EditMode := .pass
  custom : CustomMode := .pass
deriving DecidableEq, Repr

def initFields (rid : String) (mode : InitMode) (fields : Fields) : Fields × Outcome Unit :=
  match mode with
  | .pass => (fields, .ok ())
  | .fail => (fields, .error (failed "init"))
  | .stamp => (fields.insert "_rid" (.string rid), .ok ())
  | .dup =>
    match fields.get? "ref" with
    | some v => (fields.insert "ref_dup" v, .ok ())
    | none => (fields, .ok ())
  | .drop => (fields.erase "ref", .ok ())

def initValues (rid : String) (mode : InitMode) (values : List Value) :
    List Value × Outcome Unit :=
  match mode with
  | .pass => (values, .ok ())
  | .fail => (values, .error (failed "init"))
  | .stamp => (values ++ [.string rid], .ok ())
  | .dup => (values ++ values.take 1, .ok ())
  | .drop => (values.drop 1, .ok ())

def onChange (mode : ChangeMode) (change : Change) : Outcome (Option Change) :=
  match mode with
  | .pass => .ok (some change)
  | .fail => .error (failed "change")
  | .suppress => .ok none
  | .strip =>
    let stripped : Change := ⟨change.new.erase "secret", change.old.erase "secret"⟩
    .ok (if stripped.new.isEmpty then none else some stripped)

def onEdit (what : String) (mode : EditMode) : Outcome Bool :=
  match mode with
  | .pass => .ok true
  | .fail => .error (failed what)
  | .suppress => .ok false

def onCustom (mode : CustomMode) (name : String) (data : Option Json) : Outcome Bool :=
  match mode with
  | .pass => .ok true
  | .fail => .error (failed "custom")
  | .suppress => .ok false
  | .onlyPing => .ok (name == "ping")
  | .withData => .ok data.isSome

def ofModes (rid : String) (m : Modes) : Hooks where
  initModel _ fields := initFields rid m.init fields
  initCollection _ values := initValues rid m.init values
  change _ fields change := (fields, onChange m.change change)
  add _ values _ _ := (values, onEdit "add" m.add)
  remove _ values _ _ := (values, onEdit "remove" m.remove)
  customModel _ fields name data := (fields, onCustom m.custom name data)
  customCollection _ values name data := (values, onCustom m.custom name data)

end LiveResource.Hooks
