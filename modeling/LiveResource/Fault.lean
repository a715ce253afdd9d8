import LiveResource.DecodeError

set_option autoImplicit false

/-!
# Faults

A fault is the error object of an application: what a request may be answered with, why a
subscription ended, and what an error resource holds. A few codes have a fixed meaning.
-/

namespace LiveResource

structure Fault where
  code : String
  message : String
  data : Option Json
deriving Inhabited

namespace Fault

instance : BEq Fault :=
  ⟨fun a b => a.code == b.code && a.message == b.message && a.data == b.data⟩

def notFoundCode : String := "system.notFound"

def internalCode : String := "system.internalError"

def connectionClosedCode : String := "system.connectionClosed"

def missingReasonCode : String := "system.missingReason"

def make (code message : String) : Fault := ⟨code, message, none⟩

def notFound (rid : String) : Fault := make notFoundCode ("Resource not found: " ++ rid)

def internal (message : String) : Fault := make internalCode message

def connectionClosed : Fault := make connectionClosedCode "Connection closed"

def missingReason : Fault := make missingReasonCode "Unsubscribed without a reason"

def isConnectionClosed (f : Fault) : Bool := f.code == connectionClosedCode

def text (f : Fault) : String := f.code ++ ": " ++ f.message

def toJson (f : Fault) : Json :=
  .obj (("code", .str f.code) ::
    ((f.data.map fun d => ("data", d)).toList ++ [("message", .str f.message)]))

/-- Null stands for absent data. -/
def present : Json → Option Json
  | .null => none
  | j => some j

structure Partial where
  code : Option String
  message : Option String
  data : Option Json

/-- Take the members of an error object in their order. Members of other names are skipped. -/
def Partial.take (p : Partial) : List (String × Json) → Decoded Partial
  | [] => .ok p
  | (key, value) :: rest =>
    if key = "code" then
      match Decoded.string value with
      | .error e => .error e
      | .ok s => Partial.take { p with code := some s } rest
    else if key = "message" then
      match Decoded.string value with
      | .error e => .error e
      | .ok s => Partial.take { p with message := some s } rest
    else if key = "data" then Partial.take { p with data := present value } rest
    else Partial.take p rest

def Partial.complete (p : Partial) : Decoded Fault :=
  match p.code, p.message with
  | none, _ => .error (.missing "code")
  | some _, none => .error (.missing "message")
  | some code, some message => .ok ⟨code, message, p.data⟩

def ofItems : List Json → Decoded Fault
  | [] => .error (.tooShort 0)
  | [code] =>
    match Decoded.string code with
    | .error e => .error e
    | .ok _ => .error (.tooShort 1)
  | code :: message :: rest =>
    match Decoded.string code with
    | .error e => .error e
    | .ok code =>
      match Decoded.string message with
      | .error e => .error e
      | .ok message =>
        match rest with
        | [] => .ok ⟨code, message, none⟩
        | [data] => .ok ⟨code, message, present data⟩
        | more => .error (.tooLong (more.length + 2))

/-- The fault that an error object, or an array in its place, denotes. -/
def ofJson : Json → Decoded Fault
  | .obj members =>
    match Partial.take ⟨none, none, none⟩ members with
    | .error e => .error e
    | .ok p => p.complete
  | .arr items => ofItems items
  | other => .error (.wrongType other .fault)

end Fault

/-- How a request or a call ends: with a value or with a fault. -/
abbrev Outcome (α : Type) := Except Fault α

end LiveResource
