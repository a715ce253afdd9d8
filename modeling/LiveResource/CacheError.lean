import LiveResource.Fault
import LiveResource.Value

set_option autoImplicit false

/-!
# Errors of the cache
-/

namespace LiveResource

/-- What is wrong with an event that cannot be applied. -/
inductive EventFlaw
  | notModel
  | notCollection
  | missingValues
  | missingIndex
  | missingValue
  /-- An insertion behind the end of a collection of so many values. -/
  | addOutOfRange (index length : Nat)
  /-- A removal at or behind the end. -/
  | removeOutOfRange (index length : Nat)
  | batch (error : DecodeError)

def EventFlaw.message : EventFlaw → String
  | notModel => "resource is not a model"
  | notCollection => "resource is not a collection"
  | missingValues => "missing values"
  | missingIndex => "missing idx"
  | missingValue => "missing value"
  | addOutOfRange index length =>
    "index " ++ String.ofList (Json.natText index) ++ " out of range 0..=" ++
      String.ofList (Json.natText length)
  | removeOutOfRange index length =>
    "index " ++ String.ofList (Json.natText index) ++ " out of range 0.." ++
      String.ofList (Json.natText length)
  | batch error => error.message

inductive CacheError
  | notFound (rid : String)
  | invalidValue (token : Json)
  | kindMismatch (rid : String) (cached received : Kind)
  | negativeReferences (rid : String)
  | handler (rid : String) (fault : Fault)
  | invalidEvent (rid name : String) (flaw : EventFlaw)
  | notSubscribed (rid : String)
  | malformedSnapshot (error : DecodeError)
  | resource (fault : Fault)

namespace CacheError

def message : CacheError → String
  | notFound rid => "resource not found: " ++ rid
  | invalidValue token => "invalid value: " ++ token.text
  | kindMismatch rid cached received =>
    "resource " ++ rid ++ " is cached as " ++ cached.text ++ ", received as " ++ received.text
  | negativeReferences rid => "indirect reference count of " ++ rid ++ " would become negative"
  | handler rid fault => "handler for " ++ rid ++ " failed: " ++ fault.text
  | invalidEvent rid name flaw => "invalid " ++ name ++ " event for " ++ rid ++ ": " ++ flaw.message
  | notSubscribed rid => "not subscribed: " ++ rid
  | malformedSnapshot error => "malformed snapshot: " ++ error.message
  | resource fault => fault.text

def isFatal : CacheError → Bool
  | notFound _ => true
  | kindMismatch _ _ _ => true
  | negativeReferences _ => true
  | malformedSnapshot _ => true
  | _ => false

def toFault : CacheError → Fault
  | resource fault => fault
  | notFound rid => .notFound rid
  | other => .internal other.message

end CacheError

end LiveResource
