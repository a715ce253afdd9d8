import LiveResource.Json.Printer
import LiveResource.Text.Quoted

set_option autoImplicit false

/-!
# Failures of typed decoding

Why a JSON value does not denote a value of the wanted type, and the text that says so.
-/

namespace LiveResource

inductive Wanted
  | batch
  | fault
  | map
  | sequence
  | string
deriving DecidableEq, Repr

def Wanted.text : Wanted → String
  | batch => "struct ResourceSet"
  | fault => "struct ResError"
  | map => "a map"
  | sequence => "a sequence"
  | string => "a string"

inductive DecodeError
  | wrongType (got : Json) (wanted : Wanted)
  /-- A fault given as an array that ends after so many elements. -/
  | tooShort (present : Nat)
  /-- An array with elements that nothing asks for. -/
  | tooLong (length : Nat)
  | missing (field : String)

namespace DecodeError

def describe : Json → String
  | .null => "null"
  | .bool true => "boolean `true`"
  | .bool false => "boolean `false`"
  | .num (.int i) => "integer `" ++ String.ofList (Json.intText i) ++ "`"
  | .num (.float bits) => "floating point `" ++ String.ofList (Json.floatText bits) ++ "`"
  | .str s => "string " ++ Text.quoted s
  | .arr _ => "sequence"
  | .obj _ => "map"

def message : DecodeError → String
  | wrongType got wanted => "invalid type: " ++ describe got ++ ", expected " ++ wanted.text
  | tooShort present =>
    "invalid length " ++ String.ofList (Json.natText present) ++
      ", expected struct ResError with 3 elements"
  | tooLong length =>
    "invalid length " ++ String.ofList (Json.natText length) ++
      ", expected fewer elements in array"
  | missing field => "missing field `" ++ field ++ "`"

end DecodeError

/-- A value or the reason why there is none. -/
abbrev Decoded (α : Type) := Except DecodeError α

namespace Decoded

def string : Json → Decoded String
  | .str s => .ok s
  | other => .error (.wrongType other .string)

def members : Json → Decoded (List (String × Json))
  | .obj members => .ok members
  | other => .error (.wrongType other .map)

def items : Json → Decoded (List Json)
  | .arr items => .ok items
  | other => .error (.wrongType other .sequence)

def each {α : Type} (decode : Json → Decoded α) :
    List (String × Json) → Decoded (List (String × α))
  | [] => .ok []
  | (key, value) :: rest =>
    match decode value with
    | .error e => .error e
    | .ok v =>
      match each decode rest with
      | .error e => .error e
      | .ok vs => .ok ((key, v) :: vs)

def map {α : Type} (decode : Json → Decoded α) (j : Json) : Decoded (Dict α) :=
  match members j with
  | .error e => .error e
  | .ok ms =>
    match each decode ms with
    | .error e => .error e
    | .ok vs => .ok (Dict.ofList vs)

end Decoded

end LiveResource
