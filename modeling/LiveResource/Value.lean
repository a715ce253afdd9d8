import LiveResource.Json.Basic

set_option autoImplicit false

/-!
# Values of live resources

A field of a model or an element of a collection. A hard reference keeps the resource it points to
cached, a soft one only names it. Hard references are equal when they name the same resource.
-/

namespace LiveResource

inductive Kind
  | model
  | collection
  | error
deriving DecidableEq, Repr

def Kind.text : Kind → String
  | model => "model"
  | collection => "collection"
  | error => "error"

/-- A hard reference, with the kind and the replica its target had when the reference was read. -/
structure Ref where
  rid : String
  kind : Kind
  replica : Nat
deriving DecidableEq, Repr

instance : BEq Ref := ⟨fun a b => a.rid == b.rid⟩

inductive Value
  | null
  | bool (b : Bool)
  | number (n : Number)
  | string (s : String)
  | hard (ref : Ref)
  | soft (rid : String)
  /-- Opaque data, passed on unchanged. -/
  | data (j : Json)
  /-- Marks a field that is removed, in changes only. -/
  | delete
deriving Inhabited

namespace Value

def same : Value → Value → Bool
  | null, null => true
  | bool a, bool b => a == b
  | number a, number b => a == b
  | string a, string b => a == b
  | hard a, hard b => a == b
  | soft a, soft b => a == b
  | data a, data b => a == b
  | delete, delete => true
  | _, _ => false

instance : BEq Value := ⟨same⟩

def hardRef? : Value → Option String
  | hard ref => some ref.rid
  | _ => none

def str? : Value → Option String
  | string s => some s
  | _ => none

def bool? : Value → Option Bool
  | bool b => some b
  | _ => none

/-- The nearest binary64 number to a number, as its encoding. -/
def floatBits? : Value → Option UInt64
  | number n => some n.toFloatBits
  | _ => none

def isDelete : Value → Bool
  | delete => true
  | _ => false

def toJson : Value → Json
  | null => .null
  | bool b => .bool b
  | number n => .num n
  | string s => .str s
  | hard ref => .obj [("rid", .str ref.rid)]
  | soft rid => .obj [("rid", .str rid), ("soft", .bool true)]
  | data j => .obj [("data", j)]
  | delete => .obj [("action", .str "delete")]

end Value

abbrev Fields := Dict Value

def hardRefs (values : List Value) : List String := values.filterMap Value.hardRef?

end LiveResource
