import LiveResource.Dict

set_option autoImplicit false

/-!
# JSON values

A number is an integer or a binary64 number, and an integer never equals a binary64 number. Two
values are equal (`==`) when they have the same shape and equal leaves, where the two zeros among
the binary64 numbers are equal.
-/

namespace LiveResource

inductive Number
  | int (i : Int)
  /-- The encoding of a finite binary64 number. -/
  | float (bits : UInt64)
deriving DecidableEq, Repr

namespace Number

def isZeroFloat (bits : UInt64) : Bool := bits = 0 || bits = 0x8000000000000000

def same : Number → Number → Bool
  | int i, int j => i = j
  | float a, float b => a = b || (isZeroFloat a && isZeroFloat b)
  | _, _ => false

instance : BEq Number := ⟨same⟩

def natural? : Number → Option Nat
  | int i => if 0 ≤ i then some i.toNat else none
  | float _ => none

def toFloatBits : Number → UInt64
  | int i =>
    let magnitude := (UInt64.ofNat i.natAbs).toFloat
    (if i < 0 then -magnitude else magnitude).toBits
  | float bits => bits

end Number

inductive Json
  | null
  | bool (b : Bool)
  | num (n : Number)
  | str (s : String)
  | arr (items : List Json)
  | obj (members : List (String × Json))
deriving Inhabited

namespace Json

mutual

def same : Json → Json → Bool
  | null, null => true
  | bool a, bool b => a == b
  | num a, num b => a == b
  | str a, str b => a == b
  | arr as, arr bs => sameItems as bs
  | obj as, obj bs => sameMembers as bs
  | _, _ => false

def sameItems : List Json → List Json → Bool
  | [], [] => true
  | a :: as, b :: bs => same a b && sameItems as bs
  | _, _ => false

def sameMembers : List (String × Json) → List (String × Json) → Bool
  | [], [] => true
  | (k, a) :: as, (l, b) :: bs => k == l && same a b && sameMembers as bs
  | _, _ => false

end

instance : BEq Json := ⟨same⟩

def isNull : Json → Bool
  | null => true
  | _ => false

def bool? : Json → Option Bool
  | bool b => some b
  | _ => none

def str? : Json → Option String
  | str s => some s
  | _ => none

def natural? : Json → Option Nat
  | num n => n.natural?
  | _ => none

def items? : Json → Option (List Json)
  | arr items => some items
  | _ => none

def members? : Json → Option (List (String × Json))
  | obj members => some members
  | _ => none

def get? (key : String) : Json → Option Json
  | obj members => Dict.lookup key members
  | _ => none

def nat (n : Nat) : Json := num (.int n)

end Json

end LiveResource
