import LiveResource.Json.Basic

set_option autoImplicit false

/-!
# Reading JSON text

`Json.parse?` reads a whole text or nothing. Of two members with one key the later one counts, and
the members of an object come in key order. A text nested too deeply and a number beyond the range
of binary64 are refused.
-/

namespace LiveResource.Json

/-- Arrays and objects may be nested this deep. -/
def maxDepth : Nat := 127

def isBlank (c : Char) : Bool := c = ' ' || c = '\n' || c = '\t' || c = '\r'

def skipBlanks (cs : List Char) : List Char := cs.dropWhile isBlank

def digitValue (c : Char) : Nat := c.toNat - '0'.toNat

def digits (cs : List Char) : List Nat × List Char :=
  ((cs.takeWhile Char.isDigit).map digitValue, cs.dropWhile Char.isDigit)

/-- Decimal digits collected into 64 bits, and the power of ten they stand for. Once a digit does
    not fit, it and the digits after it are left out. -/
structure Significand where
  value : Nat
  exponent : Int

def Significand.fits (s : Significand) (digit : Nat) : Bool := s.value * 10 + digit < Nat.pow 2 64

/-- Digits in front of the point: each one left out counts for its place. -/
def Significand.whole (s : Significand) : List Nat → Significand
  | [] => s
  | d :: ds =>
    if s.fits d then Significand.whole ⟨s.value * 10 + d, s.exponent⟩ ds
    else ⟨s.value, s.exponent + (d :: ds).length⟩

def Significand.fraction (s : Significand) : List Nat → Significand
  | [] => s
  | d :: ds =>
    if s.fits d then Significand.fraction ⟨s.value * 10 + d, s.exponent - 1⟩ ds else s

/-- Division by a power of ten, in strides that binary64 can hold. -/
def scaleDown (f : Float) (n : Nat) : Float :=
  if n ≤ 308 then f / Float.ofScientific 1 false n
  else if f == 0 then f
  else scaleDown (f / Float.ofScientific 1 false 308) (n - 308)
termination_by n

/-- The binary64 number computed for a significand, unless it is out of range. -/
def Significand.toFloat? (s : Significand) : Option Float :=
  let f := (UInt64.ofNat s.value).toFloat
  if s.exponent < 0 then some (scaleDown f s.exponent.natAbs)
  else if f == 0 then some f
  else if s.exponent > 308 then none
  else
    let scaled := f * Float.ofScientific 1 false s.exponent.toNat
    if scaled.isInf then none else some scaled

def signed (negative : Bool) (f : Float) : Number :=
  .float (if negative then -f else f).toBits

/-- An integer literal stays an integer if it is in the range of signed or unsigned 64 bits. Minus
    zero is no integer. -/
def integer? (negative : Bool) (n : Nat) : Option Int :=
  if negative then if 0 < n ∧ n ≤ Nat.pow 2 63 then some (-n) else none
  else if n < Nat.pow 2 64 then some n else none

/-- The number of a literal, from its digits in front of the point, its digits behind the point and
    its exponent. -/
def number? (negative : Bool) (whole : List Nat) (fraction : Option (List Nat))
    (exponent : Option Int) : Option Number :=
  let exact : Option Int :=
    if fraction.isNone ∧ exponent.isNone then
      integer? negative (whole.foldl (fun n d => n * 10 + d) 0)
    else none
  match exact with
  | some i => some (.int i)
  | none =>
    let s := (Significand.mk 0 0).whole whole
    let s := s.fraction (fraction.getD [])
    (Significand.mk s.value (s.exponent + exponent.getD 0)).toFloat?.map (signed negative)

/-- The digits in front of the point: a zero alone, or digits that do not start with a zero. -/
def wholeDigits? : List Char → Option (List Nat × List Char)
  | '0' :: rest => some ([0], rest)
  | c :: rest => if c.isDigit then some (digits (c :: rest)) else none
  | [] => none

def fractionDigits? : List Char → Option (Option (List Nat) × List Char)
  | '.' :: rest =>
    match digits rest with
    | ([], _) => none
    | (ds, rest) => some (some ds, rest)
  | cs => some (none, cs)

def exponentValue? (negative : Bool) (cs : List Char) : Option (Option Int × List Char) :=
  match digits cs with
  | ([], _) => none
  | (ds, rest) =>
    let n : Nat := ds.foldl (fun n d => n * 10 + d) 0
    some (some (if negative then -(n : Int) else n), rest)

def exponentPart? : List Char → Option (Option Int × List Char)
  | c :: rest =>
    if c = 'e' ∨ c = 'E' then
      match rest with
      | '-' :: rest => exponentValue? true rest
      | '+' :: rest => exponentValue? false rest
      | rest => exponentValue? false rest
    else some (none, c :: rest)
  | [] => some (none, [])

def unsignedLiteral? (negative : Bool) (cs : List Char) : Option (Json × List Char) := do
  let (whole, cs) ← wholeDigits? cs
  let (fraction, cs) ← fractionDigits? cs
  let (exponent, cs) ← exponentPart? cs
  let n ← number? negative whole fraction exponent
  some (num n, cs)

def numberLiteral? : List Char → Option (Json × List Char)
  | '-' :: rest => unsignedLiteral? true rest
  | cs => unsignedLiteral? false cs

def hexValue? (c : Char) : Option Nat :=
  if c.isDigit then some (c.toNat - '0'.toNat)
  else if 'a' ≤ c ∧ c ≤ 'f' then some (c.toNat - 'a'.toNat + 10)
  else if 'A' ≤ c ∧ c ≤ 'F' then some (c.toNat - 'A'.toNat + 10)
  else none

def hexUnit? : List Char → Option (Nat × List Char)
  | a :: b :: c :: d :: rest => do
    let a ← hexValue? a
    let b ← hexValue? b
    let c ← hexValue? c
    let d ← hexValue? d
    some (((a * 16 + b) * 16 + c) * 16 + d, rest)
  | _ => none

/-- The character behind a backslash and `u`: a high surrogate needs a low one behind it, and a low
    surrogate alone is refused. -/
def unicodeEscape? (cs : List Char) : Option (Char × List Char) := do
  let (first, rest) ← hexUnit? cs
  if 0xD800 ≤ first ∧ first < 0xDC00 then
    match rest with
    | '\\' :: 'u' :: rest =>
      let (second, rest) ← hexUnit? rest
      if 0xDC00 ≤ second ∧ second < 0xE000 then
        some (Char.ofNat (0x10000 + (first - 0xD800) * 0x400 + (second - 0xDC00)), rest)
      else none
    | _ => none
  else if 0xDC00 ≤ first ∧ first < 0xE000 then none
  else some (Char.ofNat first, rest)

def escaped? : List Char → Option (Char × List Char)
  | '"' :: rest => some ('"', rest)
  | '\\' :: rest => some ('\\', rest)
  | '/' :: rest => some ('/', rest)
  | 'b' :: rest => some (Char.ofNat 8, rest)
  | 'f' :: rest => some (Char.ofNat 12, rest)
  | 'n' :: rest => some ('\n', rest)
  | 'r' :: rest => some ('\r', rest)
  | 't' :: rest => some ('\t', rest)
  | 'u' :: rest => unicodeEscape? rest
  | _ => none

/-- The characters of a string up to its closing quote, where `seen` holds those before, last one
    first. Each round takes at least one character, so `fuel` may be the length of the text. -/
def stringBody? (seen : List Char) : Nat → List Char → Option (String × List Char)
  | 0, _ => none
  | _ + 1, [] => none
  | fuel + 1, c :: rest =>
    if c = '"' then some (String.ofList seen.reverse, rest)
    else if c = '\\' then
      match escaped? rest with
      | some (c, rest) => stringBody? (c :: seen) fuel rest
      | none => none
    else if c.toNat < 32 then none
    else stringBody? (c :: seen) fuel rest

def stringLiteral? (cs : List Char) : Option (String × List Char) :=
  match cs with
  | '"' :: rest => stringBody? [] rest.length rest
  | _ => none

/-- A reader takes what it reads from the front of a text. -/
abbrev Reader (α : Type) := List Char → Option (α × List Char)

/-- Items up to the closing bracket. Each takes at least one character, so `fuel` may be the length
    of the text. -/
def readItems? (value? : Reader Json) : Nat → Reader (List Json)
  | 0, _ => none
  | fuel + 1, cs => do
    let (item, cs) ← value? cs
    match skipBlanks cs with
    | ',' :: cs =>
      let (items, cs) ← readItems? value? fuel cs
      some (item :: items, cs)
    | ']' :: cs => some ([item], cs)
    | _ => none

def member? (value? : Reader Json) : Reader (String × Json) := fun cs => do
  let (key, cs) ← stringLiteral? (skipBlanks cs)
  match skipBlanks cs with
  | ':' :: cs =>
    let (value, cs) ← value? cs
    some ((key, value), cs)
  | _ => none

def readMembers? (value? : Reader Json) : Nat → Reader (List (String × Json))
  | 0, _ => none
  | fuel + 1, cs => do
    let (m, cs) ← member? value? cs
    match skipBlanks cs with
    | ',' :: cs =>
      let (members, cs) ← readMembers? value? fuel cs
      some (m :: members, cs)
    | '}' :: cs => some ([m], cs)
    | _ => none

def array? (value? : Reader Json) : Reader Json := fun cs =>
  match skipBlanks cs with
  | ']' :: cs => some (arr [], cs)
  | cs => (readItems? value? cs.length cs).map fun (items, cs) => (arr items, cs)

def object? (value? : Reader Json) : Reader Json := fun cs =>
  match skipBlanks cs with
  | '}' :: cs => some (obj [], cs)
  | cs => (readMembers? value? cs.length cs).map fun (members, cs) =>
      (obj (Dict.ofList members).entries, cs)

def scalar? : Reader Json
  | 'n' :: 'u' :: 'l' :: 'l' :: rest => some (null, rest)
  | 't' :: 'r' :: 'u' :: 'e' :: rest => some (bool true, rest)
  | 'f' :: 'a' :: 'l' :: 's' :: 'e' :: rest => some (bool false, rest)
  | '"' :: rest => (stringLiteral? ('"' :: rest)).map fun (s, cs) => (str s, cs)
  | cs => numberLiteral? cs

/-- A value with containers nested at most so deep. -/
def value? : Nat → Reader Json
  | 0, cs => scalar? (skipBlanks cs)
  | depth + 1, cs =>
    match skipBlanks cs with
    | '[' :: cs => array? (value? depth) cs
    | '{' :: cs => object? (value? depth) cs
    | cs => scalar? cs

def parse? (text : String) : Option Json :=
  match value? maxDepth text.toList with
  | some (j, rest) => if (skipBlanks rest).isEmpty then some j else none
  | none => none

end LiveResource.Json
