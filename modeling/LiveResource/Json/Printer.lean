import LiveResource.Json.Basic
import LiveResource.Decimal.Shortest

set_option autoImplicit false

/-!
# Compact JSON text

No blanks, members in the order in which they are listed, and no escape that is not needed.
-/

namespace LiveResource.Json

/-- Powers of ten from `-5` to `15` are written positionally. -/
def numberStyle : Decimal.Style := ⟨-5, 15⟩

def floatText (bits : UInt64) : List Char :=
  (Decimal.Binary64.ofBits bits).text numberStyle

def natText (n : Nat) : List Char := Nat.toDigits 10 n

def intText (i : Int) : List Char :=
  if i < 0 then '-' :: natText i.natAbs else natText i.natAbs

def numberText : Number → List Char
  | .int i => intText i
  | .float bits => floatText bits

def escape (c : Char) : List Char :=
  if c = '"' then ['\\', '"']
  else if c = '\\' then ['\\', '\\']
  else if c = '\n' then ['\\', 'n']
  else if c = '\r' then ['\\', 'r']
  else if c = '\t' then ['\\', 't']
  else if c.toNat = 8 then ['\\', 'b']
  else if c.toNat = 12 then ['\\', 'f']
  else if c.toNat < 32 then
    ['\\', 'u', '0', '0', Nat.digitChar (c.toNat / 16), Nat.digitChar (c.toNat % 16)]
  else [c]

def stringText (s : String) : List Char := '"' :: s.toList.flatMap escape ++ ['"']

mutual

def textBefore : Json → List Char → List Char
  | null, rest => 'n' :: 'u' :: 'l' :: 'l' :: rest
  | bool true, rest => 't' :: 'r' :: 'u' :: 'e' :: rest
  | bool false, rest => 'f' :: 'a' :: 'l' :: 's' :: 'e' :: rest
  | num n, rest => numberText n ++ rest
  | str s, rest => stringText s ++ rest
  | arr [], rest => '[' :: ']' :: rest
  | arr (item :: items), rest => '[' :: textBefore item (itemsBefore items rest)
  | obj [], rest => '{' :: '}' :: rest
  | obj ((key, value) :: members), rest =>
    '{' :: (stringText key ++ ':' :: textBefore value (membersBefore members rest))

def itemsBefore : List Json → List Char → List Char
  | [], rest => ']' :: rest
  | item :: items, rest => ',' :: textBefore item (itemsBefore items rest)

def membersBefore : List (String × Json) → List Char → List Char
  | [], rest => '}' :: rest
  | (key, value) :: members, rest =>
    ',' :: (stringText key ++ ':' :: textBefore value (membersBefore members rest))

end

def text (j : Json) : String := String.ofList (j.textBefore [])

end LiveResource.Json
