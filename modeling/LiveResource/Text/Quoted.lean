import LiveResource.Text.Printable

set_option autoImplicit false

/-!
# Quoted text for messages

A text is shown between double quotes. Quotes, backslashes and the common controls are escaped by a
backslash, and every other character without a printed form is given by its code point.
-/

namespace LiveResource.Text

def quoteChar (c : Char) : List Char :=
  if c = '"' then ['\\', '"']
  else if c = '\\' then ['\\', '\\']
  else if c = '\n' then ['\\', 'n']
  else if c = '\r' then ['\\', 'r']
  else if c = '\t' then ['\\', 't']
  else if c.toNat = 0 then ['\\', '0']
  else if isPrintable c then [c]
  else '\\' :: 'u' :: '{' :: Nat.toDigits 16 c.toNat ++ ['}']

def quoted (s : String) : String := String.ofList ('"' :: s.toList.flatMap quoteChar ++ ['"'])

end LiveResource.Text
