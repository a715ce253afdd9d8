set_option autoImplicit false

/-!
# Dotted names

A dotted name is cut into its tokens at every dot, or once at its last dot.
-/

namespace LiveResource.Text

/-- The tokens between the dots. There is always at least one, which may be empty. -/
def splitDots : List Char → List (List Char)
  | [] => [[]]
  | c :: cs =>
    if c = '.' then [] :: splitDots cs
    else match splitDots cs with
      | [] => [[c]]
      | token :: tokens => (c :: token) :: tokens

def tokens (s : String) : List String := (splitDots s.toList).map String.ofList

/-- What stands before and behind the last dot. -/
def splitLastDot : List Char → Option (List Char × List Char)
  | [] => none
  | c :: cs =>
    match splitLastDot cs with
    | some (before, behind) => some (c :: before, behind)
    | none => if c = '.' then some ([], cs) else none

/-- A resource id without its query: all in front of the first question mark. -/
def withoutQuery (s : String) : String := String.ofList (s.toList.takeWhile (· ≠ '?'))

end LiveResource.Text
