import LiveResource.Dict
import LiveResource.Text.Dotted

set_option autoImplicit false

/-!
# Resource id patterns

A pattern is a dotted name in which the token `*` stands for any one token and a last token `>` for
one or more tokens. A `PatternMap` finds the value of the best pattern that a resource id matches:
at every depth an exact token goes before `*`, and `*` before `>`.
-/

namespace LiveResource

inductive PatternError
  | conflict (pattern : String)
  | malformed (pattern : String)
deriving DecidableEq, Repr

def PatternError.message : PatternError → String
  | conflict pattern => "pattern already registered: " ++ pattern
  | malformed pattern => "malformed pattern: " ++ pattern

inductive Refusal
  | malformed
  | conflict
deriving DecidableEq, Repr

/-- A tree of patterns. Its values are those of the pattern that ends here, of the patterns that go
    on with an exact token, of those that go on with `*`, and of the one that ends here with `>`. -/
inductive PatternTree (α : Type)
  | empty
  | node (value : Option α) (exact : List (String × PatternTree α)) (any : PatternTree α)
      (rest : Option α)

namespace PatternTree

variable {α : Type}

instance : Inhabited (PatternTree α) := ⟨empty⟩

def value? : PatternTree α → Option α
  | empty => none
  | node value _ _ _ => value

def exact : PatternTree α → List (String × PatternTree α)
  | empty => []
  | node _ exact _ _ => exact

def any : PatternTree α → PatternTree α
  | empty => empty
  | node _ _ any _ => any

def rest? : PatternTree α → Option α
  | empty => none
  | node _ _ _ rest => rest

def branch (t : PatternTree α) (token : String) : PatternTree α :=
  (Dict.lookup token t.exact).getD empty

def setValue (t : PatternTree α) (value : α) : PatternTree α :=
  node (some value) t.exact t.any t.rest?

def setBranch (t : PatternTree α) (token : String) (child : PatternTree α) : PatternTree α :=
  node t.value? (Dict.place token child t.exact) t.any t.rest?

def setAny (t : PatternTree α) (child : PatternTree α) : PatternTree α :=
  node t.value? t.exact child t.rest?

def setRest (t : PatternTree α) (value : α) : PatternTree α :=
  node t.value? t.exact t.any (some value)

/-- Put a value at the end of a list of tokens. Each branch is made as its token is read, so what a
    refusal further down leaves behind is branches without a value. -/
def insert (t : PatternTree α) (value : α) : List String → Except Refusal Unit × PatternTree α
  | [] => if t.value?.isSome then (.error .conflict, t) else (.ok (), t.setValue value)
  | token :: tokens =>
    if token.isEmpty then (.error .malformed, t)
    else if token = ">" then
      if tokens.isEmpty then
        if t.rest?.isSome then (.error .conflict, t) else (.ok (), t.setRest value)
      else (.error .malformed, t)
    else if token = "*" then
      let (outcome, child) := t.any.insert value tokens
      (outcome, t.setAny child)
    else
      let (outcome, child) := (t.branch token).insert value tokens
      (outcome, t.setBranch token child)

/-- The value of the best pattern that matches. A `>` in a node matches as soon as there is one more
    token, and comes last. -/
def find? : PatternTree α → List String → Option α
  | empty, _ => none
  | node value _ _ _, [] => value
  | node value exact any rest, token :: tokens =>
    ((node value exact any rest).branch token).find? tokens <|> any.find? tokens <|> rest
termination_by structural _ tokens => tokens

end PatternTree

structure PatternMap (α : Type) where
  tree : PatternTree α
  size : Nat

namespace PatternMap

variable {α : Type}

def empty : PatternMap α := ⟨.empty, 0⟩

instance : Inhabited (PatternMap α) := ⟨empty⟩

def isEmpty (m : PatternMap α) : Bool := m.size == 0

/-- Register a value under a pattern. A token must not be empty, `>` must be last, and the same
    pattern must not be there yet. -/
def insert (m : PatternMap α) (pattern : String) (value : α) :
    Except PatternError Unit × PatternMap α :=
  match m.tree.insert value (Text.tokens pattern) with
  | (.error .malformed, tree) => (.error (.malformed pattern), ⟨tree, m.size⟩)
  | (.error .conflict, tree) => (.error (.conflict pattern), ⟨tree, m.size⟩)
  | (.ok (), tree) => (.ok (), ⟨tree, m.size + 1⟩)

def add (m : PatternMap α) (pattern : String) (value : α) : Except PatternError (PatternMap α) :=
  match m.insert pattern value with
  | (.error e, _) => .error e
  | (.ok (), grown) => .ok grown

/-- The value of the best pattern that a resource id matches, its query left aside. -/
def get? (m : PatternMap α) (rid : String) : Option α :=
  m.tree.find? (Text.tokens (Text.withoutQuery rid))

end PatternMap

end LiveResource
