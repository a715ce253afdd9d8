import LiveResource.Batch
import LiveResource.Store.Basic

set_option autoImplicit false

/-!
# Reading wire tokens

A token is a plain JSON value, a reference, opaque data or a deletion mark. A hard reference must
point to a resource that has a replica; within a batch it may also point to a resource of the batch.
-/

namespace LiveResource.Store

def parseRef (s : Store) (rid : String) : Except CacheError Value :=
  match s.get? rid with
  | none => .error (.notFound rid)
  | some e =>
    match e.kind, e.replica with
    | some kind, some replica => .ok (.hard ⟨rid, kind, replica.id⟩)
    | _, _ => .error (.notFound rid)

def isSoft (members : List (String × Json)) : Bool :=
  ((Dict.lookup "soft" members).bind Json.bool?).getD false

def isDeletion (members : List (String × Json)) : Bool :=
  (Dict.lookup "action" members).bind Json.str? == some "delete"

def parse (s : Store) (token : Json) : Except CacheError Value :=
  match token with
  | .null => .ok .null
  | .bool b => .ok (.bool b)
  | .num n => .ok (.number n)
  | .str t => .ok (.string t)
  | .arr _ => .error (.invalidValue token)
  | .obj members =>
    match Dict.lookup "rid" members with
    | some target =>
      match target.str? with
      | none => .error (.invalidValue token)
      | some rid => if isSoft members then .ok (.soft rid) else s.parseRef rid
    | none =>
      match Dict.lookup "data" members with
      | some data => .ok (.data data)
      | none => if isDeletion members then .ok .delete else .error (.invalidValue token)

/-- The value that a token denotes where a value is stored, which is no place for a deletion. -/
def parseStored (s : Store) (token : Json) : Except CacheError Value :=
  match s.parse token with
  | .ok .delete => .error (.invalidValue token)
  | result => result

def parseEach (read : Json → Except CacheError Value) :
    List (String × Json) → Except CacheError (List (String × Value))
  | [] => .ok []
  | (key, token) :: rest =>
    match read token with
    | .error e => .error e
    | .ok v =>
      match parseEach read rest with
      | .error e => .error e
      | .ok vs => .ok ((key, v) :: vs)

def parseFields (s : Store) (tokens : Dict Json) : Except CacheError Fields :=
  (parseEach s.parseStored tokens.entries).map Dict.ofList

def parseValues (s : Store) : List Json → Except CacheError (List Value)
  | [] => .ok []
  | token :: rest =>
    match s.parseStored token with
    | .error e => .error e
    | .ok v =>
      match s.parseValues rest with
      | .error e => .error e
      | .ok vs => .ok (v :: vs)

def parseChanges (s : Store) (tokens : List (String × Json)) : Except CacheError Fields :=
  (parseEach s.parse tokens).map Dict.ofList

def hasReplica (s : Store) (rid : String) : Bool :=
  match s.get? rid with
  | some e => e.replica.isSome
  | none => false

/-- Whether a token can be stored once the resources of its batch are there. -/
def check (s : Store) (batch : Batch) (token : Json) : Except CacheError Unit :=
  match token with
  | .arr _ => .error (.invalidValue token)
  | .obj members =>
    match Dict.lookup "rid" members with
    | some target =>
      match target.str? with
      | none => .error (.invalidValue token)
      | some rid =>
        if isSoft members || batch.contains rid || s.hasReplica rid then .ok ()
        else .error (.notFound rid)
    | none =>
      if (Dict.lookup "data" members).isSome then .ok () else .error (.invalidValue token)
  | _ => .ok ()

def checkAll (s : Store) (batch : Batch) : List Json → Except CacheError Unit
  | [] => .ok ()
  | token :: rest =>
    match s.check batch token with
    | .error e => .error e
    | .ok () => s.checkAll batch rest

/-- The tokens of a batch: those of its models first, each section in key order. The sections are
hash tables without an order of their own; the order here decides which of several refused tokens
is reported, and nothing else. -/
def batchTokens (batch : Batch) : List Json :=
  batch.models.values.flatMap (·.values) ++ batch.collections.values.flatten

/-- Check every token of a batch, so that a batch that is refused changes nothing. -/
def validate (s : Store) (batch : Batch) : Except CacheError Unit :=
  s.checkAll batch (batchTokens batch)

end LiveResource.Store
