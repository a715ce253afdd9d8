import LiveResource.Fault

set_option autoImplicit false

/-!
# Snapshot batches

A batch carries the snapshots of any number of resources: models with named fields, collections
with ordered values, and resources of which only a fault is known. The values are wire tokens,
which a store makes sense of when the batch is merged.
-/

namespace LiveResource

structure Batch where
  models : Dict (Dict Json)
  collections : Dict (List Json)
  errors : Dict Fault

namespace Batch

def empty : Batch := ⟨∅, ∅, ∅⟩

instance : Inhabited Batch := ⟨empty⟩

def contains (b : Batch) (rid : String) : Bool :=
  b.models.contains rid || b.collections.contains rid || b.errors.contains rid

def size (b : Batch) : Nat := b.models.size + b.collections.size + b.errors.size

def isEmpty (b : Batch) : Bool := b.size == 0

/-- The names under which an object carries a batch. -/
def sectionNames : List String := ["models", "collections", "errors"]

def model (j : Json) : Decoded (Dict Json) := Decoded.map .ok j

def takeSection (b : Batch) (key : String) (value : Json) : Decoded Batch :=
  if key = "models" then
    match Decoded.map model value with
    | .error e => .error e
    | .ok models => .ok { b with models := models }
  else if key = "collections" then
    match Decoded.map Decoded.items value with
    | .error e => .error e
    | .ok collections => .ok { b with collections := collections }
  else if key = "errors" then
    match Decoded.map Fault.ofJson value with
    | .error e => .error e
    | .ok errors => .ok { b with errors := errors }
  else .ok b

def takeMembers (b : Batch) : List (String × Json) → Decoded Batch
  | [] => .ok b
  | (key, value) :: rest =>
    match takeSection b key value with
    | .error e => .error e
    | .ok b => takeMembers b rest

/-- A batch given by its sections in their order, the last ones of which may be left out. -/
def ofItems (b : Batch) (length : Nat) : List String → List Json → Decoded Batch
  | _, [] => .ok b
  | [], _ :: _ => .error (.tooLong length)
  | name :: names, item :: items =>
    match takeSection b name item with
    | .error e => .error e
    | .ok b => ofItems b length names items

/-- The batch that an object, or an array in its place, denotes. -/
def ofJson : Json → Decoded Batch
  | .obj members => takeMembers empty members
  | .arr items => ofItems empty items.length sectionNames items
  | other => .error (.wrongType other .batch)

end Batch

end LiveResource
