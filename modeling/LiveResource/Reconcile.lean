import LiveResource.Value

set_option autoImplicit false

/-!
# Differences between a replica and a snapshot

The difference of two models is a change of fields, the difference of two collections a shortest
script of removals and insertions. Both have the shape of live events, so that a replica can be
brought up to date as if the server had sent them.
-/

namespace LiveResource

/-- The fields of `new` that `old` does not have with an equal value, and a deletion mark for every
    field of `old` that `new` lacks. -/
def diffModel (old new : Fields) : Fields :=
  let changed := new.filter fun key value => !(old.get? key == some value)
  let gone := old.keys.filter fun key => !new.contains key
  gone.foldl (fun d key => d.insert key .delete) changed

inductive Edit
  | add (index : Nat) (value : Value)
  | remove (index : Nat)

/-- How many elements two lists have in common at their front. -/
def commonPrefix : List Value → List Value → Nat
  | a :: as, b :: bs => if a == b then commonPrefix as bs + 1 else 0
  | _, _ => 0

/-- One row of a table of lengths: for every suffix of `bs` the length of a longest common
    subsequence with the list `a :: as`, given the row of `as`. -/
def lcsRow (a : Value) : List Value → List Nat → List Nat
  | b :: bs, below :: belows =>
    let row := lcsRow a bs belows
    let right := row.headD 0
    let diagonal := belows.headD 0
    (if a == b then diagonal + 1 else max below right) :: row
  | _, _ => [0]

/-- The rows for all suffixes of the first list, the longest first. -/
def lcsTable (bs : List Value) : List Value → List (List Nat)
  | [] => [List.replicate (bs.length + 1) 0]
  | a :: as =>
    let table := lcsTable bs as
    lcsRow a bs (table.headD []) :: table

/-- Walk through two lists along a table of lengths. Equal elements stay; otherwise the first
    element of the old list is removed, unless only inserting the first element of the new list
    keeps the common subsequence as long. -/
def editsAlong : List Value → List Value → List (List Nat) → Nat → List Edit
  | [], bs, _, position => bs.zipIdx position |>.map fun (b, i) => .add i b
  | _ :: as, [], table, position => .remove position :: editsAlong as [] table position
  | a :: as, b :: bs, table, position =>
    let row := table.headD []
    let below := table.drop 1
    if a == b then editsAlong as bs (below.map (·.drop 1)) (position + 1)
    else if ((below.headD []).headD 0) ≥ (row.drop 1).headD 0 then
      .remove position :: editsAlong as (b :: bs) below position
    else .add position b :: editsAlong (a :: as) bs (table.map (·.drop 1)) (position + 1)
termination_by as bs => as.length + bs.length

/-- A shortest script of removals and insertions that turns `old` into `new`. Elements that both
    have at the front or at the end stay where they are. -/
def diffCollection (old new : List Value) : List Edit :=
  let front := commonPrefix old new
  let old := old.drop front
  let new := new.drop front
  let back := commonPrefix old.reverse new.reverse
  let old := old.take (old.length - back)
  let new := new.take (new.length - back)
  editsAlong old new (lcsTable new old) front

end LiveResource
