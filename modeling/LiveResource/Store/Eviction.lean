import LiveResource.Dict.Index
import LiveResource.Store.Basic

set_option autoImplicit false

/-!
# Eviction

A resource without subscriptions is evicted together with everything that only it keeps. Two passes
find out what that is. The first one follows the references of the candidate and counts, for every
resource it meets, the references that it does not meet. The second one follows them again: it marks
for deletion what it meets, but from where such a reference is left it marks everything for keeping,
also what it has marked for deletion before. So cycles of references do not keep themselves alive.
-/

namespace LiveResource

def refsOf (index : Std.HashMap String Entry) (rid : String) : List String :=
  match index[rid]? with
  | some e => e.hardRefs
  | none => []

/-- The entry of a resource that has no subscription of its own. -/
def idle? (index : Std.HashMap String Entry) (rid : String) : Option Entry :=
  index[rid]?.filter fun e => e.direct = 0

inductive Mark
  | unset
  | delete
  | keep
deriving DecidableEq, Repr

structure RefState where
  /-- The references that have not been met. -/
  remaining : Int
  mark : Mark
deriving DecidableEq, Repr

/-- The mark that a resource gets from one that refers to it, if that changes anything. -/
def RefState.remark? (state : RefState) (incoming : Mark) : Option Mark :=
  if state.mark = .keep then none
  else if incoming = .delete then
    if 0 < state.remaining then some .keep
    else if state.mark = .unset then some .delete
    else none
  else some .keep

abbrev RefStates := Std.HashMap String RefState

/-- How often a mark can still change. -/
def Mark.changes : Mark → Nat
  | unset => 2
  | delete => 1
  | keep => 0

theorem RefState.changes_lt {state : RefState} {incoming mark : Mark}
    (h : state.remark? incoming = some mark) : mark.changes < state.mark.changes := by
  revert h
  unfold remark?
  obtain ⟨remaining, old⟩ := state
  cases old <;> cases incoming <;> by_cases hpos : 0 < remaining <;>
    simp [hpos] <;> rintro rfl <;> decide

namespace RefStates

def start (rid : String) (e : Entry) : RefStates :=
  (∅ : RefStates).insert rid ⟨e.indirect, .unset⟩

/-- How often a resource can still be met for the first time or get another mark. -/
def changes (refs : RefStates) (rid : String) : Nat :=
  match refs[rid]? with
  | none => 3
  | some state => state.mark.changes

/-- How much there is left to do in either pass. -/
def work (refs : RefStates) : List String → Nat
  | [] => 0
  | rid :: rids => refs.changes rid + work refs rids

variable {refs : RefStates} {rids : List String} {rid : String} {state : RefState}

theorem getElem?_insert (refs : RefStates) (rid x : String) (state : RefState) :
    (refs.insert rid state)[x]? = if rid = x then some state else refs[x]? := by
  rw [Std.HashMap.getElem?_insert]
  by_cases h : rid = x <;> simp [h]

theorem changes_insert (refs : RefStates) (rid x : String) (state : RefState) :
    changes (refs.insert rid state) x =
      if rid = x then state.mark.changes else refs.changes x := by
  unfold changes
  rw [getElem?_insert]
  by_cases h : rid = x <;> simp [h]

theorem changes_insert_le (h : state.mark.changes ≤ refs.changes rid) (x : String) :
    changes (refs.insert rid state) x ≤ refs.changes x := by
  rw [changes_insert]
  split
  · subst rid
    exact h
  · exact Nat.le_refl _

theorem work_insert_le (h : state.mark.changes ≤ refs.changes rid) :
    work (refs.insert rid state) rids ≤ refs.work rids := by
  induction rids with
  | nil => exact Nat.le_refl _
  | cons x rids ih => exact Nat.add_le_add (changes_insert_le h x) ih

theorem work_insert_lt (hrid : rid ∈ rids) (h : state.mark.changes < refs.changes rid) :
    work (refs.insert rid state) rids < refs.work rids := by
  have hle := Nat.le_of_lt h
  induction rids with
  | nil => cases hrid
  | cons x rids ih =>
    rw [work, work]
    rcases List.mem_cons.mp hrid with rfl | hrid
    · have hlt : changes (refs.insert rid state) rid < refs.changes rid := by
        rw [changes_insert, if_pos rfl]
        exact h
      exact Nat.add_lt_add_of_lt_of_le hlt (work_insert_le hle)
    · exact Nat.add_lt_add_of_le_of_lt (changes_insert_le hle x) (ih hrid)

end RefStates

theorem mem_keys_of_idle? {index : Std.HashMap String Entry} {rid : String} {e : Entry}
    (h : idle? index rid = some e) : rid ∈ index.keys := by
  obtain ⟨hget, _⟩ := Option.filter_eq_some_iff.mp h
  exact Std.HashMap.mem_keys.mpr (Std.HashMap.mem_iff_isSome_getElem?.mpr (by simp [hget]))

/-- The first pass. The list holds the resources that are still to be visited; what a new one refers
to is visited before the others. -/
def seekRefs (index : Std.HashMap String Entry) (next : String → List String) (refs : RefStates)
    (calls : List String) : RefStates :=
  match calls with
  | [] => refs
  | rid :: rest =>
    match _ : idle? index rid, _ : refs[rid]? with
    | none, _ => seekRefs index next refs rest
    | some _, some state =>
      seekRefs index next (refs.insert rid { state with remaining := state.remaining - 1 }) rest
    | some e, none =>
      seekRefs index next (refs.insert rid ⟨e.indirect - 1, .unset⟩) (next rid ++ rest)
termination_by (refs.work index.keys, calls.length)
decreasing_by
  · exact Prod.Lex.right _ (Nat.lt_succ_self _)
  · rename_i hmet
    apply Prod.Lex.right'
    · exact RefStates.work_insert_le (by simp [RefStates.changes, hmet])
    · exact Nat.lt_succ_self _
  · rename_i hidle hmet
    refine Prod.Lex.left _ _ (RefStates.work_insert_lt (mem_keys_of_idle? hidle) ?_)
    simp [RefStates.changes, hmet, Mark.changes]

/-- The second pass. Every call comes with the mark of the resource that makes it. -/
def markRefs (index : Std.HashMap String Entry) (next : String → List String) (refs : RefStates)
    (calls : List (String × Mark)) : RefStates :=
  match calls with
  | [] => refs
  | (rid, incoming) :: rest =>
    match _ : idle? index rid, _ : refs[rid]? with
    | some _, some state =>
      match _ : state.remark? incoming with
      | some mark =>
        markRefs index next (refs.insert rid { state with mark := mark })
          ((next rid).map (·, mark) ++ rest)
      | none => markRefs index next refs rest
    | _, _ => markRefs index next refs rest
termination_by (refs.work index.keys, calls.length)
decreasing_by
  · rename_i hidle hmet hmark
    refine Prod.Lex.left _ _ (RefStates.work_insert_lt (mem_keys_of_idle? hidle) ?_)
    simpa only [RefStates.changes, hmet] using RefState.changes_lt hmark
  · exact Prod.Lex.right _ (Nat.lt_succ_self _)
  · exact Prod.Lex.right _ (Nat.lt_succ_self _)

namespace Store

/-- What has to go with a candidate, in order, found by passes that follow references in the order
that is given. -/
def doomedAlong (s : Store) (next : String → List String) (rid : String) : List String :=
  let index := s.entries.index
  match idle? index rid with
  | none => []
  | some e =>
    let refs := seekRefs index next (.start rid e) (next rid)
    let refs := markRefs index next refs [(rid, .delete)]
    (refs.filter fun _ state => state.mark = .delete).keys.mergeSort

/-- What has to go with a candidate: the passes follow the references of a replica one by one. -/
def doomed (s : Store) (rid : String) : List String := s.doomedAlong (refsOf s.entries.index) rid

def remove (s : Store) (rid : String) : Store :=
  { s with
    entries := s.entries.erase rid
    retired := s.retired ++ ((s.get? rid).bind (·.replica)).toList }

end Store

namespace Op

def releaseAll (rid : String) : Op Unit := do
  let e ← entry rid
  e.hardRefs.forM removeIndirect

/-- Evict a resource without subscriptions and everything that only it keeps. Returns what was
    evicted. -/
def tryDelete (rid : String) : Op (List String) := do
  let store := (← get).store
  match store.get? rid with
  | none => pure []
  | some e =>
    if 0 < e.direct ∨ !e.loaded then pure []
    else
      let doomed := store.doomed rid
      doomed.forM releaseAll
      modifyStore fun s => doomed.foldl Store.remove s
      pure doomed

/-- Evict whatever has become unreachable among some candidates. -/
def collect : List String → Op Unit
  | [] => pure ()
  | rid :: rest => do
    let store := (← get).store
    match store.get? rid with
    | some e => if e.direct = 0 then let _ ← tryDelete rid
    | none => pure ()
    collect rest

end Op

end LiveResource
