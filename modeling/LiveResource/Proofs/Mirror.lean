import LiveResource.Event
import LiveResource.Proofs.Changes

set_option autoImplicit false

/-!
# Mirrors of a resource

Who has the contents of a resource and gets its events can keep a mirror of it: new values are set,
deleted fields removed, elements inserted and removed at the given index. An event fits a mirror if
its index is in range and the mirror holds what the event says was there before.
-/

namespace LiveResource

/-- Hooks that let every event pass as it is and do not edit what their replica holds. -/
structure Hooks.Transparent (h : Hooks) : Prop extends h.Quiet where
  passChange : ∀ turn fields change, (h.change turn fields change).2 = .ok (some change)
  passAdd : ∀ turn values index value, (h.add turn values index value).2 = .ok true
  passRemove : ∀ turn values index value, (h.remove turn values index value).2 = .ok true
  passModel : ∀ turn fields name data, (h.customModel turn fields name data).2 = .ok true
  passCollection : ∀ turn values name data, (h.customCollection turn values name data).2 = .ok true

theorem Hooks.transparent_pass : Hooks.pass.Transparent :=
  ⟨quiet_pass, fun _ _ _ => rfl, fun _ _ _ _ => rfl, fun _ _ _ _ => rfl, fun _ _ _ _ => rfl,
    fun _ _ _ _ => rfl⟩

namespace Change

def onto (change : Change) (fields : Fields) : Fields :=
  change.new.entries.foldl
    (fun d e => if e.2.isDelete then d.erase e.1 else d.insert e.1 e.2) fields

def fits (change : Change) (fields : Fields) : Bool :=
  change.new.keys == change.old.keys &&
    change.old.entries.all fun e => (fields.get? e.1).getD .delete == e.2

end Change

namespace Content

def take? : Content → ResourceEvent → Option Content
  | .model fields, .change _ change =>
    if change.fits fields then some (.model (change.onto fields)) else none
  | .collection values, .add _ index value =>
    if index ≤ values.length then some (.collection (values.insertIdx index value)) else none
  | .collection values, .remove _ index value =>
    if values[index]?.any (· == value) then some (.collection (values.eraseIdx index)) else none
  | _, _ => none

/-- The contents after some events, if all of them fit. -/
def mirror (content : Content) (events : List ResourceEvent) : Option Content :=
  events.foldlM take? content

end Content

def ResourceEvent.edits (rid : String) : ResourceEvent → Bool
  | .change x _ => x == rid
  | .add x _ _ => x == rid
  | .remove x _ _ => x == rid
  | _ => false

/-- The changes of a resource that notices tell of, in order. -/
def editsOf (rid : String) (notices : List Notice) : List ResourceEvent :=
  notices.filterMap fun
    | .resource event => if event.edits rid then some event else none
    | _ => none

namespace ResourceEvent

theorem rid_of_edits {event : ResourceEvent} {rid : String} (h : event.edits rid = true) :
    event.rid = rid := by
  cases event with
  | change x change => exact eq_of_beq h
  | add x index value => exact eq_of_beq h
  | remove x index value => exact eq_of_beq h
  | _ => cases h

theorem filter_edits_eq_nil {events : List ResourceEvent} {rid : String}
    (h : ∀ event ∈ events, event.rid ≠ rid) : events.filter (·.edits rid) = [] :=
  List.filter_eq_nil_iff.mpr fun event hmem hedits => h event hmem (rid_of_edits hedits)

end ResourceEvent

theorem editsOf_append (rid : String) (notices later : List Notice) :
    editsOf rid (notices ++ later) = editsOf rid notices ++ editsOf rid later :=
  List.filterMap_append

theorem editsOf_resources (rid : String) (events : List ResourceEvent) :
    editsOf rid (events.map .resource) = events.filter (·.edits rid) := by
  unfold editsOf
  rw [List.filterMap_map, ← List.filterMap_eq_filter]
  rfl

theorem editsOf_errors (rid : String) (errors : List CacheError) :
    editsOf rid (errors.map .cacheError) = [] := by
  unfold editsOf
  rw [List.filterMap_map]
  exact List.filterMap_eq_nil_iff.mpr fun _ _ => rfl

namespace Content

variable {content content' : Content} {event : ResourceEvent} {events later : List ResourceEvent}

@[simp] theorem mirror_nil (content : Content) : content.mirror [] = some content := rfl

theorem mirror_append (content : Content) (events later : List ResourceEvent) :
    content.mirror (events ++ later) = (content.mirror events).bind (·.mirror later) :=
  List.foldlM_append

theorem kind_take? (h : content.take? event = some content') : content'.kind = content.kind := by
  unfold take? at h
  split at h
  · cases (Option.ite_none_right_eq_some.mp h).2
    rfl
  · cases (Option.ite_none_right_eq_some.mp h).2
    rfl
  · cases (Option.ite_none_right_eq_some.mp h).2
    rfl
  · cases h

theorem kind_mirror (h : content.mirror events = some content') :
    content'.kind = content.kind := by
  induction events generalizing content with
  | nil =>
    cases h
    rfl
  | cons event rest ih =>
    obtain ⟨next, hnext, hrest⟩ := Option.bind_eq_some_iff.mp h
    exact (ih hrest).trans (kind_take? hnext)

end Content

namespace Change

variable {fields : Fields} {change : Change}

theorem get?_foldl_onto {entries : List (String × Value)}
    (hsorted : entries.Pairwise fun a b => a.1 < b.1) (fields : Fields) (k : String) :
    (entries.foldl (fun d e => if e.2.isDelete then d.erase e.1 else d.insert e.1 e.2)
      fields).get? k = match Dict.lookup k entries with
        | some value => if value.isDelete then Option.none else some value
        | Option.none => fields.get? k := by
  induction entries generalizing fields with
  | nil => rfl
  | cons e rest ih =>
    obtain ⟨key, value⟩ := e
    rw [List.pairwise_cons] at hsorted
    rw [List.foldl_cons, ih hsorted.2]
    by_cases hk : key = k
    · subst hk
      rw [Dict.lookup_eq_none_of_lt hsorted.1]
      cases hdelete : value.isDelete <;>
        simp [Dict.lookup, hdelete, Dict.get?_erase, Dict.get?_insert]
    · cases value.isDelete <;> simp [Dict.lookup, hk, Dict.get?_erase, Dict.get?_insert]

/-- What a change notes of a key: nothing if the key keeps its value, else both values. -/
theorem get?_notes {entries : List (String × Value)}
    (hsorted : entries.Pairwise fun a b => a.1 < b.1) (fields : Fields) (change : Change)
    (k : String) : ((writeAll fields change entries).2.new.get? k,
      (writeAll fields change entries).2.old.get? k) = match Dict.lookup k entries with
        | some value =>
          if (fields.get? k).getD .delete == value then (change.new.get? k, change.old.get? k)
          else (some value, some ((fields.get? k).getD .delete))
        | Option.none => (change.new.get? k, change.old.get? k) := by
  induction entries generalizing fields change with
  | nil => rfl
  | cons e rest ih =>
    obtain ⟨key, value⟩ := e
    rw [List.pairwise_cons] at hsorted
    have hrest := ih hsorted.2 (write fields change key value).1 (write fields change key value).2
    refine Eq.trans hrest ?_
    by_cases hk : key = k
    · subst hk
      rw [Dict.lookup_eq_none_of_lt hsorted.1]
      cases hsame : ((fields.get? key).getD .delete == value) with
      | true => simp [Dict.lookup, write_of_same hsame, hsame]
      | false => simp [Dict.lookup, write_of_differs hsame, hsame, Dict.get?_insert]
    · have hother := @write_other fields change key k value hk
      rw [get?_write, if_neg hk, hother.1, hother.2]
      simp [Dict.lookup, hk]

theorem keys_eq_of_contains {d d' : Fields} (h : ∀ k, (d.get? k).isSome = (d'.get? k).isSome) :
    d.keys = d'.keys := by
  have hmap : d.map (fun _ => ()) = d'.map fun _ => () := by
    apply Dict.ext_get?
    intro k
    have hk := h k
    rw [Dict.get?_map, Dict.get?_map]
    cases hd : d.get? k <;> cases hd' : d'.get? k <;> simp [hd, hd'] at hk ⊢
  have hkeys := congrArg Dict.keys hmap
  simpa [Dict.keys, Dict.map, Dict.mapWithKey, Function.comp_def] using hkeys

theorem fits_writeAll (fields changes : Fields) :
    (writeAll fields .none changes.entries).2.fits fields = true := by
  have hnotes := get?_notes changes.sorted fields .none
  unfold fits
  rw [Bool.and_eq_true, beq_iff_eq, List.all_eq_true]
  constructor
  · apply keys_eq_of_contains
    intro k
    have hk := hnotes k
    split at hk
    · split at hk <;> rw [(Prod.mk.inj hk).1, (Prod.mk.inj hk).2] <;> rfl
    · rw [(Prod.mk.inj hk).1, (Prod.mk.inj hk).2]
      rfl
  · rintro ⟨k, old⟩ hmem
    have hold := Dict.mem_entries_iff.mp hmem
    have hk := hnotes k
    have hnone : (Change.none.old.get? k : Option Value) = Option.none := rfl
    split at hk
    · split at hk
      · rw [(Prod.mk.inj hk).2, hnone] at hold
        cases hold
      · rw [(Prod.mk.inj hk).2] at hold
        cases hold
        exact BEq.rfl
    · rw [(Prod.mk.inj hk).2, hnone] at hold
      cases hold

theorem onto_writeAll (fields changes : Fields) : (writeAll fields .none changes.entries).2.onto
    fields = (writeAll fields .none changes.entries).1 := by
  apply Dict.ext_get?
  intro k
  have hnotes := get?_notes changes.sorted fields .none k
  have hnew : Dict.lookup k (writeAll fields .none changes.entries).2.new.entries =
      (writeAll fields .none changes.entries).2.new.get? k := rfl
  unfold onto
  rw [get?_foldl_onto (Dict.sorted _), get?_writeAll changes.sorted, hnew]
  have hnone : (Change.none.new.get? k : Option Value) = Option.none := rfl
  cases hlookup : Dict.lookup k changes.entries with
  | none =>
    rw [hlookup] at hnotes
    rw [(Prod.mk.inj hnotes).1, hnone]
  | some value =>
    rw [hlookup] at hnotes
    dsimp only at hnotes
    cases hsame : ((fields.get? k).getD .delete == value) with
    | true =>
      rw [hsame, if_pos rfl] at hnotes
      rw [(Prod.mk.inj hnotes).1, hnone]
      simp [overwritten, hsame]
    | false =>
      rw [hsame, if_neg (by simp)] at hnotes
      rw [(Prod.mk.inj hnotes).1]
      simp [overwritten, hsame]

end Change

namespace Content

variable {rid : String}

theorem take?_change (rid : String) (fields changes : Fields) :
    (model fields).take? (.change rid (Change.writeAll fields .none changes.entries).2) =
      some (.model (Change.writeAll fields .none changes.entries).1) := by
  rw [take?, if_pos (Change.fits_writeAll fields changes), Change.onto_writeAll]

theorem take?_add {values : List Value} {index : Nat} (rid : String)
    (h : index ≤ values.length) (value : Value) : (collection values).take? (.add rid index value) =
      some (.collection (values.insertIdx index value)) := by
  rw [take?, if_pos h]

theorem take?_remove {values : List Value} {index : Nat} {value : Value} (rid : String)
    (h : values[index]? = some value) : (collection values).take? (.remove rid index value) =
      some (.collection (values.eraseIdx index)) := by
  have hheld : values[index]?.any (· == value) = true := by
    rw [h]
    exact BEq.rfl
  rw [take?, if_pos hheld]

end Content

end LiveResource
