import LiveResource.Proofs.Reconcile
import LiveResource.Proofs.References
import LiveResource.Store.Edit
import Mathlib.Data.List.Perm.Basic

set_option autoImplicit false

/-!
# What a change gains and loses

A change of fields notes what it takes away and what it brings, and an insertion or a deletion moves
one value. Either way the references that come and go are those by which the contents differ.
-/

namespace LiveResource

def Value.pointsTo (v : Value) (t : String) : Nat := if v.hardRef? = some t then 1 else 0

theorem count_hardRefs (values : List Value) (t : String) :
    (hardRefs values).count t = (values.map (·.pointsTo t)).sum := by
  induction values with
  | nil => rfl
  | cons v values ih =>
    rw [List.map_cons, List.sum_cons, ← ih]
    cases hv : v.hardRef? with
    | none =>
      have hzero : v.pointsTo t = 0 := by simp [Value.pointsTo, hv]
      rw [hardRefs, List.filterMap_cons_none hv, hzero, Nat.zero_add]
      rfl
    | some x =>
      rw [hardRefs, List.filterMap_cons_some hv, List.count_cons]
      by_cases hx : x = t
      · simp [Value.pointsTo, hv, hx, hardRefs, Nat.add_comm]
      · simp [Value.pointsTo, hv, hx, hardRefs]

theorem count_values (d : Fields) (t : String) :
    (hardRefs d.values).count t = d.total fun _ v => v.pointsTo t := by
  rw [count_hardRefs]
  unfold Dict.total Dict.values
  rw [List.map_map]
  rfl

theorem getD_pointsTo (v : Option Value) (t : String) :
    (v.map (·.pointsTo t)).getD 0 = (v.getD .delete).pointsTo t := by
  cases v <;> rfl

theorem count_insert (d : Fields) (key : String) (v : Value) (t : String) :
    (hardRefs (d.insert key v).values).count t + ((d.get? key).getD .delete).pointsTo t =
      (hardRefs d.values).count t + v.pointsTo t := by
  rw [count_values, count_values, ← getD_pointsTo]
  exact d.total_insert (fun _ v => v.pointsTo t) key v

theorem count_erase (d : Fields) (key : String) (t : String) :
    (hardRefs (d.erase key).values).count t + ((d.get? key).getD .delete).pointsTo t =
      (hardRefs d.values).count t := by
  rw [count_values, count_values, ← getD_pointsTo]
  exact d.total_erase (fun _ v => v.pointsTo t) key

namespace Change

def Balanced (start fields : Fields) (change : Change) : Prop :=
  ∀ t, (hardRefs fields.values).count t + (hardRefs change.old.values).count t =
    (hardRefs start.values).count t + (hardRefs change.new.values).count t

variable {start fields : Fields} {change : Change}

theorem write_of_same {key : String} {value : Value}
    (h : ((fields.get? key).getD .delete == value) = true) :
    write fields change key value = (fields, change) := by
  simp only [write, h, if_true]

theorem write_of_differs {key : String} {value : Value}
    (h : ((fields.get? key).getD .delete == value) = false) :
    write fields change key value =
      (if value.isDelete then fields.erase key else fields.insert key value,
        ⟨change.new.insert key value,
          change.old.insert key ((fields.get? key).getD .delete)⟩) := by
  simp only [write, h, Bool.false_eq_true, if_false]

theorem write_balanced (h : Balanced start fields change) {key : String} (value : Value)
    (hnew : change.new.get? key = Option.none) (hold : change.old.get? key = Option.none) :
    Balanced start (write fields change key value).1 (write fields change key value).2 := by
  cases hsame : ((fields.get? key).getD .delete == value) with
  | true =>
    rw [write_of_same hsame]
    exact h
  | false =>
    rw [write_of_differs hsame]
    intro t
    have hbefore := h t
    have hdelete : (Value.delete).pointsTo t = 0 := rfl
    have hnews := count_insert change.new key value t
    have holds := count_insert change.old key ((fields.get? key).getD .delete) t
    rw [hnew, Option.getD_none, hdelete] at hnews
    rw [hold, Option.getD_none, hdelete] at holds
    dsimp only
    split
    · rename_i hvalue
      have hzero : value.pointsTo t = 0 := by
        cases value with
        | delete => rfl
        | _ => cases hvalue
      have herase := count_erase fields key t
      omega
    · have hinsert := count_insert fields key value t
      omega

theorem write_other {key k : String} (value : Value) (hne : key ≠ k) :
    (write fields change key value).2.new.get? k = change.new.get? k ∧
      (write fields change key value).2.old.get? k = change.old.get? k := by
  cases hsame : ((fields.get? key).getD .delete == value) with
  | true =>
    rw [write_of_same hsame]
    exact ⟨rfl, rfl⟩
  | false =>
    rw [write_of_differs hsame]
    dsimp only
    rw [Dict.get?_insert, Dict.get?_insert, if_neg hne, if_neg hne]
    exact ⟨rfl, rfl⟩

theorem writeAll_balanced {entries : List (String × Value)}
    (hsorted : entries.Pairwise fun a b => a.1 < b.1) (h : Balanced start fields change)
    (hfree : ∀ e ∈ entries,
      change.new.get? e.1 = Option.none ∧ change.old.get? e.1 = Option.none) :
    Balanced start (writeAll fields change entries).1 (writeAll fields change entries).2 := by
  induction entries generalizing fields change with
  | nil => exact h
  | cons e rest ih =>
    obtain ⟨key, value⟩ := e
    rw [List.pairwise_cons] at hsorted
    obtain ⟨hnew, hold⟩ := hfree (key, value) List.mem_cons_self
    have hleft : ∀ e ∈ rest, (write fields change key value).2.new.get? e.1 = Option.none ∧
        (write fields change key value).2.old.get? e.1 = Option.none := by
      intro e he
      have hne : key ≠ e.1 := fun heq => String.lt_irrefl key (heq ▸ hsorted.1 e he)
      have hother := @write_other fields change key e.1 value hne
      rw [hother.1, hother.2]
      exact hfree e (List.mem_cons_of_mem _ he)
    exact ih hsorted.2 (write_balanced h value hnew hold) hleft

theorem write_new {key k : String} {value v : Value}
    (h : (write fields change key value).2.new.get? k = some v) :
    change.new.get? k = some v ∨ (k, v) = (key, value) := by
  cases hsame : ((fields.get? key).getD .delete == value) with
  | true =>
    rw [write_of_same hsame] at h
    exact .inl h
  | false =>
    rw [write_of_differs hsame] at h
    dsimp only at h
    rw [Dict.get?_insert] at h
    split at h
    · rename_i hkey
      cases h
      rw [hkey]
      exact .inr rfl
    · exact .inl h

theorem writeAll_new {entries : List (String × Value)} {k : String} {v : Value}
    (h : (writeAll fields change entries).2.new.get? k = some v) :
    change.new.get? k = some v ∨ (k, v) ∈ entries := by
  induction entries generalizing fields change with
  | nil => exact .inl h
  | cons e rest ih =>
    obtain ⟨key, value⟩ := e
    rcases ih h with hwritten | hmem
    · rcases write_new hwritten with hbefore | heq
      · exact .inl hbefore
      · exact .inr (heq ▸ List.mem_cons_self)
    · exact .inr (List.mem_cons_of_mem _ hmem)

theorem write_keeps {key k : String} {value : Value} (h : change.new.contains k = true) :
    (write fields change key value).2.new.contains k = true := by
  by_cases hkey : key = k
  · subst hkey
    cases hsame : ((fields.get? key).getD .delete == value) with
    | true =>
      rw [write_of_same hsame]
      exact h
    | false =>
      rw [write_of_differs hsame, Dict.contains, Dict.get?_insert, if_pos rfl]
      rfl
  · rw [Dict.contains, (write_other value hkey).1]
    exact h

theorem writeAll_keeps {entries : List (String × Value)} {k : String}
    (h : change.new.contains k = true) :
    (writeAll fields change entries).2.new.contains k = true := by
  induction entries generalizing fields change with
  | nil => exact h
  | cons e rest ih => exact ih (write_keeps h)

theorem writeAll_clean {entries : List (String × Value)} (h : (Content.model fields).Clean) :
    (Content.model (writeAll fields change entries).1).Clean := by
  induction entries generalizing fields change with
  | nil => exact h
  | cons e rest ih =>
    obtain ⟨key, value⟩ := e
    have hwrite : (Content.model (write fields change key value).1).Clean := by
      cases hsame : ((fields.get? key).getD .delete == value) with
      | true =>
        rw [write_of_same hsame]
        exact h
      | false =>
        rw [write_of_differs hsame]
        intro k
        dsimp only
        cases hdelete : value.isDelete with
        | true =>
          rw [if_pos rfl, Dict.get?_erase]
          split
          · simp
          · exact h k
        | false =>
          rw [if_neg (by simp), Dict.get?_insert]
          split
          · intro heq
            cases heq
            cases hdelete
          · exact h k
    exact ih hwrite

theorem fields_writeAll_of_isEmpty {entries : List (String × Value)}
    (h : (writeAll fields change entries).2.new.isEmpty = true) :
    (writeAll fields change entries).1 = fields := by
  induction entries generalizing fields change with
  | nil => rfl
  | cons e rest ih =>
    obtain ⟨key, value⟩ := e
    have hrest : (writeAll (write fields change key value).1 (write fields change key value).2
        rest).1 = (write fields change key value).1 := ih h
    refine hrest.trans ?_
    cases hsame : ((fields.get? key).getD .delete == value) with
    | true => rw [write_of_same hsame]
    | false =>
      -- what has been written stays noted
      have hwrite : (write fields change key value).2.new.contains key = true := by
        rw [write_of_differs hsame, Dict.contains, Dict.get?_insert, if_pos rfl]
        rfl
      have hkept : (writeAll (write fields change key value).1
          (write fields change key value).2 rest).2.new.contains key = true :=
        writeAll_keeps hwrite
      obtain ⟨v, hv⟩ := Dict.contains_iff.mp hkept
      have hmem := Dict.mem_entries_iff.mpr hv
      change (key, v) ∈ (writeAll fields change ((key, value) :: rest)).2.new.entries at hmem
      rw [List.isEmpty_iff.mp h] at hmem
      cases hmem

def overwritten (old : Option Value) (value : Value) : Option Value :=
  if old.getD .delete == value then old else if value.isDelete then Option.none else some value

theorem get?_write (key : String) (value : Value) (k : String) :
    (write fields change key value).1.get? k =
      if key = k then overwritten (fields.get? k) value else fields.get? k := by
  cases hsame : ((fields.get? key).getD .delete == value) with
  | true =>
    rw [write_of_same hsame]
    by_cases hk : key = k
    · subst hk
      simp [overwritten, hsame]
    · simp [hk]
  | false =>
    rw [write_of_differs hsame]
    by_cases hk : key = k
    · subst hk
      cases hdelete : value.isDelete <;>
        simp [overwritten, hsame, hdelete, Dict.get?_erase, Dict.get?_insert]
    · cases hdelete : value.isDelete <;> simp [hk, Dict.get?_erase, Dict.get?_insert]

theorem get?_writeAll {entries : List (String × Value)}
    (hsorted : entries.Pairwise fun a b => a.1 < b.1) (k : String) :
    (writeAll fields change entries).1.get? k = match Dict.lookup k entries with
      | some value => overwritten (fields.get? k) value
      | Option.none => fields.get? k := by
  induction entries generalizing fields change with
  | nil => rfl
  | cons e rest ih =>
    obtain ⟨key, value⟩ := e
    rw [List.pairwise_cons] at hsorted
    have hrest : (writeAll fields change ((key, value) :: rest)).1.get? k =
        match Dict.lookup k rest with
        | some value' => overwritten ((write fields change key value).1.get? k) value'
        | Option.none => (write fields change key value).1.get? k := ih hsorted.2
    rw [hrest, get?_write]
    by_cases hk : key = k
    · subst hk
      rw [Dict.lookup_eq_none_of_lt hsorted.1]
      simp [Dict.lookup]
    · simp [Dict.lookup, hk]

theorem mem_values_write {key : String} {value v : Value}
    (h : v ∈ (write fields change key value).1.values) : v ∈ fields.values ∨ v = value := by
  obtain ⟨k, hget⟩ := Dict.get?_of_mem_values h
  rw [get?_write] at hget
  split at hget
  · unfold overwritten at hget
    split at hget
    · exact .inl (Dict.mem_values_of_get? hget)
    · split at hget
      · cases hget
      · cases hget
        exact .inr rfl
  · exact .inl (Dict.mem_values_of_get? hget)

theorem mem_values_writeAll {entries : List (String × Value)} {v : Value}
    (h : v ∈ (writeAll fields change entries).1.values) :
    v ∈ fields.values ∨ v ∈ entries.map (·.2) := by
  induction entries generalizing fields change with
  | nil => exact .inl h
  | cons e rest ih =>
    obtain ⟨key, value⟩ := e
    rcases @ih (write fields change key value).1 (write fields change key value).2 h with
      hold | hnew
    · rcases mem_values_write hold with hold | rfl
      · exact .inl hold
      · exact .inr List.mem_cons_self
    · exact .inr (List.mem_cons_of_mem _ hnew)

/-- To write the difference of two models into the first one gives the second one. -/
theorem writeAll_diffModel {old new : Fields} (hold : (Content.model old).Clean)
    (hnew : (Content.model new).Clean) :
    ((writeAll old .none (diffModel old new).entries).1 == new) = true := by
  apply Dict.beq_of_get? Value.beq_iff_normal
  intro k
  have hdiff : Dict.lookup k (diffModel old new).entries = (diffModel old new).get? k := rfl
  rw [get?_writeAll (diffModel old new).sorted, hdiff, get?_diffModel]
  have holdk := hold k
  have hnewk := hnew k
  cases hn : new.get? k with
  | some v =>
    rw [hn] at hnewk
    have hv : v ≠ .delete := fun heq => hnewk (congrArg some heq)
    cases ho : old.get? k with
    | none => simp [overwritten, Value.delete_beq hv, Value.isDelete_of_ne hv]
    | some u =>
      by_cases huv : (u == v) = true
      · simp [huv]
      · simp [overwritten, huv, Value.isDelete_of_ne hv]
  | none =>
    cases ho : old.get? k with
    | none => simp
    | some u =>
      rw [ho] at holdk
      have hu : u ≠ .delete := fun heq => holdk (congrArg some heq)
      simp [overwritten, Value.beq_delete hu, Value.isDelete]

theorem balanced_writeAll (fields changes : Fields) :
    Balanced fields (writeAll fields .none changes.entries).1
      (writeAll fields .none changes.entries).2 :=
  writeAll_balanced changes.sorted (fun _ => rfl) (fun _ _ => ⟨rfl, rfl⟩)

theorem mem_hardRefs_new {fields changes : Fields} {t : String}
    (h : t ∈ hardRefs (writeAll fields .none changes.entries).2.new.values) :
    t ∈ hardRefs changes.values := by
  obtain ⟨v, hv, href⟩ := List.mem_filterMap.mp h
  obtain ⟨k, hget⟩ := Dict.get?_of_mem_values hv
  refine List.mem_filterMap.mpr ⟨v, ?_, href⟩
  rcases writeAll_new hget with hnone | hmem
  · cases hnone
  · exact Dict.mem_values_of_get? (Dict.mem_entries_iff.mp hmem)

end Change

theorem count_insertIdx {values : List Value} {index : Nat} {value : Value}
    (h : index ≤ values.length) (t : String) :
    (hardRefs (values.insertIdx index value)).count t + ([] : List String).count t =
      (hardRefs values).count t + (hardRefs [value]).count t := by
  have hperm := (List.perm_insertIdx value values h).map (·.pointsTo t)
  rw [count_hardRefs, count_hardRefs, count_hardRefs, hperm.sum_nat]
  simp [Nat.add_comm]

theorem count_eraseIdx {values : List Value} {index : Nat} {value : Value}
    (h : values[index]? = some value) (t : String) :
    (hardRefs (values.eraseIdx index)).count t + (hardRefs [value]).count t =
      (hardRefs values).count t + ([] : List String).count t := by
  obtain ⟨hlt, rfl⟩ := List.getElem?_eq_some_iff.mp h
  have hperm := (List.getElem_cons_eraseIdx_perm hlt).map (·.pointsTo t)
  have hsum := hperm.sum_nat
  rw [List.map_cons, List.sum_cons] at hsum
  rw [count_hardRefs, count_hardRefs, count_hardRefs]
  simp only [List.map_cons, List.map_nil, List.sum_cons, List.sum_nil, List.count_nil]
  omega

end LiveResource
