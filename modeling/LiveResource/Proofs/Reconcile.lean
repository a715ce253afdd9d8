import LiveResource.Proofs.Normal
import LiveResource.Reconcile

set_option autoImplicit false

/-!
# Replaying differences

The difference of two lists, replayed on the first one, has every index in range at its turn and
ends in a list equal to the second one. The table of lengths only decides which of the shortest
scripts is taken; no index depends on it.
-/

namespace LiveResource

instance : ReflBEq Value where
  rfl := (Value.beq_iff_normal _ _).mpr rfl

instance : ReflBEq Content where
  rfl := (Content.beq_iff_normal _ _).mpr rfl

theorem Value.beq_delete {v : Value} (h : v ≠ .delete) : (v == .delete) = false := by
  cases v with
  | delete => exact absurd rfl h
  | _ => rfl

theorem Value.delete_beq {v : Value} (h : v ≠ .delete) : (Value.delete == v) = false := by
  cases v with
  | delete => exact absurd rfl h
  | _ => rfl

theorem Value.isDelete_of_ne {v : Value} (h : v ≠ .delete) : v.isDelete = false := by
  cases v with
  | delete => exact absurd rfl h
  | _ => rfl

theorem Value.eq_delete_of_isDelete {v : Value} (h : v.isDelete = true) : v = .delete := by
  cases v with
  | delete => rfl
  | _ => cases h

theorem append_beq_append {as bs cs ds : List Value} (hfront : (as == bs) = true)
    (hback : (cs == ds) = true) : (as ++ cs == bs ++ ds) = true := by
  rw [beq_list_iff_map Value.beq_iff_normal] at hfront hback ⊢
  rw [List.map_append, List.map_append, hfront, hback]

theorem reverse_beq_reverse {as bs : List Value} (h : (as == bs) = true) :
    (as.reverse == bs.reverse) = true := by
  rw [beq_list_iff_map Value.beq_iff_normal] at h ⊢
  rw [List.map_reverse, List.map_reverse, h]

def Edit.apply (values : List Value) : Edit → Option (List Value)
  | .add index value => if index ≤ values.length then some (values.insertIdx index value) else none
  | .remove index => if index < values.length then some (values.eraseIdx index) else none

def replay : List Value → List Edit → Option (List Value)
  | values, [] => some values
  | values, edit :: rest =>
    match edit.apply values with
    | some values => replay values rest
    | none => none

theorem apply_add_at (front back : List Value) (value : Value) :
    (Edit.add front.length value).apply (front ++ back) = some (front ++ value :: back) := by
  have hle : front.length ≤ (front ++ back).length := by simp
  rw [Edit.apply, if_pos hle]
  congr 1
  clear hle
  induction front with
  | nil => rfl
  | cons a front ih => simpa using ih

theorem apply_remove_at (front back : List Value) (value : Value) :
    (Edit.remove front.length).apply (front ++ value :: back) = some (front ++ back) := by
  have hlt : front.length < (front ++ value :: back).length := by simp
  rw [Edit.apply, if_pos hlt]
  congr 1
  clear hlt
  induction front with
  | nil => rfl
  | cons a front ih => simpa using ih

theorem replay_adds (bs front back : List Value) :
    replay (front ++ back) (bs.zipIdx front.length |>.map fun (b, i) => .add i b) =
      some (front ++ bs ++ back) := by
  induction bs generalizing front with
  | nil => simp [replay]
  | cons b bs ih =>
    have hnext := ih (front ++ [b])
    rw [List.length_append, List.length_singleton, List.append_assoc, List.singleton_append]
      at hnext
    rw [List.zipIdx_cons, List.map_cons]
    simp only [replay, apply_add_at]
    rw [hnext]
    simp

/-- A script walks through the old list from the front; what lies behind it is out of its way. -/
theorem replay_editsAlong (as bs : List Value) (table : List (List Nat)) (front back : List Value) :
    ∃ cs, replay (front ++ as ++ back) (editsAlong as bs table front.length) =
      some (front ++ cs ++ back) ∧ (cs == bs) = true := by
  generalize hposition : front.length = position
  induction as, bs, table, position using editsAlong.induct generalizing front with
  | case1 bs table position =>
    subst hposition
    rw [editsAlong, List.append_nil, replay_adds]
    exact ⟨bs, rfl, BEq.rfl⟩
  | case2 a as table position ih =>
    subst hposition
    obtain ⟨cs, hreplay, hsame⟩ := ih front rfl
    refine ⟨cs, ?_, hsame⟩
    rw [editsAlong, List.append_assoc, List.cons_append]
    simp only [replay, apply_remove_at]
    rw [← List.append_assoc]
    exact hreplay
  | case3 a as b bs table position below hab ih =>
    subst hposition
    obtain ⟨cs, hreplay, hsame⟩ := ih (front ++ [a]) (by simp)
    refine ⟨a :: cs, ?_, by rw [List.cons_beq_cons, hab, hsame]; rfl⟩
    rw [editsAlong, if_pos hab]
    simpa [below] using hreplay
  | case4 a as b bs table position row below hab hle ih =>
    subst hposition
    obtain ⟨cs, hreplay, hsame⟩ := ih front rfl
    refine ⟨cs, ?_, hsame⟩
    rw [editsAlong, if_neg hab, if_pos hle, List.append_assoc, List.cons_append]
    simp only [replay, apply_remove_at]
    rw [← List.append_assoc]
    exact hreplay
  | case5 a as b bs table position row below hab hle ih =>
    subst hposition
    obtain ⟨cs, hreplay, hsame⟩ := ih (front ++ [b]) (by simp)
    refine ⟨b :: cs, ?_, by rw [List.cons_beq_cons, BEq.rfl, hsame]; rfl⟩
    rw [editsAlong, if_neg hab, if_neg hle, List.append_assoc]
    simp only [replay, apply_add_at]
    simpa using hreplay

theorem commonPrefix_le_left (as bs : List Value) : commonPrefix as bs ≤ as.length := by
  induction as, bs using commonPrefix.induct with
  | case1 a as b bs hab ih =>
    rw [commonPrefix, if_pos hab, List.length_cons]
    omega
  | case2 a as b bs hab =>
    rw [commonPrefix, if_neg hab]
    omega
  | case3 as bs hnot =>
    rw [commonPrefix]
    · omega
    · exact hnot

theorem take_commonPrefix (as bs : List Value) :
    (as.take (commonPrefix as bs) == bs.take (commonPrefix as bs)) = true := by
  induction as, bs using commonPrefix.induct with
  | case1 a as b bs hab ih =>
    rw [commonPrefix, if_pos hab, List.take_succ_cons, List.take_succ_cons, List.cons_beq_cons, hab]
    exact ih
  | case2 a as b bs hab =>
    rw [commonPrefix, if_neg hab]
    rfl
  | case3 as bs hnot =>
    rw [commonPrefix]
    · rfl
    · exact hnot

theorem drop_commonPrefix_reverse (as bs : List Value) :
    (as.drop (as.length - commonPrefix as.reverse bs.reverse) ==
      bs.drop (bs.length - commonPrefix as.reverse bs.reverse)) = true := by
  have hsame := reverse_beq_reverse (take_commonPrefix as.reverse bs.reverse)
  rwa [List.reverse_take, List.reverse_take, List.reverse_reverse, List.reverse_reverse,
    List.length_reverse, List.length_reverse] at hsame

/-- Replaying the difference of two lists on the first one gives the second one. -/
theorem replay_diffCollection (old new : List Value) :
    ∃ result, replay old (diffCollection old new) = some result ∧ (result == new) = true := by
  have hfront := take_commonPrefix old new
  have hlength : (old.take (commonPrefix old new)).length = commonPrefix old new := by
    rw [List.length_take]
    exact Nat.min_eq_left (commonPrefix_le_left old new)
  dsimp only [diffCollection]
  generalize commonPrefix old new = front at hfront hlength
  have hback := drop_commonPrefix_reverse (old.drop front) (new.drop front)
  generalize commonPrefix (old.drop front).reverse (new.drop front).reverse = back at hback
  have hold : old = old.take front ++ (old.drop front).take ((old.drop front).length - back) ++
      (old.drop front).drop ((old.drop front).length - back) := by
    rw [List.append_assoc, List.take_append_drop, List.take_append_drop]
  have hnew : new = new.take front ++ (new.drop front).take ((new.drop front).length - back) ++
      (new.drop front).drop ((new.drop front).length - back) := by
    rw [List.append_assoc, List.take_append_drop, List.take_append_drop]
  obtain ⟨cs, hreplay, hsame⟩ := replay_editsAlong
    ((old.drop front).take ((old.drop front).length - back))
    ((new.drop front).take ((new.drop front).length - back))
    (lcsTable ((new.drop front).take ((new.drop front).length - back))
      ((old.drop front).take ((old.drop front).length - back)))
    (old.take front) ((old.drop front).drop ((old.drop front).length - back))
  rw [← hold, hlength] at hreplay
  refine ⟨_, hreplay, ?_⟩
  have hjoined := append_beq_append (append_beq_append hfront hsame) hback
  rwa [← hnew] at hjoined

theorem mem_editsAlong {as bs : List Value} {table : List (List Nat)} {position index : Nat}
    {value : Value} (h : Edit.add index value ∈ editsAlong as bs table position) : value ∈ bs := by
  induction as, bs, table, position using editsAlong.induct with
  | case1 bs table position =>
    rw [editsAlong, List.mem_map] at h
    obtain ⟨⟨b, i⟩, hmem, heq⟩ := h
    cases heq
    exact List.fst_mem_of_mem_zipIdx hmem
  | case2 a as table position ih =>
    rw [editsAlong] at h
    exact ih (List.mem_of_ne_of_mem (by simp) h)
  | case3 a as b bs table position below hab ih =>
    rw [editsAlong, if_pos hab] at h
    exact List.mem_cons_of_mem _ (ih h)
  | case4 a as b bs table position row below hab hle ih =>
    rw [editsAlong, if_neg hab, if_pos hle] at h
    exact ih (List.mem_of_ne_of_mem (by simp) h)
  | case5 a as b bs table position row below hab hle ih =>
    rw [editsAlong, if_neg hab, if_neg hle] at h
    rcases List.mem_cons.mp h with heq | h
    · cases heq
      exact List.mem_cons_self
    · exact List.mem_cons_of_mem _ (ih (by simpa using h))

theorem mem_diffCollection {old new : List Value} {index : Nat} {value : Value}
    (h : Edit.add index value ∈ diffCollection old new) : value ∈ new := by
  unfold diffCollection at h
  exact List.mem_of_mem_drop (List.mem_of_mem_take (mem_editsAlong h))

theorem get?_foldl_gone (gone : List String) (d : Fields) (k : String) :
    (gone.foldl (fun d key => d.insert key .delete) d).get? k =
      if k ∈ gone then some .delete else d.get? k := by
  induction gone generalizing d with
  | nil => simp
  | cons key gone ih =>
    rw [List.foldl_cons, ih, Dict.get?_insert]
    by_cases hgone : k ∈ gone
    · simp [hgone]
    · by_cases hk : key = k
      · simp [hk]
      · simp [hgone, hk, Ne.symm hk]

/-- What the difference of two models has for a field. -/
theorem get?_diffModel (old new : Fields) (k : String) :
    (diffModel old new).get? k = match new.get? k with
      | some v => if old.get? k == some v then none else some v
      | none => if (old.get? k).isSome then some .delete else none := by
  have hgone : k ∈ (old.keys.filter fun key => !new.contains key) ↔
      (old.get? k).isSome = true ∧ (new.get? k).isSome = false := by
    rw [List.mem_filter, Dict.mem_keys_iff, ← Option.isSome_iff_exists, Dict.contains,
      Bool.not_eq_true']
  dsimp only [diffModel]
  rw [get?_foldl_gone, Dict.get?_filter]
  cases hnew : new.get? k with
  | some v =>
    rw [if_neg (by rw [hgone, hnew]; simp)]
    cases hold : (old.get? k == some v) with
    | true => simp [Option.filter, hold]
    | false => simp [Option.filter, hold]
  | none =>
    cases hold : (old.get? k).isSome with
    | true => rw [if_pos (by rw [hgone, hnew, hold]; simp)]; rfl
    | false => rw [if_neg (by rw [hgone, hold]; simp)]; rfl

theorem mem_values_diffModel {old new : Fields} {v : Value} (h : v ∈ (diffModel old new).values) :
    v ∈ new.values ∨ v = .delete := by
  obtain ⟨k, hget⟩ := Dict.get?_of_mem_values h
  rw [get?_diffModel] at hget
  cases hnew : new.get? k with
  | some u =>
    simp only [hnew] at hget
    split at hget
    · cases hget
    · cases hget
      exact .inl (Dict.mem_values_of_get? hnew)
  | none =>
    simp only [hnew] at hget
    split at hget
    · cases hget
      exact .inr rfl
    · cases hget

end LiveResource
