import LiveResource.Dict
import Mathlib.Algebra.GroupWithZero.Nat

set_option autoImplicit false

/-!
# Look-ups and totals of dictionaries

What each operation on a dictionary answers to a look-up, and the sum of a weight over all entries.
-/

namespace LiveResource.Dict

variable {α β : Type}

theorem lookup_eq_none_of_lt {key : String} {l : List (String × α)}
    (h : ∀ e ∈ l, key < e.1) : lookup key l = none := by
  induction l with
  | nil => rfl
  | cons hd rest ih =>
    obtain ⟨k, v⟩ := hd
    have hk : key < k := h (k, v) List.mem_cons_self
    have hne : k ≠ key := fun heq => String.lt_irrefl k (heq ▸ hk)
    simp only [lookup, hne, if_false]
    exact ih fun e he => h e (List.mem_cons_of_mem _ he)

theorem lookup_map (f : String → α → β) (l : List (String × α)) (k : String) :
    lookup k (l.map fun e => (e.1, f e.1 e.2)) = (lookup k l).map (f k) := by
  induction l with
  | nil => rfl
  | cons hd rest ih =>
    obtain ⟨k', v⟩ := hd
    by_cases hk : k' = k
    · subst hk
      simp [lookup]
    · simp [lookup, hk, ih]

theorem get?_modify (d : Dict α) (key : String) (f : α → α) (k : String) :
    (d.modify key f).get? k = if key = k then (d.get? k).map f else d.get? k := by
  unfold modify
  cases h : d.get? key with
  | none =>
    by_cases hk : key = k
    · subst hk
      simp [h]
    · simp [hk]
  | some v =>
    rw [get?_insert]
    by_cases hk : key = k
    · subst hk
      simp [h]
    · simp [hk]

theorem get?_mapWithKey (f : String → α → β) (d : Dict α) (k : String) :
    (d.mapWithKey f).get? k = (d.get? k).map (f k) :=
  lookup_map f d.entries k

theorem get?_map (f : α → β) (d : Dict α) (k : String) : (d.map f).get? k = (d.get? k).map f :=
  get?_mapWithKey (fun _ => f) d k

theorem map_insert (f : α → β) (d : Dict α) (key : String) (value : α) :
    (d.insert key value).map f = (d.map f).insert key (f value) := by
  apply ext_get?
  intro k
  rw [get?_map, get?_insert, get?_insert, get?_map]
  split <;> rfl

theorem get?_filter (p : String → α → Bool) (d : Dict α) (k : String) :
    (d.filter p).get? k = (d.get? k).filter (p k) := by
  have hmem (v : α) : (d.filter p).get? k = some v ↔ d.get? k = some v ∧ p k v = true := by
    rw [← mem_entries_iff, ← mem_entries_iff]
    exact List.mem_filter
  apply Option.ext
  intro v
  rw [hmem, Option.filter_eq_some_iff]

theorem mem_keys_iff {d : Dict α} {k : String} : k ∈ d.keys ↔ ∃ v, d.get? k = some v := by
  constructor
  · intro h
    obtain ⟨⟨k', v⟩, hmem, rfl⟩ := List.mem_map.mp h
    exact ⟨v, mem_entries_iff.mp hmem⟩
  · rintro ⟨v, h⟩
    exact List.mem_map.mpr ⟨(k, v), mem_entries_iff.mpr h, rfl⟩

theorem contains_iff {d : Dict α} {k : String} : d.contains k = true ↔ ∃ v, d.get? k = some v := by
  rw [contains, Option.isSome_iff_exists]

theorem nodup_keys (d : Dict α) : d.keys.Nodup := by
  refine List.pairwise_map.mpr (d.sorted.imp ?_)
  intro a b hlt heq
  rw [heq] at hlt
  exact String.lt_irrefl _ hlt

theorem mem_values_of_get? {d : Dict α} {k : String} {v : α} (h : d.get? k = some v) :
    v ∈ d.values :=
  List.mem_map.mpr ⟨(k, v), mem_entries_iff.mpr h, rfl⟩

theorem get?_of_mem_values {d : Dict α} {v : α} (h : v ∈ d.values) : ∃ k, d.get? k = some v := by
  obtain ⟨⟨k, v'⟩, hmem, rfl⟩ := List.mem_map.mp h
  exact ⟨k, mem_entries_iff.mp hmem⟩

theorem place_of_forall_lt {key : String} {value : α} {l : List (String × α)}
    (h : ∀ e ∈ l, e.1 < key) : place key value l = l ++ [(key, value)] := by
  induction l with
  | nil => rfl
  | cons hd rest ih =>
    obtain ⟨k, v⟩ := hd
    have hk : k < key := h (k, v) List.mem_cons_self
    have hnlt : ¬ key < k := fun hlt => String.lt_irrefl k (String.lt_trans hk hlt)
    have hne : key ≠ k := fun heq => String.lt_irrefl k (heq ▸ hk)
    simp only [place, hnlt, hne, if_false, List.cons_append]
    rw [ih fun e he => h e (List.mem_cons_of_mem _ he)]

theorem entries_foldl_insert (l : List (String × α)) (d : Dict α)
    (hl : l.Pairwise fun a b => a.1 < b.1) (hd : ∀ e ∈ d.entries, ∀ e' ∈ l, e.1 < e'.1) :
    (l.foldl (fun d e => d.insert e.1 e.2) d).entries = d.entries ++ l := by
  induction l generalizing d with
  | nil => simp
  | cons hd' rest ih =>
    obtain ⟨k, v⟩ := hd'
    rw [List.pairwise_cons] at hl
    have hplace : (d.insert k v).entries = d.entries ++ [(k, v)] :=
      place_of_forall_lt fun e he => hd e he (k, v) List.mem_cons_self
    rw [List.foldl_cons, ih (d.insert k v) hl.2, hplace, List.append_assoc, List.singleton_append]
    intro e he e' he'
    rw [hplace] at he
    rcases List.mem_append.mp he with he | he
    · exact hd e he e' (List.mem_cons_of_mem _ he')
    · rw [List.mem_singleton.mp he]
      exact hl.1 e' he'

theorem entries_ofList {l : List (String × α)} (h : l.Pairwise fun a b => a.1 < b.1) :
    (ofList l).entries = l := by
  rw [ofList, entries_foldl_insert l empty h (fun e he => by cases he)]
  rfl

theorem get?_foldl_insert {l : List (String × α)} {d : Dict α} {k : String} {v : α}
    (h : (l.foldl (fun d e => d.insert e.1 e.2) d).get? k = some v) :
    d.get? k = some v ∨ (k, v) ∈ l := by
  induction l generalizing d with
  | nil => exact .inl h
  | cons e rest ih =>
    rcases ih h with hinsert | hmem
    · rw [get?_insert] at hinsert
      split at hinsert
      · rename_i hkey
        cases hinsert
        subst hkey
        exact .inr List.mem_cons_self
      · exact .inl hinsert
    · exact .inr (List.mem_cons_of_mem _ hmem)

theorem mem_of_get?_ofList {l : List (String × α)} {k : String} {v : α}
    (h : (ofList l).get? k = some v) : (k, v) ∈ l := by
  rcases get?_foldl_insert h with hnone | hmem
  · cases hnone
  · exact hmem

def total (d : Dict α) (weight : String → α → Nat) : Nat :=
  (d.entries.map fun e => weight e.1 e.2).sum

theorem sum_place (weight : String → α → Nat) (key : String) (value : α)
    {l : List (String × α)} (h : l.Pairwise fun a b => a.1 < b.1) :
    ((place key value l).map fun e => weight e.1 e.2).sum + ((lookup key l).map (weight key)).getD 0 =
      (l.map fun e => weight e.1 e.2).sum + weight key value := by
  induction l with
  | nil => simp [place, lookup]
  | cons hd rest ih =>
    obtain ⟨k, v⟩ := hd
    rw [List.pairwise_cons] at h
    unfold place
    split
    · rename_i hlt
      have hnone : lookup key ((k, v) :: rest) = none := by
        apply lookup_eq_none_of_lt
        intro e he
        rcases List.mem_cons.mp he with rfl | he
        · exact hlt
        · exact String.lt_trans hlt (h.1 e he)
      rw [hnone]
      simp only [List.map_cons, List.sum_cons, Option.map_none, Option.getD_none]
      omega
    · split
      · rename_i heq
        subst heq
        simp only [lookup, if_true, List.map_cons, List.sum_cons, Option.map_some, Option.getD_some]
        omega
      · rename_i hne
        have hrest := ih h.2
        simp only [lookup, Ne.symm hne, if_false, List.map_cons, List.sum_cons]
        omega

theorem total_insert (d : Dict α) (weight : String → α → Nat) (key : String) (value : α) :
    (d.insert key value).total weight + ((d.get? key).map (weight key)).getD 0 =
      d.total weight + weight key value :=
  sum_place weight key value d.sorted

theorem sum_without (weight : String → α → Nat) (key : String) {l : List (String × α)}
    (h : l.Pairwise fun a b => a.1 < b.1) :
    ((without key l).map fun e => weight e.1 e.2).sum + ((lookup key l).map (weight key)).getD 0 =
      (l.map fun e => weight e.1 e.2).sum := by
  induction l with
  | nil => simp [without, lookup]
  | cons hd rest ih =>
    obtain ⟨k, v⟩ := hd
    rw [List.pairwise_cons] at h
    have hrest := ih h.2
    by_cases hk : k = key
    · subst hk
      have hnone : lookup k rest = none := lookup_eq_none_of_lt h.1
      have hwithout : without k ((k, v) :: rest) = without k rest := by simp [without]
      rw [hnone] at hrest
      rw [hwithout]
      simp only [lookup, if_true, List.map_cons, List.sum_cons, Option.map_some, Option.getD_some]
      simp only [Option.map_none, Option.getD_none] at hrest
      omega
    · have hwithout : without key ((k, v) :: rest) = (k, v) :: without key rest := by
        simp [without, hk]
      rw [hwithout]
      simp only [lookup, hk, if_false, List.map_cons, List.sum_cons]
      omega

theorem total_erase (d : Dict α) (weight : String → α → Nat) (key : String) :
    (d.erase key).total weight + ((d.get? key).map (weight key)).getD 0 = d.total weight :=
  sum_without weight key d.sorted

theorem weight_le_total {d : Dict α} (weight : String → α → Nat) {key : String} {value : α}
    (h : d.get? key = some value) : weight key value ≤ d.total weight := by
  have herase := d.total_erase weight key
  rw [h] at herase
  simp only [Option.map_some, Option.getD_some] at herase
  omega

theorem total_mapWithKey (d : Dict α) (f : String → α → β) (weight : String → β → Nat) :
    (d.mapWithKey f).total weight = d.total fun key value => weight key (f key value) := by
  simp only [total, mapWithKey, List.map_map, Function.comp_def]

theorem total_eq {d : Dict α} {d' : Dict β} {weight : String → α → Nat}
    {weight' : String → β → Nat}
    (h : ∀ k, (d.get? k).map (weight k) = (d'.get? k).map (weight' k)) :
    d.total weight = d'.total weight' := by
  have hmap : d.mapWithKey weight = d'.mapWithKey weight' := by
    apply ext_get?
    intro k
    rw [get?_mapWithKey, get?_mapWithKey, h]
  have htotal := congrArg (Dict.total · fun _ n => n) hmap
  simpa only [total_mapWithKey] using htotal

theorem total_congr {d : Dict α} {weight weight' : String → α → Nat}
    (h : ∀ key value, d.get? key = some value → weight key value = weight' key value) :
    d.total weight = d.total weight' := by
  unfold total
  congr 1
  apply List.map_congr_left
  rintro ⟨key, value⟩ hmem
  exact h key value (mem_entries_iff.mp hmem)

theorem total_add (d : Dict α) (weight weight' : String → α → Nat) :
    d.total (fun key value => weight key value + weight' key value) =
      d.total weight + d.total weight' := by
  unfold total
  induction d.entries with
  | nil => rfl
  | cons e rest ih =>
    simp only [List.map_cons, List.sum_cons] at ih ⊢
    omega

theorem total_filter (d : Dict α) (p : String → α → Bool) (weight : String → α → Nat) :
    (d.filter p).total weight =
      d.total fun key value => if p key value = true then weight key value else 0 := by
  unfold total
  change ((d.entries.filter fun e => p e.1 e.2).map fun e => weight e.1 e.2).sum = _
  induction d.entries with
  | nil => rfl
  | cons e rest ih =>
    by_cases hp : p e.1 e.2 = true
    · simp only [List.filter_cons, hp, if_true, List.map_cons, List.sum_cons, ih]
    · simp only [List.filter_cons, hp, if_false, List.map_cons, List.sum_cons, ih, Nat.zero_add,
        Bool.false_eq_true]

theorem sum_map_of_nodup {d : Dict α} {keys : List String} (hnodup : keys.Nodup)
    (hkeys : ∀ k ∈ keys, k ∈ d.keys) (weight : String → Nat) :
    (keys.map weight).sum = d.total fun key _ => if key ∈ keys then weight key else 0 := by
  have hperm : keys.Perm (d.keys.filter fun k => k ∈ keys) := by
    rw [List.perm_ext_iff_of_nodup hnodup (d.nodup_keys.filter _)]
    intro k
    rw [List.mem_filter, decide_eq_true_eq]
    exact ⟨fun h => ⟨hkeys k h, h⟩, And.right⟩
  rw [(hperm.map weight).sum_nat]
  unfold total Dict.keys
  generalize d.entries = entries
  induction entries with
  | nil => rfl
  | cons e rest ih =>
    by_cases he : e.1 ∈ keys
    · simp [he, ih]
    · simp [he, ih]

theorem total_eq_zero_iff {d : Dict α} {weight : String → α → Nat} :
    d.total weight = 0 ↔ ∀ key value, d.get? key = some value → weight key value = 0 := by
  constructor
  · intro h key value hget
    have hle := weight_le_total weight hget
    omega
  · intro h
    have hzero : d.total weight = d.total fun _ _ => 0 := total_congr h
    rw [hzero]
    unfold total
    induction d.entries with
    | nil => rfl
    | cons e rest ih => rw [List.map_cons, List.sum_cons, ih]

end LiveResource.Dict
