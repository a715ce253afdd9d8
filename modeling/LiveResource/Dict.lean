set_option autoImplicit false

/-!
# Dictionaries with text keys

A dictionary lists its entries in strictly increasing key order, so that it is determined by what
it answers to look-ups (`Dict.ext_get?`) and every walk over it is in key order. Keys are ordered
by code point.
-/

namespace LiveResource

/-- Two keys of which neither is below the other are the same. -/
theorem eq_of_not_lt {a b : String} (h₁ : ¬ a < b) (h₂ : ¬ b < a) : a = b :=
  String.le_antisymm (Std.not_lt.mp h₂) (Std.not_lt.mp h₁)

/-- Entries in strictly increasing key order. -/
structure Dict (α : Type) where
  entries : List (String × α)
  sorted : entries.Pairwise (fun a b => a.1 < b.1)

namespace Dict

variable {α β : Type}

def lookup (key : String) : List (String × α) → Option α
  | [] => none
  | (k, v) :: rest => if k = key then some v else lookup key rest

def place (key : String) (value : α) : List (String × α) → List (String × α)
  | [] => [(key, value)]
  | (k, v) :: rest =>
    if key < k then (key, value) :: (k, v) :: rest
    else if key = k then (key, value) :: rest
    else (k, v) :: place key value rest

def without (key : String) (entries : List (String × α)) : List (String × α) :=
  entries.filter (fun e => e.1 ≠ key)

theorem mem_place {key : String} {value : α} {l : List (String × α)} {e : String × α}
    (h : e ∈ place key value l) : e = (key, value) ∨ e ∈ l := by
  induction l with
  | nil => simpa [place] using h
  | cons hd rest ih =>
    obtain ⟨k, v⟩ := hd
    unfold place at h
    split at h
    · simpa using h
    · split at h
      · rcases List.mem_cons.mp h with h | h
        · exact .inl h
        · exact .inr (List.mem_cons_of_mem _ h)
      · rcases List.mem_cons.mp h with h | h
        · exact .inr (h ▸ List.mem_cons_self)
        · rcases ih h with h | h
          · exact .inl h
          · exact .inr (List.mem_cons_of_mem _ h)

theorem sorted_place (key : String) (value : α) {l : List (String × α)}
    (h : l.Pairwise (fun a b => a.1 < b.1)) :
    (place key value l).Pairwise (fun a b => a.1 < b.1) := by
  induction l with
  | nil => simp [place]
  | cons hd rest ih =>
    obtain ⟨k, v⟩ := hd
    rw [List.pairwise_cons] at h
    unfold place
    split
    · rename_i hk
      refine List.pairwise_cons.mpr ⟨fun e he => ?_, List.pairwise_cons.mpr h⟩
      rcases List.mem_cons.mp he with he | he
      · simpa [he] using hk
      · exact String.lt_trans hk (h.1 e he)
    · rename_i hk
      split
      · rename_i hek
        exact List.pairwise_cons.mpr ⟨fun e he => by simpa [hek] using h.1 e he, h.2⟩
      · rename_i hne
        refine List.pairwise_cons.mpr ⟨fun e he => ?_, ih h.2⟩
        rcases mem_place he with he | he
        · subst he
          exact Decidable.byContradiction fun hlt => hne (eq_of_not_lt hk hlt)
        · exact h.1 e he

theorem lookup_place (key : String) (value : α) (l : List (String × α)) (k : String) :
    lookup k (place key value l) = if key = k then some value else lookup k l := by
  induction l with
  | nil => simp [place, lookup]
  | cons hd rest ih =>
    obtain ⟨k', v⟩ := hd
    unfold place
    split
    · simp [lookup]
    · split
      · rename_i h
        subst h
        by_cases hk : key = k <;> simp [lookup, hk]
      · rename_i hne
        by_cases hk : k' = k
        · subst hk
          simp [lookup, hne]
        · simp [lookup, hk, ih]

theorem lookup_without (key : String) (l : List (String × α)) (k : String) :
    lookup k (without key l) = if key = k then none else lookup k l := by
  induction l with
  | nil => simp [without, lookup]
  | cons hd rest ih =>
    obtain ⟨k', v⟩ := hd
    by_cases hk' : k' = key
    · subst hk'
      have : without k' ((k', v) :: rest) = without k' rest := by simp [without]
      rw [this, ih]
      by_cases hk : k' = k <;> simp [lookup, hk]
    · have : without key ((k', v) :: rest) = (k', v) :: without key rest := by
        simp [without, hk']
      rw [this]
      by_cases hk : k' = k
      · subst hk
        simp [lookup, Ne.symm hk']
      · simp [lookup, hk, ih]

theorem lookup_eq_some_iff {l : List (String × α)} (h : l.Pairwise (fun a b => a.1 < b.1))
    {k : String} {v : α} : lookup k l = some v ↔ (k, v) ∈ l := by
  induction l with
  | nil => simp [lookup]
  | cons hd rest ih =>
    obtain ⟨k', v'⟩ := hd
    rw [List.pairwise_cons] at h
    by_cases hk : k' = k
    · subst hk
      have hnot : (k', v) ∉ rest := fun hm => String.lt_irrefl k' (h.1 (k', v) hm)
      simp [lookup, hnot, eq_comm]
    · simp [lookup, hk, ih h.2, Ne.symm hk]

def empty : Dict α := ⟨[], .nil⟩

instance : EmptyCollection (Dict α) := ⟨empty⟩

instance : Inhabited (Dict α) := ⟨empty⟩

def get? (d : Dict α) (key : String) : Option α := lookup key d.entries

def contains (d : Dict α) (key : String) : Bool := (d.get? key).isSome

def insert (d : Dict α) (key : String) (value : α) : Dict α :=
  ⟨place key value d.entries, sorted_place key value d.sorted⟩

def erase (d : Dict α) (key : String) : Dict α :=
  ⟨without key d.entries, d.sorted.filter _⟩

def modify (d : Dict α) (key : String) (f : α → α) : Dict α :=
  match d.get? key with
  | none => d
  | some v => d.insert key (f v)

/-- A later value replaces an earlier one under the same key. -/
def ofList (l : List (String × α)) : Dict α :=
  l.foldl (fun d e => d.insert e.1 e.2) empty

def keys (d : Dict α) : List String := d.entries.map (·.1)

def values (d : Dict α) : List α := d.entries.map (·.2)

def size (d : Dict α) : Nat := d.entries.length

def isEmpty (d : Dict α) : Bool := d.entries.isEmpty

def mapWithKey (f : String → α → β) (d : Dict α) : Dict β :=
  ⟨d.entries.map (fun e => (e.1, f e.1 e.2)), List.pairwise_map.mpr d.sorted⟩

def map (f : α → β) (d : Dict α) : Dict β := d.mapWithKey (fun _ => f)

def filter (p : String → α → Bool) (d : Dict α) : Dict α :=
  ⟨d.entries.filter (fun e => p e.1 e.2), d.sorted.filter _⟩

instance [BEq α] : BEq (Dict α) := ⟨fun a b => a.entries == b.entries⟩

@[simp] theorem get?_empty (k : String) : (empty : Dict α).get? k = none := rfl

theorem get?_insert (d : Dict α) (key : String) (value : α) (k : String) :
    (d.insert key value).get? k = if key = k then some value else d.get? k :=
  lookup_place key value d.entries k

theorem get?_erase (d : Dict α) (key k : String) :
    (d.erase key).get? k = if key = k then none else d.get? k :=
  lookup_without key d.entries k

theorem mem_entries_iff {d : Dict α} {k : String} {v : α} :
    (k, v) ∈ d.entries ↔ d.get? k = some v :=
  (lookup_eq_some_iff d.sorted).symm

/-- A dictionary is determined by its answers. -/
theorem ext_get? {a b : Dict α} (h : ∀ k, a.get? k = b.get? k) : a = b := by
  obtain ⟨as, ha⟩ := a
  obtain ⟨bs, hb⟩ := b
  have hmem : ∀ e, e ∈ as ↔ e ∈ bs := fun ⟨k, v⟩ => by
    rw [← lookup_eq_some_iff ha, ← lookup_eq_some_iff hb]
    have hk : lookup k as = lookup k bs := h k
    rw [hk]
  clear h
  congr 1
  induction as generalizing bs with
  | nil =>
    cases bs with
    | nil => rfl
    | cons b bs => exact absurd ((hmem b).mpr List.mem_cons_self) (by simp)
  | cons a as ih =>
    cases bs with
    | nil => exact absurd ((hmem a).mp List.mem_cons_self) (by simp)
    | cons b bs =>
      rw [List.pairwise_cons] at ha hb
      have hab : a = b := by
        rcases List.mem_cons.mp ((hmem a).mp List.mem_cons_self) with h | h
        · exact h
        · rcases List.mem_cons.mp ((hmem b).mpr List.mem_cons_self) with h' | h'
          · exact h'.symm
          · exact absurd (String.lt_trans (ha.1 _ h') (hb.1 _ h)) (String.lt_irrefl _)
      subst hab
      refine congrArg _ (ih ha.2 bs hb.2 fun e => ?_)
      have hne : e ∈ as → e ≠ a := fun he heq => String.lt_irrefl _ (heq ▸ ha.1 e he)
      have hne' : e ∈ bs → e ≠ a := fun he heq => String.lt_irrefl _ (heq ▸ hb.1 e he)
      constructor
      · intro he
        exact (List.mem_cons.mp ((hmem e).mp (List.mem_cons_of_mem _ he))).resolve_left (hne he)
      · intro he
        exact (List.mem_cons.mp ((hmem e).mpr (List.mem_cons_of_mem _ he))).resolve_left (hne' he)

end Dict

end LiveResource
