import LiveResource.Proofs.Tokens
import LiveResource.Store.Merge

set_option autoImplicit false

/-!
# Values on the wire

A value that a store knows is written to the wire and read back as itself: `Store.parse_toJson_iff`
says that a hard reference comes back just when its target still denotes it, and all other values
always do. What a token denotes satisfies this, so each token can be exchanged for the canonical
one of its value. To read and to count are one operation, `Op.readValue`, of which the reading of
snapshots and of events are cases.
-/

namespace LiveResource

theorem Value.count_hardRefs_singleton (v : Value) (x : String) :
    (hardRefs [v]).count x = if v.hardRef? = some x then 1 else 0 := by
  cases hv : v.hardRef? with
  | none =>
    have hrefs : hardRefs [v] = [] := List.filterMap_cons_none hv
    simp [hrefs]
  | some t =>
    have hrefs : hardRefs [v] = [t] := List.filterMap_cons_some hv
    simp [hrefs, List.count_singleton]

namespace Store

variable {s : Store} {v : Value}

/-- A value can be read back from the wire if it denotes what the store has, and only then. -/
theorem parse_toJson_iff : s.parse v.toJson = .ok v ↔ s.Reads v := by
  refine ⟨reads_of_parse, fun h => ?_⟩
  cases v with
  | hard ref =>
    have href := h ref rfl
    simpa [Value.toJson, parse, Dict.lookup, isSoft, Json.str?] using href
  | _ => rfl

end Store

namespace Op

variable {w w' : Work} {token : Json} {v : Value} {counting : Bool}

/-- Read a token as the value that it denotes, and count the reference that it makes if wanted. -/
def readValue (counting : Bool) (token : Json) : Op Value := do
  let value ← liftStore (·.parse token)
  if counting then countValue value
  pure value

def readStored (counting : Bool) (token : Json) : Op Value := do
  let value ← readValue counting token
  if value.isDelete then throw (.invalidValue token)
  pure value

theorem of_liftStore {α : Type} {f : Store → Except CacheError α} {a : α}
    (h : liftStore f w = .ok a w') : f w.store = .ok a ∧ w' = w := by
  cases hf : f w.store with
  | error err =>
    rw [liftStore_of_error hf] at h
    cases h
  | ok a' =>
    rw [liftStore_of_ok hf] at h
    cases h
    exact ⟨rfl, rfl⟩

theorem readValue_of_error {err : CacheError} (h : w.store.parse token = .error err) :
    readValue counting token w = .error err w :=
  bind_of_error _ (liftStore_of_error h)

theorem readValue_of_ok (h : w.store.parse token = .ok v) : readValue counting token w =
    .ok v ⟨if counting then w.store.gain (hardRefs [v]) else w.store, w.out⟩ := by
  rw [readValue, bind_of_ok _ (liftStore_of_ok h)]
  cases counting with
  | false => rfl
  | true =>
    have hthere : ∀ t ∈ hardRefs [v], ∃ e, w.store.get? t = some e := fun t ht => by
      have hreads : ∀ u ∈ [v], w.store.Reads u := fun u hu => by
        rw [List.mem_singleton.mp hu]
        exact Store.reads_of_parse h
      obtain ⟨e, he, _⟩ := Store.hasReplica_iff.mp (Store.hasReplica_of_reads hreads t ht)
      exact ⟨e, he⟩
    exact bind_of_ok _ (countValue_run hthere)

theorem readValue_eq_ok (h : readValue counting token w = .ok v w') :
    w.store.parse token = .ok v := by
  cases hparse : w.store.parse token with
  | error err =>
    rw [readValue_of_error hparse] at h
    cases h
  | ok u =>
    rw [readValue_of_ok hparse] at h
    cases h
    rfl

theorem readStored_of_ok (h : w.store.parse token = .ok v) (hv : v ≠ .delete) :
    readStored counting token w = readValue counting token w := by
  have hread := @readValue_of_ok w token v counting h
  have hnot : v.isDelete = false := by cases v <;> first | rfl | exact absurd rfl hv
  rw [readStored, bind_of_ok _ hread, hread, hnot]
  rfl

theorem readStored_of_delete (h : w.store.parse token = .ok .delete) :
    readStored counting token w = .error (.invalidValue token) w := by
  have hread := @readValue_of_ok w token .delete counting h
  have hrefs : hardRefs [.delete] = [] := rfl
  rw [hrefs, Store.gain_nil, ite_self] at hread
  rw [readStored, bind_of_ok _ hread]
  rfl

theorem readStored_of_error {err : CacheError} (h : w.store.parse token = .error err) :
    readStored counting token w = .error err w :=
  bind_of_error _ (readValue_of_error h)

theorem readStored_false : readStored false token = liftStore (·.parseStored token) := by
  funext w
  cases h : w.store.parse token with
  | error err =>
    have hstored : w.store.parseStored token = .error err := by rw [Store.parseStored, h]
    rw [readStored_of_error h, liftStore_of_error hstored]
  | ok v =>
    by_cases hv : v = .delete
    · subst hv
      have hstored : w.store.parseStored token = .error (.invalidValue token) := by
        rw [Store.parseStored, h]
      rw [readStored_of_delete h, liftStore_of_error hstored]
    · rw [readStored_of_ok h hv, readValue_of_ok h,
        liftStore_of_ok (Store.parseStored_of_parse h hv)]
      rfl

theorem readStored_true : readStored true token = parseCounted token := by
  funext w
  have hcounted : parseCounted token w =
      (readStored false token >>= fun v => countValue v >>= fun _ => pure v) w := by
    rw [readStored_false]
    rfl
  rw [hcounted]
  cases h : w.store.parse token with
  | error err => rw [readStored_of_error h, bind_of_error _ (readStored_of_error h)]
  | ok v =>
    by_cases hv : v = .delete
    · subst hv
      rw [readStored_of_delete h, bind_of_error _ (readStored_of_delete h)]
    · have hplain : readStored false token w = .ok v w := by
        rw [readStored_of_ok h hv, readValue_of_ok h]
        rfl
      rw [readStored_of_ok h hv, bind_of_ok _ hplain, readValue, bind_of_ok _ (liftStore_of_ok h)]
      rfl

/-- A token that denotes a value is read without a trace, and the canonical token of that value is
read as the same value again. If it is counted, what is changed is one count: a hard reference more
to its target, which is there. Where a value is stored the token denotes the same, but never a
deletion. -/
theorem values_round_trip (h : liftStore (·.parse token) w = .ok v w') :
    w' = w ∧
    (∃ u, liftStore (·.parse v.toJson) w = .ok u w ∧ u = v ∧ u.toJson = v.toJson) ∧
    (∀ t, t = token ∨ t = v.toJson → ∃ s, readValue true t w = .ok v ⟨s, w.out⟩ ∧
      (∀ x, s.get? x = (w.store.get? x).map fun e =>
        { e with indirect := e.indirect + if v.hardRef? = some x then 1 else 0 }) ∧
      s.retired = w.store.retired ∧ s.ledger = w.store.ledger ∧
      s.nextReplica = w.store.nextReplica) ∧
    (∀ x, v.hardRef? = some x → w.store.hasReplica x = true) ∧
    (∀ u, w.store.parseStored token = .ok u → u = v ∧ u ≠ .delete) ∧
    ∀ u w'', parseCounted token w = .ok u w'' →
      u = v ∧ u ≠ .delete ∧ readValue true token w = .ok u w'' := by
  obtain ⟨hparse, hsame⟩ := of_liftStore h
  have hreads := Store.reads_of_parse hparse
  have hagain : w.store.parse v.toJson = .ok v := Store.parse_toJson_iff.mpr hreads
  refine ⟨hsame, ⟨v, liftStore_of_ok hagain, rfl, rfl⟩, fun t ht => ?_, fun x hx => ?_,
    fun u hu => ⟨?_, Store.parseStored_ne_delete hu⟩, fun u w'' hu => ?_⟩
  · have hread : w.store.parse t = .ok v := by
      rcases ht with rfl | rfl
      · exact hparse
      · exact hagain
    refine ⟨_, readValue_of_ok hread, fun x => ?_, rfl, rfl, rfl⟩
    rw [if_pos rfl, Store.get?_gain]
    simp only [Value.count_hardRefs_singleton]
  · have hmem : x ∈ hardRefs [v] := List.mem_filterMap.mpr ⟨v, List.mem_singleton_self v, hx⟩
    exact Store.hasReplica_of_reads (fun u hu => List.mem_singleton.mp hu ▸ hreads) x hmem
  · cases hparse.symm.trans (Store.parse_of_parseStored hu)
    rfl
  · rw [← readStored_true] at hu
    by_cases hv : v = .delete
    · subst hv
      rw [readStored_of_delete hparse] at hu
      cases hu
    · rw [readStored_of_ok hparse hv] at hu
      cases hparse.symm.trans (readValue_eq_ok hu)
      exact ⟨rfl, hv, hu⟩

def laden : Json :=
  .obj [("data", .bool true), ("rid", .str "m"), ("soft", .str "true")]

def holding : Work :=
  ⟨Store.empty.put "m" { Entry.fresh 0 with
    kind := some .model, replica := some ⟨3, .model ∅, .pass, 0⟩ }, {}⟩

theorem values_round_trip_laden :
    liftStore (·.parse (.obj [("rid", .str "m")])) holding =
        .ok (.hard ⟨"m", .model, 3⟩) holding ∧
      ∃ s e, readValue true laden holding = .ok (.hard ⟨"m", .model, 3⟩) ⟨s, {}⟩ ∧
        s.get? "m" = some e ∧ e.indirect = 1 := by
  have h : liftStore (·.parse laden) holding = .ok (.hard ⟨"m", .model, 3⟩) holding := rfl
  obtain ⟨_, ⟨u, hagain, rfl, _⟩, hcounted, _⟩ := values_round_trip h
  obtain ⟨s, hread, hget, _⟩ := hcounted laden (.inl rfl)
  exact ⟨hagain, s, _, hread, hget "m", rfl⟩

end Op

end LiveResource
