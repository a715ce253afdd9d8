import LiveResource.Proofs.References

set_option autoImplicit false

/-!
# Reading tokens

What a token denotes depends on a store only by what its references denote. A token that passes the
check can be read as soon as the resources of its batch have replicas, and whatever it refers to
has one: a reference that has been read is what its target denotes.
-/

namespace LiveResource.Store

variable {s s' : Store} {batch : Batch} {token : Json} {v : Value} {rid t : String}

theorem parseRef_of_hasReplica (h : s.Sturdy) (hrid : s.hasReplica rid = true) :
    ∃ ref, s.parseRef rid = .ok (.hard ref) := by
  obtain ⟨e, he, hreplica⟩ := hasReplica_iff.mp hrid
  obtain ⟨r, hr⟩ := Option.isSome_iff_exists.mp hreplica
  have hkind := (h.entry he).kind
  rw [hr, Option.map_some] at hkind
  exact ⟨⟨rid, r.content.kind, r.id⟩, by simp only [parseRef, he, hkind, hr]⟩

theorem hasReplica_of_parseRef (h : s.parseRef rid = .ok v) (ht : v.hardRef? = some t) :
    s.hasReplica t = true := by
  unfold parseRef at h
  cases he : s.get? rid with
  | none =>
    simp only [he] at h
    cases h
  | some e =>
    cases hk : e.kind with
    | none =>
      simp only [he, hk] at h
      cases h
    | some kind =>
      cases hr : e.replica with
      | none =>
        simp only [he, hk, hr] at h
        cases h
      | some r =>
        simp only [he, hk, hr] at h
        cases h
        cases ht
        exact hasReplica_iff.mpr ⟨e, he, by rw [hr]; rfl⟩

theorem parse_of_parseStored (h : s.parseStored token = .ok v) : s.parse token = .ok v := by
  unfold parseStored at h
  split at h
  · cases h
  · exact h

theorem parseStored_ne_delete (h : s.parseStored token = .ok v) : v ≠ .delete := by
  intro hv
  subst hv
  unfold parseStored at h
  split at h
  · cases h
  · rename_i hnot
    exact hnot h

theorem parseStored_of_parse (h : s.parse token = .ok v) (hv : v ≠ .delete) :
    s.parseStored token = .ok v := by
  unfold parseStored
  rw [h]
  cases v with
  | delete => exact absurd rfl hv
  | _ => rfl

/-- A token that passes the check can be read once the resources of its batch are there. -/
theorem parseStored_of_check (h : s.check batch token = .ok ())
    (hthere : ∀ rid, batch.contains rid = true ∨ s.hasReplica rid = true →
      s'.hasReplica rid = true) (hsturdy : s'.Sturdy) :
    ∃ v, s'.parseStored token = .ok v := by
  cases token with
  | null => exact ⟨.null, rfl⟩
  | bool b => exact ⟨.bool b, rfl⟩
  | num n => exact ⟨.number n, rfl⟩
  | str text => exact ⟨.string text, rfl⟩
  | arr items => cases h
  | obj members =>
    rw [check] at h
    cases hrid : Dict.lookup "rid" members with
    | some target =>
      simp only [hrid] at h
      cases hstr : target.str? with
      | none =>
        simp only [hstr] at h
        cases h
      | some rid =>
        simp only [hstr] at h
        cases hsoft : isSoft members with
        | true =>
          have hparse : s'.parse (.obj members) = .ok (.soft rid) := by
            simp only [parse, hrid, hstr, hsoft, if_true]
          exact ⟨_, parseStored_of_parse hparse (by simp)⟩
        | false =>
          have hreplica : s'.hasReplica rid = true := by
            apply hthere
            by_cases hcond : (isSoft members || batch.contains rid || s.hasReplica rid) = true
            · rwa [hsoft, Bool.false_or, Bool.or_eq_true] at hcond
            · rw [if_neg hcond] at h
              cases h
          obtain ⟨ref, href⟩ := parseRef_of_hasReplica hsturdy hreplica
          have hparse : s'.parse (.obj members) = .ok (.hard ref) := by
            simp only [parse, hrid, hstr, hsoft, Bool.false_eq_true, if_false, href]
          exact ⟨_, parseStored_of_parse hparse (by simp)⟩
    | none =>
      simp only [hrid] at h
      cases hdata : Dict.lookup "data" members with
      | none => simp [hdata] at h
      | some data =>
        have hparse : s'.parse (.obj members) = .ok (.data data) := by
          simp only [parse, hrid, hdata]
        exact ⟨_, parseStored_of_parse hparse (by simp)⟩

def Unreadable (err : CacheError) : Prop :=
  (∃ token, err = .invalidValue token) ∨ ∃ rid, err = .notFound rid

theorem parseRef_error {err : CacheError} (h : s.parseRef rid = .error err) : Unreadable err := by
  unfold parseRef at h
  split at h
  · cases h
    exact .inr ⟨rid, rfl⟩
  · split at h
    · cases h
    · cases h
      exact .inr ⟨rid, rfl⟩

theorem parse_error {err : CacheError} (h : s.parse token = .error err) : Unreadable err := by
  cases token with
  | arr items =>
    cases h
    exact .inl ⟨_, rfl⟩
  | obj members =>
    rw [parse] at h
    split at h
    · split at h
      · cases h
        exact .inl ⟨_, rfl⟩
      · split at h
        · cases h
        · exact parseRef_error h
    · split at h
      · cases h
      · split at h
        · cases h
        · cases h
          exact .inl ⟨_, rfl⟩
  | _ => cases h

theorem parseStored_error {err : CacheError} (h : s.parseStored token = .error err) :
    Unreadable err := by
  unfold parseStored at h
  split at h
  · cases h
    exact .inl ⟨_, rfl⟩
  · exact parse_error h

theorem parseEach_error {read : Json → Except CacheError Value}
    (hread : ∀ token err, read token = .error err → Unreadable err)
    {entries : List (String × Json)} {err : CacheError} (h : parseEach read entries = .error err) :
    Unreadable err := by
  induction entries with
  | nil => cases h
  | cons e rest ih =>
    obtain ⟨key, token⟩ := e
    cases hv : read token with
    | error err' =>
      simp only [parseEach, hv, Except.error.injEq] at h
      exact h ▸ hread token err' hv
    | ok v =>
      cases hvs : parseEach read rest with
      | error err' =>
        simp only [parseEach, hv, hvs, Except.error.injEq] at h
        exact ih (h ▸ hvs)
      | ok vs => simp [parseEach, hv, hvs] at h

theorem parseChanges_error {tokens : List (String × Json)} {err : CacheError}
    (h : s.parseChanges tokens = .error err) : Unreadable err := by
  unfold parseChanges at h
  cases hvs : parseEach s.parse tokens with
  | error err' =>
    rw [hvs] at h
    cases h
    exact parseEach_error (fun _ _ => parse_error) hvs
  | ok vs =>
    rw [hvs] at h
    cases h

theorem parse_congr (h : s'.parseRef = s.parseRef) : s'.parse = s.parse := by
  funext token
  cases token with
  | obj members =>
    simp only [parse, h]
  | _ => rfl

theorem parseStored_congr (h : s'.parseRef = s.parseRef) : s'.parseStored = s.parseStored := by
  funext token
  simp only [parseStored, parse_congr h]

theorem parseFields_congr (h : s'.parseRef = s.parseRef) : s'.parseFields = s.parseFields := by
  funext tokens
  simp only [parseFields, parseStored_congr h]

theorem parseValues_congr (h : s'.parseRef = s.parseRef) : s'.parseValues = s.parseValues := by
  funext tokens
  induction tokens with
  | nil => rfl
  | cons token rest ih => simp only [parseValues, parseStored_congr h, ih]

theorem parseRef_recount (s : Store) (f : String → Nat → Nat) :
    (s.recount f).parseRef = s.parseRef := by
  funext rid
  unfold parseRef
  rw [get?_recount]
  cases s.get? rid <;> rfl

theorem parseEach_ok {read : Json → Except CacheError Value} {entries : List (String × Json)}
    (h : ∀ e ∈ entries, ∃ v, read e.2 = .ok v) :
    ∃ vs, parseEach read entries = .ok vs := by
  induction entries with
  | nil => exact ⟨[], rfl⟩
  | cons e rest ih =>
    obtain ⟨key, token⟩ := e
    obtain ⟨v, hv⟩ := h (key, token) List.mem_cons_self
    obtain ⟨vs, hvs⟩ := ih fun e he => h e (List.mem_cons_of_mem _ he)
    exact ⟨(key, v) :: vs, by simp only [parseEach, hv, hvs]⟩

theorem parseEach_cons_ok {read : Json → Except CacheError Value} {key : String} {token : Json}
    {rest : List (String × Json)} {vs : List (String × Value)}
    (h : parseEach read ((key, token) :: rest) = .ok vs) :
    ∃ v others, read token = .ok v ∧ parseEach read rest = .ok others ∧ vs = (key, v) :: others := by
  cases hv : read token with
  | error err => simp [parseEach, hv] at h
  | ok v =>
    cases hvs : parseEach read rest with
    | error err => simp [parseEach, hv, hvs] at h
    | ok others =>
      simp only [parseEach, hv, hvs, Except.ok.injEq] at h
      exact ⟨v, others, rfl, rfl, h.symm⟩

theorem of_parseEach {read : Json → Except CacheError Value} {entries : List (String × Json)}
    {vs : List (String × Value)} (h : parseEach read entries = .ok vs) :
    vs.map (·.1) = entries.map (·.1) ∧ ∀ e ∈ vs, ∃ token, read token = .ok e.2 := by
  induction entries generalizing vs with
  | nil =>
    cases h
    exact ⟨rfl, fun e he => (by cases he)⟩
  | cons e rest ih =>
    obtain ⟨key, token⟩ := e
    obtain ⟨v, others, hv, hvs, rfl⟩ := parseEach_cons_ok h
    obtain ⟨hkeys, hread⟩ := ih hvs
    refine ⟨by rw [List.map_cons, List.map_cons, hkeys], fun e he => ?_⟩
    rcases List.mem_cons.mp he with rfl | he
    · exact ⟨token, hv⟩
    · exact hread e he

theorem parseValues_ok {tokens : List Json} (h : ∀ token ∈ tokens, ∃ v, s.parseStored token = .ok v) :
    ∃ vs, s.parseValues tokens = .ok vs := by
  induction tokens with
  | nil => exact ⟨[], rfl⟩
  | cons token rest ih =>
    obtain ⟨v, hv⟩ := h token List.mem_cons_self
    obtain ⟨vs, hvs⟩ := ih fun t ht => h t (List.mem_cons_of_mem _ ht)
    exact ⟨v :: vs, by simp only [parseValues, hv, hvs]⟩

theorem parseValues_cons_ok {token : Json} {rest : List Json} {vs : List Value}
    (h : s.parseValues (token :: rest) = .ok vs) :
    ∃ v others, s.parseStored token = .ok v ∧ s.parseValues rest = .ok others ∧ vs = v :: others := by
  cases hv : s.parseStored token with
  | error err => simp [parseValues, hv] at h
  | ok v =>
    cases hvs : s.parseValues rest with
    | error err => simp [parseValues, hv, hvs] at h
    | ok others =>
      simp only [parseValues, hv, hvs, Except.ok.injEq] at h
      exact ⟨v, others, rfl, rfl, h.symm⟩

theorem of_parseValues {tokens : List Json} {vs : List Value} (h : s.parseValues tokens = .ok vs) :
    ∀ v ∈ vs, ∃ token, s.parseStored token = .ok v := by
  induction tokens generalizing vs with
  | nil =>
    cases h
    exact fun v hv => (by cases hv)
  | cons token rest ih =>
    obtain ⟨v, others, hv, hvs, rfl⟩ := parseValues_cons_ok h
    intro u hu
    rcases List.mem_cons.mp hu with rfl | hu
    · exact ⟨token, hv⟩
    · exact ih hvs u hu

def Reads (s : Store) (value : Value) : Prop :=
  ∀ ref, value = .hard ref → s.parseRef ref.rid = .ok (.hard ref)

theorem hasReplica_of_reads {values : List Value} (h : ∀ v ∈ values, s.Reads v) :
    ∀ t ∈ hardRefs values, s.hasReplica t = true := by
  intro t ht
  obtain ⟨v, hv, href⟩ := List.mem_filterMap.mp ht
  cases v with
  | hard ref => exact hasReplica_of_parseRef (h _ hv ref rfl) href
  | _ => cases href

theorem reads_of_hardRefs {values : List Value} (h : hardRefs values = []) :
    ∀ v ∈ values, s.Reads v := by
  intro v hv ref href
  have hmem : ref.rid ∈ hardRefs values := List.mem_filterMap.mpr ⟨v, hv, by rw [href]; rfl⟩
  rw [h] at hmem
  cases hmem

theorem reads_congr (h : s'.parseRef = s.parseRef) : s'.Reads v ↔ s.Reads v := by
  simp only [Reads, h]

theorem reads_of_parseRef (h : s.parseRef rid = .ok v) : s.Reads v := by
  intro ref hv
  have htarget : ref.rid = rid := by
    unfold parseRef at h
    split at h
    · cases h
    · split at h
      · cases h
        cases hv
        rfl
      · cases h
  rw [htarget, h, hv]

theorem reads_of_parse (h : s.parse token = .ok v) : s.Reads v := by
  intro ref hv
  subst hv
  cases token with
  | obj members =>
    rw [parse] at h
    split at h
    · split at h
      · cases h
      · split at h
        · cases h
        · exact reads_of_parseRef h ref rfl
    · split at h
      · cases h
      · split at h <;> cases h
  | _ => cases h

theorem reads_of_parseStored (h : s.parseStored token = .ok v) : s.Reads v :=
  reads_of_parse (parse_of_parseStored h)

theorem reads_of_parseValues {tokens : List Json} {vs : List Value}
    (h : s.parseValues tokens = .ok vs) : ∀ v ∈ vs, s.Reads v := by
  intro v hv
  obtain ⟨token, htoken⟩ := of_parseValues h v hv
  exact reads_of_parseStored htoken

theorem reads_of_parseEach {read : Json → Except CacheError Value}
    (hread : ∀ token v, read token = .ok v → s.parse token = .ok v)
    {entries : List (String × Json)} {vs : List (String × Value)}
    (h : parseEach read entries = .ok vs) : ∀ v ∈ vs.map (·.2), s.Reads v := by
  intro v hv
  obtain ⟨e, he, rfl⟩ := List.mem_map.mp hv
  obtain ⟨token, htoken⟩ := (of_parseEach h).2 e he
  exact reads_of_parse (hread token e.2 htoken)

def target? : Json → Option String
  | .obj members =>
    if isSoft members then none else (Dict.lookup "rid" members).bind Json.str?
  | _ => none

def targets (tokens : List Json) : List String := tokens.filterMap target?

theorem hardRef?_of_parseRef (h : s.parseRef rid = .ok v) : v.hardRef? = some rid := by
  unfold parseRef at h
  split at h
  · cases h
  · split at h
    · cases h
      rfl
    · cases h

theorem hardRef?_of_parse (h : s.parse token = .ok v) : v.hardRef? = target? token := by
  cases token with
  | null => cases h; rfl
  | bool b => cases h; rfl
  | num n => cases h; rfl
  | str text => cases h; rfl
  | arr items => cases h
  | obj members =>
    rw [parse] at h
    rw [target?]
    split at h
    · rename_i token' hrid
      rw [hrid, Option.bind_some]
      split at h
      · cases h
      · rename_i rid hstr
        split at h
        · rename_i hsoft
          cases h
          rw [if_pos hsoft]
          rfl
        · rename_i hhard
          rw [if_neg hhard, hstr]
          exact hardRef?_of_parseRef h
    · rename_i hnone
      rw [hnone, Option.bind_none, ite_self]
      split at h
      · cases h
        rfl
      · split at h
        · cases h
          rfl
        · cases h

theorem hardRefs_of_parseValues {tokens : List Json} {vs : List Value}
    (h : s.parseValues tokens = .ok vs) : hardRefs vs = targets tokens := by
  induction tokens generalizing vs with
  | nil =>
    cases h
    rfl
  | cons token rest ih =>
    obtain ⟨v, others, hv, hvs, rfl⟩ := parseValues_cons_ok h
    have htarget := hardRef?_of_parse (parse_of_parseStored hv)
    have hrest := ih hvs
    unfold hardRefs targets at hrest ⊢
    rw [List.filterMap_cons, List.filterMap_cons, htarget, hrest]

theorem hardRefs_of_parseEach {entries : List (String × Json)} {vs : List (String × Value)}
    (h : parseEach s.parseStored entries = .ok vs) :
    hardRefs (vs.map (·.2)) = targets (entries.map (·.2)) := by
  induction entries generalizing vs with
  | nil =>
    cases h
    rfl
  | cons first rest ih =>
    obtain ⟨key, token⟩ := first
    obtain ⟨v, others, hv, hvs, rfl⟩ := parseEach_cons_ok h
    have htarget := hardRef?_of_parse (parse_of_parseStored hv)
    have hrest := ih hvs
    unfold hardRefs targets at hrest ⊢
    rw [List.map_cons, List.map_cons, List.filterMap_cons, List.filterMap_cons, htarget, hrest]

theorem entries_of_parseEach {read : Json → Except CacheError Value} {tokens : Dict Json}
    {vs : List (String × Value)} (h : parseEach read tokens.entries = .ok vs) :
    (Dict.ofList vs).entries = vs := by
  apply Dict.entries_ofList
  have hsorted := List.pairwise_map.mpr tokens.sorted
  rw [← (of_parseEach h).1] at hsorted
  exact List.pairwise_map.mp hsorted

theorem clean_of_parseEach {entries : List (String × Json)} {vs : List (String × Value)}
    (h : parseEach s.parseStored entries = .ok vs) : (Content.model (Dict.ofList vs)).Clean := by
  intro k hget
  obtain ⟨token, htoken⟩ := (of_parseEach h).2 _ (Dict.mem_of_get?_ofList hget)
  exact parseStored_ne_delete htoken rfl

theorem reads_of_ofList {read : Json → Except CacheError Value}
    (hread : ∀ token v, read token = .ok v → s.parse token = .ok v)
    {entries : List (String × Json)} {fields : Fields}
    (h : (parseEach read entries).map Dict.ofList = .ok fields) :
    ∀ v ∈ fields.values, s.Reads v := by
  intro v hv
  cases hvs : parseEach read entries with
  | error err =>
    rw [hvs] at h
    cases h
  | ok vs =>
    rw [hvs] at h
    cases h
    obtain ⟨k, hget⟩ := Dict.get?_of_mem_values hv
    apply reads_of_parseEach hread hvs
    exact List.mem_map.mpr ⟨(k, v), Dict.mem_of_get?_ofList hget, rfl⟩

theorem reads_of_parseChanges {tokens : List (String × Json)} {changes : Fields}
    (h : s.parseChanges tokens = .ok changes) : ∀ v ∈ changes.values, s.Reads v :=
  reads_of_ofList (fun _ _ => id) h

theorem reads_of_parseFields {tokens : Dict Json} {fields : Fields}
    (h : s.parseFields tokens = .ok fields) : ∀ v ∈ fields.values, s.Reads v :=
  reads_of_ofList (fun _ _ => parse_of_parseStored) h

theorem clean_of_parseFields {tokens : Dict Json} {fields : Fields}
    (h : s.parseFields tokens = .ok fields) : (Content.model fields).Clean := by
  unfold parseFields at h
  cases hvs : parseEach s.parseStored tokens.entries with
  | error err =>
    rw [hvs] at h
    cases h
  | ok vs =>
    rw [hvs] at h
    cases h
    exact clean_of_parseEach hvs

end LiveResource.Store
