import LiveResource.Proofs.Filling
import LiveResource.Proofs.Resync

set_option autoImplicit false

/-!
# When a merge is refused

A batch is refused because of a resource that is loaded as something else, or because of a token that
cannot be stored. The check of a token comes before there are any replicas, and says of each what
reading it will say when the replicas of the batch are there. So nothing that is done after the
checks can fail, and what is refused has changed nothing.
-/

namespace LiveResource

namespace Store

variable {s s' : Store} {registry : Registry} {batch : Batch} {rid : String} {token : Json}
  {v : Value}

def LoadedAs (s : Store) (rid : String) (kind : Kind) : Prop :=
  ∃ e, s.get? rid = some e ∧ e.loaded = true ∧ e.kind = some kind

theorem checkKinds_ok_iff {listed : List (String × Kind)} : s.checkKinds listed = .ok () ↔
    ∀ rid kind cached, (rid, kind) ∈ listed → s.LoadedAs rid cached → cached = kind := by
  refine ⟨fun h rid kind cached hmem ⟨e, he, hloaded, hkind⟩ =>
    of_checkKinds h hmem he hloaded hkind, fun h => ?_⟩
  induction listed with
  | nil => rfl
  | cons first rest ih =>
    obtain ⟨rid, kind⟩ := first
    have hrest := ih fun x k cached hmem => h x k cached (List.mem_cons_of_mem _ hmem)
    rw [checkKinds]
    cases he : s.get? rid with
    | none => exact hrest
    | some e =>
      dsimp only
      cases hkind : e.kind with
      | none => exact hrest
      | some cached =>
        dsimp only
        cases hloaded : e.loaded with
        | false => exact hrest
        | true =>
          have hsame := h rid kind cached List.mem_cons_self ⟨e, he, hloaded, hkind⟩
          rw [hsame]
          simpa using hrest

theorem checkAll_ok_iff {tokens : List Json} :
    s.checkAll batch tokens = .ok () ↔ ∀ token ∈ tokens, s.check batch token = .ok () :=
  ⟨of_checkAll, checkAll_of_forall⟩

/-- Tokens are accepted in one order if and only if they are in every order. -/
theorem checkAll_ok_perm {tokens order : List Json} (h : order.Perm tokens) :
    s.checkAll batch order = .ok () ↔ s.checkAll batch tokens = .ok () := by
  rw [checkAll_ok_iff, checkAll_ok_iff]
  exact forall_congr' fun token => imp_congr_left h.mem_iff

/-- The errors that the orders of the tokens can lead to are those of the single tokens. -/
theorem checkAll_error_perm {tokens : List Json} {err : CacheError} :
    (∃ order : List Json, order.Perm tokens ∧ s.checkAll batch order = .error err) ↔
      ∃ token ∈ tokens, s.check batch token = .error err := by
  constructor
  · rintro ⟨order, hperm, herr⟩
    obtain ⟨token, hmem, htoken⟩ := exists_of_checkAll_error herr
    exact ⟨token, hperm.mem_iff.mp hmem, htoken⟩
  · rintro ⟨token, hmem, htoken⟩
    obtain ⟨before, after, rfl⟩ := List.append_of_mem hmem
    refine ⟨token :: (before ++ after), List.perm_middle.symm, ?_⟩
    rw [checkAll, htoken]

theorem validate_ok_iff : s.validate batch = .ok () ↔
    ∀ token ∈ batchTokens batch, s.check batch token = .ok () := checkAll_ok_iff

/-- When all replicas of a batch are made, what had one or is listed has one, and nothing else. -/
theorem hasReplica_createAll (h : s.Sturdy) :
    (s.createAll registry batch batch.incoming).1.hasReplica rid = true ↔
      batch.contains rid = true ∨ s.hasReplica rid = true := by
  obtain ⟨s', hrun, hgrown, hawaits⟩ :=
    createAll_spec registry batch batch.incoming batch.sorted_incoming s
  replace hgrown := hgrown.mono fun x => Batch.mem_rids_iff.mp
  rw [hrun]
  refine ⟨fun hthere => ?_, fun hrid => ?_⟩
  · obtain ⟨e', he', hreplica⟩ := hasReplica_iff.mp hthere
    cases he : s.get? rid with
    | none => exact .inl (hgrown.fresh he he').1
    | some e =>
      by_cases hlisted : batch.contains rid = true
      · exact .inl hlisted
      · obtain ⟨e₁, he₁, _, _, _, _, _, _, hsame⟩ := hgrown.kept he
        cases he'.symm.trans he₁
        exact .inr (hasReplica_iff.mpr ⟨e, he, hsame (.inr hlisted) ▸ hreplica⟩)
  · rcases hrid with hlisted | hreplica
    · cases hl : s.isLoaded rid with
      | true => exact hgrown.hasReplica (h.hasReplica hl)
      | false =>
        obtain ⟨_, _, _, hawaiting⟩ := hawaits rid (Batch.mem_rids_iff.mpr hlisted) hl
        exact hasReplica_of_awaits hawaiting
    · exact hgrown.hasReplica hreplica

/-- A token that can be read passes the check before all that it may refer to is there. -/
theorem check_of_parseStored (h : s'.parseStored token = .ok v)
    (hback : ∀ rid, s'.hasReplica rid = true →
      batch.contains rid = true ∨ s.hasReplica rid = true) : s.check batch token = .ok () := by
  have hparse := parse_of_parseStored h
  cases token with
  | arr items => cases hparse
  | obj members =>
    rw [check]
    rw [parse] at hparse
    cases hrid : Dict.lookup "rid" members with
    | some target =>
      simp only [hrid] at hparse ⊢
      cases hstr : target.str? with
      | none =>
        simp only [hstr] at hparse
        cases hparse
      | some rid =>
        simp only [hstr] at hparse ⊢
        cases hsoft : isSoft members with
        | true => rfl
        | false =>
          simp only [hsoft, Bool.false_eq_true, if_false] at hparse
          have href : v.hardRef? = some rid := by
            unfold parseRef at hparse
            split at hparse
            · cases hparse
            · split at hparse
              · cases hparse
                rfl
              · cases hparse
          have hknown := hback rid (hasReplica_of_parseRef hparse href)
          rw [Bool.false_or, if_pos (Bool.or_eq_true _ _ ▸ hknown)]
    | none =>
      simp only [hrid] at hparse ⊢
      cases hdata : Dict.lookup "data" members with
      | some data => rfl
      | none =>
        -- only a deletion is left, and a deletion is not stored
        simp only [hdata] at hparse
        split at hparse
        · cases hparse
          exact absurd rfl (parseStored_ne_delete h)
        · cases hparse
  | _ => rfl

/-- The check accepts exactly the tokens that can be stored when all replicas of the batch are
made. -/
theorem check_ok_iff (hregistry : registry.Quiet) (h : s.Sturdy) :
    s.check batch token = .ok () ↔
      ∃ v, (s.createAll registry batch batch.incoming).1.parseStored token = .ok v :=
  ⟨fun hcheck => parseStored_of_check hcheck (fun _ => (hasReplica_createAll h).mpr)
      (sturdy_createAll hregistry batch.incoming h),
    fun ⟨_, hparse⟩ => check_of_parseStored hparse fun _ => (hasReplica_createAll h).mp⟩

end Store

namespace Op

variable {w left : Work} {registry : Registry} {batch : Batch} {err : CacheError}

/-- What is refused is refused by one of the checks, and has changed nothing. -/
theorem of_addResources_error (hregistry : registry.Quiet)
    (hbare : registry.Bare ∨ batch.Disjoint) (h : w.store.Sturdy)
    (hrun : addResources registry batch w = .error err left) : left = w ∧
      (w.store.checkKinds batch.incoming = .error err ∨ w.store.validate batch = .error err) := by
  cases hkinds : w.store.checkKinds batch.incoming with
  | error err' =>
    have hlift : liftStore (·.checkKinds batch.incoming) w = .error err' w :=
      liftStore_of_error hkinds
    have hrun' : addResources registry batch w = .error err' w := by
      rw [addResources]
      dsimp only
      rw [bind_of_error _ hlift]
    cases hrun.symm.trans hrun'
    exact ⟨rfl, .inl rfl⟩
  | ok _ =>
    have hlift : liftStore (·.checkKinds batch.incoming) w = .ok () w := liftStore_of_ok hkinds
    cases hvalid : w.store.validate batch with
    | error err' =>
      have hlift' : liftStore (·.validate batch) w = .error err' w := liftStore_of_error hvalid
      have hrun' : addResources registry batch w = .error err' w := by
        rw [addResources]
        dsimp only
        rw [bind_of_ok _ hlift, bind_of_error _ hlift']
      cases hrun.symm.trans hrun'
      exact ⟨rfl, .inr rfl⟩
    | ok _ =>
      obtain ⟨_, _, hok, _⟩ := addResources_of_accepted hregistry hbare h hkinds hvalid
      cases hrun.symm.trans hok

/-- A merge is refused exactly for a resource that is loaded as something else, or for a token that
cannot be stored. -/
theorem addResources_error_iff (hregistry : registry.Quiet)
    (hbare : registry.Bare ∨ batch.Disjoint) (h : w.store.Sturdy) :
    (∃ err left, addResources registry batch w = .error err left) ↔
      (∃ rid kind cached, batch.Lists rid kind ∧ w.store.LoadedAs rid cached ∧ cached ≠ kind) ∨
      ∃ token ∈ Store.batchTokens batch, ∀ v,
        (w.store.createAll registry batch batch.incoming).1.parseStored token ≠ .ok v := by
  have hcheck (token : Json) : w.store.check batch token = .ok () ↔
      ∃ v, (w.store.createAll registry batch batch.incoming).1.parseStored token = .ok v :=
    Store.check_ok_iff hregistry h
  refine ⟨fun ⟨err, left, hrun⟩ => ?_, fun hreason => ?_⟩
  · obtain ⟨_, hwhy⟩ := of_addResources_error hregistry hbare h hrun
    by_contra hnone
    rw [not_or] at hnone
    obtain ⟨hkinds, htokens⟩ := hnone
    have hkindsOk : w.store.checkKinds batch.incoming = .ok () := by
      refine Store.checkKinds_ok_iff.mpr fun rid kind cached hmem hloaded => ?_
      by_contra hne
      exact hkinds ⟨rid, kind, cached, Batch.mem_incoming_iff.mp hmem, hloaded, hne⟩
    have hvalidOk : w.store.validate batch = .ok () := by
      refine Store.validate_ok_iff.mpr fun token hmem => (hcheck token).mpr ?_
      by_contra hunread
      exact htokens ⟨token, hmem, fun v hv => hunread ⟨v, hv⟩⟩
    rcases hwhy with hwhy | hwhy
    · cases hkindsOk.symm.trans hwhy
    · cases hvalidOk.symm.trans hwhy
  · rcases addResources_refused registry batch w with ⟨err, hrun, _⟩ | ⟨hkinds, hvalid⟩
    · exact ⟨err, w, hrun⟩
    · rcases hreason with ⟨rid, kind, cached, hlists, hloaded, hne⟩ | ⟨token, hmem, hunread⟩
      · exact absurd (Store.checkKinds_ok_iff.mp hkinds rid kind cached
          (Batch.mem_incoming_iff.mpr hlists) hloaded) hne
      · obtain ⟨v, hv⟩ := (hcheck token).mp (Store.validate_ok_iff.mp hvalid token hmem)
        exact absurd hv (hunread v)

end Op

end LiveResource
