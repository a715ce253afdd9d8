import LiveResource.Proofs.Snapshots
import Mathlib.Data.List.Nodup

set_option autoImplicit false

/-!
# What a merge does

A merge either refuses the batch and changes nothing, or it succeeds as a whole: once the checks
have passed no later step fails. Then every resource of the batch is loaded and shows its snapshot,
and the others keep what they had.
-/

namespace LiveResource

/-- Factories whose hooks do not edit what their replicas hold. -/
structure Registry.Quiet (r : Registry) : Prop where
  model : ∀ rid, (r.createModel rid).2.Quiet
  collection : ∀ rid, (r.createCollection rid).2.Quiet

theorem PatternMap.get?_empty {α : Type} (rid : String) : (empty : PatternMap α).get? rid = none := by
  unfold get? empty
  cases Text.tokens (Text.withoutQuery rid) <;> rfl

namespace Registry

variable {registry : Registry}

theorem quiet_empty : Registry.empty.Quiet := by
  refine ⟨fun rid => ?_, fun rid => ?_⟩
  · unfold createModel empty
    rw [PatternMap.get?_empty]
    exact Hooks.quiet_pass
  · unfold createCollection empty
    rw [PatternMap.get?_empty]
    exact Hooks.quiet_pass

theorem quiet_create (h : registry.Quiet) (batch : Batch) (rid : String) (kind : Kind) :
    (registry.create batch rid kind).2.Quiet := by
  cases kind with
  | model => exact h.model rid
  | collection => exact h.collection rid
  | error => exact Hooks.quiet_pass

theorem kind_create (registry : Registry) (batch : Batch) (rid : String) (kind : Kind) :
    (registry.create batch rid kind).1.kind = kind := by
  cases kind <;> rfl

end Registry

def Kind.rank : Kind → Nat
  | .model => 0
  | .collection => 1
  | .error => 2

namespace Batch

variable {batch : Batch} {rid : String} {kind : Kind}

def ListsLast (b : Batch) (rid : String) (kind : Kind) : Prop :=
  b.Lists rid kind ∧ ∀ kind', b.Lists rid kind' → kind'.rank ≤ kind.rank

theorem insertByKey_perm {α : Type} (e : String × α) (l : List (String × α)) :
    (insertByKey e l).Perm (e :: l) := by
  induction l with
  | nil => exact .refl _
  | cons e' rest ih =>
    unfold insertByKey
    split
    · exact (ih.cons e').trans (.swap e e' rest)
    · exact .refl _

theorem foldr_insertByKey_perm {α : Type} (l : List (String × α)) :
    (l.foldr insertByKey []).Perm l := by
  induction l with
  | nil => exact .refl _
  | cons e rest ih => exact (insertByKey_perm e _).trans (ih.cons e)

theorem mem_incoming_iff : (rid, kind) ∈ batch.incoming ↔ batch.Lists rid kind := by
  unfold incoming
  rw [(foldr_insertByKey_perm _).mem_iff]
  cases kind <;>
    simp [Lists, Dict.contains_iff, Dict.mem_keys_iff]

theorem contains_iff : batch.contains rid = true ↔ ∃ kind, batch.Lists rid kind := by
  unfold contains
  rw [Bool.or_eq_true, Bool.or_eq_true]
  constructor
  · rintro ((h | h) | h)
    · exact ⟨.model, h⟩
    · exact ⟨.collection, h⟩
    · exact ⟨.error, h⟩
  · rintro ⟨kind, h⟩
    cases kind with
    | model => exact .inl (.inl h)
    | collection => exact .inl (.inr h)
    | error => exact .inr h

theorem mem_rids_iff : rid ∈ batch.incoming.map (·.1) ↔ batch.contains rid = true := by
  rw [contains_iff, List.mem_map]
  constructor
  · rintro ⟨⟨rid', kind⟩, hmem, rfl⟩
    exact ⟨kind, mem_incoming_iff.mp hmem⟩
  · rintro ⟨kind, h⟩
    exact ⟨(rid, kind), mem_incoming_iff.mpr h, rfl⟩

theorem nodup_incoming (batch : Batch) : batch.incoming.Nodup := by
  have hsection (keys : List String) (kind : Kind) (h : keys.Nodup) :
      (keys.map (·, kind)).Nodup := h.map fun _ _ heq => (Prod.mk.inj heq).1
  have hapart {keys keys' : List String} {kind kind' : Kind} (hne : kind ≠ kind')
      (i : String × Kind) (hi : i ∈ keys.map (·, kind)) : ¬ i ∈ keys'.map (·, kind') := by
    intro hi'
    obtain ⟨_, _, rfl⟩ := List.mem_map.mp hi
    obtain ⟨_, _, heq⟩ := List.mem_map.mp hi'
    exact hne (Prod.mk.inj heq).2.symm
  unfold incoming
  rw [(foldr_insertByKey_perm _).nodup_iff, List.nodup_append, List.nodup_append]
  refine ⟨⟨hsection _ _ (Dict.nodup_keys _), hsection _ _ (Dict.nodup_keys _), ?_⟩,
    hsection _ _ (Dict.nodup_keys _), ?_⟩
  · rintro i hmodel _ hcollection rfl
    exact hapart (by simp) i hmodel hcollection
  · rintro i hmem _ herror rfl
    rcases List.mem_append.mp hmem with hmodel | hcollection
    · exact hapart (by simp) i hmodel herror
    · exact hapart (by simp) i hcollection herror

/-- Of several listings of a resource, those of an earlier section come first. -/
theorem sorted_incoming (batch : Batch) :
    batch.incoming.Pairwise fun i j => i.1 = j.1 → i.2.rank ≤ j.2.rank := by
  have hinsert (e : String × Kind) {l : List (String × Kind)}
      (hl : l.Pairwise fun i j => i.1 = j.1 → i.2.rank ≤ j.2.rank)
      (he : ∀ j ∈ l, e.1 = j.1 → e.2.rank ≤ j.2.rank) :
      (insertByKey e l).Pairwise fun i j => i.1 = j.1 → i.2.rank ≤ j.2.rank := by
    induction l with
    | nil => exact List.pairwise_singleton _ _
    | cons e' rest ih =>
      rw [List.pairwise_cons] at hl
      unfold insertByKey
      split
      · rename_i hlt
        refine List.pairwise_cons.mpr ⟨fun j hj heq => ?_, ih hl.2 fun j hj =>
          he j (List.mem_cons_of_mem _ hj)⟩
        rcases List.mem_cons.mp ((insertByKey_perm e rest).mem_iff.mp hj) with rfl | hj
        · rw [heq] at hlt
          exact absurd hlt (String.lt_irrefl _)
        · exact hl.1 j hj heq
      · exact List.pairwise_cons.mpr ⟨he, List.pairwise_cons.mpr hl⟩
  have hsection (keys : List String) (kind : Kind) :
      (keys.map (·, kind)).Pairwise fun i j => i.1 = j.1 → i.2.rank ≤ j.2.rank :=
    List.pairwise_map.mpr (List.pairwise_of_forall fun _ _ _ => Nat.le_refl _)
  have hlisted : (batch.models.keys.map (·, Kind.model) ++
      batch.collections.keys.map (·, Kind.collection) ++
      batch.errors.keys.map (·, Kind.error)).Pairwise
        fun i j => i.1 = j.1 → i.2.rank ≤ j.2.rank := by
    simp only [List.pairwise_append, hsection, true_and, List.mem_append, List.mem_map]
    refine ⟨?_, ?_⟩
    · rintro _ ⟨x, _, rfl⟩ _ ⟨y, _, rfl⟩ _
      exact Nat.zero_le _
    · rintro _ (⟨x, _, rfl⟩ | ⟨x, _, rfl⟩) _ ⟨y, _, rfl⟩ _
      · exact Nat.zero_le _
      · exact Nat.le_succ _
  unfold incoming
  generalize (batch.models.keys.map (·, Kind.model) ++
    batch.collections.keys.map (·, Kind.collection) ++
      batch.errors.keys.map (·, Kind.error)) = listed at hlisted
  induction listed with
  | nil => exact List.Pairwise.nil
  | cons e rest ih =>
    rw [List.pairwise_cons] at hlisted
    exact hinsert e (ih hlisted.2) fun j hj =>
      hlisted.1 j ((foldr_insertByKey_perm rest).mem_iff.mp hj)

theorem Disjoint.nodup (h : batch.Disjoint) : (batch.incoming.map (·.1)).Nodup := by
  refine List.Nodup.map_on (fun i hi j hj heq => Prod.ext heq ?_) (nodup_incoming batch)
  exact h i.1 i.2 j.2 (mem_incoming_iff.mp hi) (heq ▸ mem_incoming_iff.mp hj)

end Batch

namespace Store

variable {s s' : Store} {batch : Batch} {rid : String} {kind : Kind} {err : CacheError}

theorem of_checkKinds {listed : List (String × Kind)} (h : s.checkKinds listed = .ok ())
    (hmem : (rid, kind) ∈ listed) {e : Entry} {cached : Kind} (he : s.get? rid = some e)
    (hloaded : e.loaded = true) (hcached : e.kind = some cached) : cached = kind := by
  induction listed with
  | nil => cases hmem
  | cons first rest ih =>
    obtain ⟨rid', kind'⟩ := first
    have hrest : s.checkKinds rest = .ok () := by
      rw [checkKinds] at h
      split at h
      · split at h
        · split at h
          · cases h
          · exact h
        · exact h
      · exact h
    rcases List.mem_cons.mp hmem with heq | hmem
    · cases heq
      simp only [checkKinds, he, hcached, hloaded, Bool.true_and] at h
      split at h
      · cases h
      · rename_i hsame
        simpa using hsame
    · exact ih hrest hmem

theorem checkKinds_error {listed : List (String × Kind)} (h : s.checkKinds listed = .error err) :
    ∃ rid cached kind, err = .kindMismatch rid cached kind := by
  induction listed with
  | nil => cases h
  | cons first rest ih =>
    obtain ⟨rid, kind⟩ := first
    rw [checkKinds] at h
    split at h
    · split at h
      · split at h
        · cases h
          exact ⟨_, _, _, rfl⟩
        · exact ih h
      · exact ih h
    · exact ih h

theorem of_checkAll {tokens : List Json} (h : s.checkAll batch tokens = .ok ()) :
    ∀ token ∈ tokens, s.check batch token = .ok () := by
  induction tokens with
  | nil => exact fun token hmem => (by cases hmem)
  | cons first rest ih =>
    cases hfirst : s.check batch first with
    | error err => simp [checkAll, hfirst] at h
    | ok _ =>
      simp only [checkAll, hfirst] at h
      intro token hmem
      rcases List.mem_cons.mp hmem with rfl | hmem
      · exact hfirst
      · exact ih h token hmem

theorem check_error {token : Json} (h : s.check batch token = .error err) :
    (∃ token, err = .invalidValue token) ∨ ∃ rid, err = .notFound rid := by
  cases token with
  | arr items =>
    cases h
    exact .inl ⟨_, rfl⟩
  | obj members =>
    rw [check] at h
    split at h
    · split at h
      · cases h
        exact .inl ⟨_, rfl⟩
      · split at h
        · cases h
        · cases h
          exact .inr ⟨_, rfl⟩
    · split at h
      · cases h
      · cases h
        exact .inl ⟨_, rfl⟩
  | _ => cases h

theorem exists_of_checkAll_error {tokens : List Json} (h : s.checkAll batch tokens = .error err) :
    ∃ token ∈ tokens, s.check batch token = .error err := by
  induction tokens with
  | nil => cases h
  | cons first rest ih =>
    cases hfirst : s.check batch first with
    | error err' =>
      simp only [checkAll, hfirst, Except.error.injEq] at h
      exact ⟨first, List.mem_cons_self, h ▸ hfirst⟩
    | ok _ =>
      simp only [checkAll, hfirst] at h
      obtain ⟨token, hmem, htoken⟩ := ih h
      exact ⟨token, List.mem_cons_of_mem _ hmem, htoken⟩

theorem checkAll_error {tokens : List Json} (h : s.checkAll batch tokens = .error err) :
    (∃ token, err = .invalidValue token) ∨ ∃ rid, err = .notFound rid := by
  obtain ⟨_, _, htoken⟩ := exists_of_checkAll_error h
  exact check_error htoken

/-- After the checks every listed snapshot can be read, as soon as the resources of the batch have
    replicas. -/
theorem snapshot_of_validate (h : s.validate batch = .ok ()) (hlists : batch.Lists rid kind)
    (hthere : ∀ rid, batch.contains rid = true ∨ s.hasReplica rid = true →
      s'.hasReplica rid = true) (hsturdy : s'.Sturdy) :
    ∃ content, s'.snapshot batch rid kind = .ok content := by
  have hparse : ∀ token ∈ batchTokens batch, ∃ v, s'.parseStored token = .ok v := fun token hmem =>
    parseStored_of_check (of_checkAll h token hmem) hthere hsturdy
  cases kind with
  | model =>
    obtain ⟨tokens, htokens⟩ := Dict.contains_iff.mp hlists
    have hentries : ∀ e ∈ tokens.entries, ∃ v, s'.parseStored e.2 = .ok v := by
      intro e he
      apply hparse
      refine List.mem_append_left _ (List.mem_flatMap.mpr ⟨tokens, ?_, ?_⟩)
      · exact Dict.mem_values_of_get? htokens
      · exact List.mem_map_of_mem he
    obtain ⟨vs, hvs⟩ := parseEach_ok hentries
    exact ⟨.model (Dict.ofList vs), by simp [snapshot, parseFields, htokens, hvs, Except.map]⟩
  | collection =>
    obtain ⟨tokens, htokens⟩ := Dict.contains_iff.mp hlists
    have hitems : ∀ token ∈ tokens, ∃ v, s'.parseStored token = .ok v := by
      intro token hmem
      apply hparse
      refine List.mem_append_right _ (List.mem_flatten.mpr ⟨tokens, ?_, hmem⟩)
      exact Dict.mem_values_of_get? htokens
    obtain ⟨vs, hvs⟩ := parseValues_ok hitems
    exact ⟨.collection vs, by simp [snapshot, htokens, hvs, Except.map]⟩
  | error => exact ⟨_, rfl⟩

end Store

namespace Store

variable {s s' s'' : Store} {registry : Registry} {batch : Batch} {rid x : String} {kind : Kind}
  {listed listed' : String → Prop}

theorem obtain_of_get? {e : Entry} (h : s.get? rid = some e) : s.obtain rid = (e, s) := by
  simp only [Store.obtain, h]

theorem obtain_of_none (h : s.get? rid = none) : s.obtain rid = (.fresh s.ledger.next,
    { s with ledger := { s.ledger with next := s.ledger.next + 1 } }.put rid
      (.fresh s.ledger.next)) := by
  simp only [Store.obtain, h, Ledger.issue]

/-- A store in which some resources have been given an entry or a replica, but no contents yet. -/
structure Grown (listed : String → Prop) (s s' : Store) : Prop where
  kept : ∀ {x e}, s.get? x = some e → ∃ e', s'.get? x = some e' ∧ e'.direct = e.direct ∧
    e'.pending = e.pending ∧ e'.subscribing = e.subscribing ∧ e'.stale = e.stale ∧
    e'.loaded = e.loaded ∧ (e.replica.isSome = true → e'.replica.isSome = true) ∧
    (e.loaded = true ∨ ¬ listed x → e' = e)
  fresh : ∀ {x e'}, s.get? x = none → s'.get? x = some e' →
    listed x ∧ e'.loaded = false ∧ e'.direct = 0 ∧ e'.subscribing = none ∧ e'.stale = false
  ledger : s'.ledger.settled = s.ledger.settled

namespace Grown

theorem refl (s : Store) : s.Grown listed s := by
  refine ⟨fun he => ⟨_, he, rfl, rfl, rfl, rfl, rfl, id, fun _ => rfl⟩, fun hnone he => ?_, rfl⟩
  rw [hnone] at he
  cases he

theorem trans (h : s.Grown listed s') (h' : s'.Grown listed s'') : s.Grown listed s'' := by
  refine ⟨fun {x e} he => ?_, fun {x e''} hnone he'' => ?_, h'.ledger.trans h.ledger⟩
  · obtain ⟨e', he', hdirect, hpending, hsubscribing, hstale, hloaded, hreplica, hsame⟩ := h.kept he
    obtain ⟨e'', he'', hdirect', hpending', hsubscribing', hstale', hloaded', hreplica', hsame'⟩ :=
      h'.kept he'
    refine ⟨e'', he'', hdirect'.trans hdirect, hpending'.trans hpending,
      hsubscribing'.trans hsubscribing, hstale'.trans hstale, hloaded'.trans hloaded,
      fun hr => hreplica' (hreplica hr), fun hcond => ?_⟩
    have heq := hsame hcond
    rw [← heq]
    exact hsame' (hcond.imp_left fun hl => hloaded.trans hl)
  · cases he' : s'.get? x with
    | none => exact h'.fresh he' he''
    | some e' =>
      obtain ⟨hlisted, hloaded, hdirect, hsubscribing, hstale⟩ := h.fresh hnone he'
      obtain ⟨e₂, he₂, hdirect', _, hsubscribing', hstale', hloaded', _, _⟩ := h'.kept he'
      rw [he''] at he₂
      cases he₂
      exact ⟨hlisted, hloaded'.trans hloaded, hdirect'.trans hdirect,
        hsubscribing'.trans hsubscribing, hstale'.trans hstale⟩

theorem mono (h : s.Grown listed s') (himp : ∀ x, listed x → listed' x) : s.Grown listed' s' := by
  refine ⟨fun {x e} he => ?_, fun hnone he => ?_, h.ledger⟩
  · obtain ⟨e', he', hdirect, hpending, hsubscribing, hstale, hloaded, hreplica, hsame⟩ := h.kept he
    exact ⟨e', he', hdirect, hpending, hsubscribing, hstale, hloaded, hreplica,
      fun hcond => hsame (hcond.imp_right fun hnot hx => hnot (himp x hx))⟩
  · obtain ⟨hlisted, hrest⟩ := h.fresh hnone he
    exact ⟨himp _ hlisted, hrest⟩

theorem isLoaded (h : s.Grown listed s') (x : String) : s'.isLoaded x = s.isLoaded x := by
  unfold Store.isLoaded
  cases he : s.get? x with
  | some e =>
    obtain ⟨e', he', _, _, _, _, hloaded, _⟩ := h.kept he
    simp only [he', hloaded]
  | none =>
    cases he' : s'.get? x with
    | none => rfl
    | some e' => exact (h.fresh he he').2.1

theorem loaded? (h : s.Grown listed s') {r : Replica} (hx : s.loaded? x = some r) :
    s'.loaded? x = some r := by
  obtain ⟨e, he, hl, hr⟩ := loaded?_eq_some hx
  obtain ⟨e', he', _, _, _, _, _, _, hsame⟩ := h.kept he
  cases hsame (.inl hl)
  exact loaded?_of_get? he' hl hr

theorem hasReplica (h : s.Grown listed s') (hx : s.hasReplica x = true) :
    s'.hasReplica x = true := by
  obtain ⟨e, he, hreplica⟩ := hasReplica_iff.mp hx
  obtain ⟨e', he', _, _, _, _, _, hreplica', _⟩ := h.kept he
  exact hasReplica_iff.mpr ⟨e', he', hreplica' hreplica⟩

theorem links (h : s.Grown listed s') (x : String) : s'.links x = s.links x := by
  unfold Store.links
  cases he : s.get? x with
  | some e =>
    obtain ⟨e', he', _, _, _, _, hloaded, _, hsame⟩ := h.kept he
    simp only [he']
    cases hl : e.loaded with
    | true => rw [hsame (.inl hl)]
    | false => rw [Entry.links_of_not_loaded hl, Entry.links_of_not_loaded (hloaded.trans hl)]
  | none =>
    cases he' : s'.get? x with
    | none => rfl
    | some e' => exact Entry.links_of_not_loaded (h.fresh he he').2.1

end Grown

theorem grown_ensure (s : Store) (rid : String) :
    s.Grown (· = rid) (s.ensure rid) ∧ ∃ e, (s.ensure rid).get? rid = some e := by
  unfold ensure
  cases he : s.get? rid with
  | some e =>
    rw [obtain_of_get? he]
    exact ⟨.refl s, e, he⟩
  | none =>
    rw [obtain_of_none he]
    have hget (x : String) : ({ s with ledger := { s.ledger with next := s.ledger.next + 1 } }.put
        rid (.fresh s.ledger.next)).get? x =
          if rid = x then some (.fresh s.ledger.next) else s.get? x := get?_put _ _ _ _
    refine ⟨⟨fun {x e} hx => ?_, fun {x e'} hnone hx => ?_, rfl⟩, _, by rw [hget, if_pos rfl]⟩
    · have hne : rid ≠ x := fun heq => by
        rw [← heq, he] at hx
        cases hx
      exact ⟨e, by rw [hget, if_neg hne, hx], rfl, rfl, rfl, rfl, rfl, id, fun _ => rfl⟩
    · rw [hget] at hx
      split at hx
      · rename_i heq
        cases hx
        exact ⟨heq.symm, rfl, rfl, rfl, rfl⟩
      · rw [hnone] at hx
        cases hx

theorem get?_create {e : Entry} (he : s.get? rid = some e) (x : String) :
    (s.create registry batch rid kind).get? x = if rid = x then some { e with
      kind := some kind
      replica := some ⟨s.nextReplica, (registry.create batch rid kind).1,
        (registry.create batch rid kind).2, 0⟩ } else s.get? x := by
  have hget : ({ s with nextReplica := s.nextReplica + 1 } : Store).get? rid = some e := he
  unfold create
  dsimp only
  rw [modify_eq_put hget, get?_put]
  rfl

theorem grown_create {e : Entry} (he : s.get? rid = some e) (hunloaded : e.loaded = false) :
    s.Grown (· = rid) (s.create registry batch rid kind) := by
  have hget := @get?_create s registry batch rid kind e he
  refine ⟨fun {x ex} hx => ?_, fun {x e'} hnone hx => ?_, rfl⟩
  · have hgot := hget x
    by_cases heq : rid = x
    · subst heq
      rw [he] at hx
      cases hx
      rw [if_pos rfl] at hgot
      refine ⟨_, hgot, rfl, rfl, rfl, rfl, rfl, fun _ => rfl, fun hcond => ?_⟩
      rcases hcond with hl | hnot
      · rw [hunloaded] at hl
        cases hl
      · exact absurd rfl hnot
    · rw [if_neg heq, hx] at hgot
      exact ⟨ex, hgot, rfl, rfl, rfl, rfl, rfl, id, fun _ => rfl⟩
  · rw [hget] at hx
    split at hx
    · rename_i heq
      rw [← heq, he] at hnone
      cases hnone
    · rw [hnone] at hx
      cases hx

theorem sound_created (hregistry : registry.Quiet) {e : Entry} (hunloaded : e.loaded = false)
    (number : Nat) : ({ e with
      kind := some kind
      replica := some ⟨number, (registry.create batch rid kind).1,
        (registry.create batch rid kind).2, 0⟩ } : Entry).Sound := by
  refine ⟨?_, fun _ => rfl, fun r hr => ?_, fun r hr hl => ?_⟩
  · change some kind = some (registry.create batch rid kind).1.kind
    rw [Registry.kind_create]
  · cases hr
    exact Registry.quiet_create hregistry batch rid kind
  · change e.loaded = true at hl
    rw [hunloaded] at hl
    cases hl

def Awaits (s : Store) (registry : Registry) (batch : Batch) (rid : String) (kind : Kind) : Prop :=
  ∃ e r, s.get? rid = some e ∧ e.loaded = false ∧ e.replica = some r ∧
    r.content = (registry.create batch rid kind).1

theorem awaits_create {e : Entry} (he : s.get? rid = some e) (hunloaded : e.loaded = false) :
    (s.create registry batch rid kind).Awaits registry batch rid kind := by
  have hget := @get?_create s registry batch rid kind e he rid
  rw [if_pos rfl] at hget
  exact ⟨_, _, hget, hunloaded, rfl, rfl⟩

/-- What holds of a store and is kept by new entries and new replicas holds when all are made. -/
theorem createAll_induction {P : Store → Prop} (hensure : ∀ s rid, P s → P (s.ensure rid))
    (hcreate : ∀ s rid kind e, P s → s.get? rid = some e → e.loaded = false →
      P (s.create registry batch rid kind)) (incoming : List (String × Kind)) (h : P s) :
    P (s.createAll registry batch incoming).1 := by
  induction incoming generalizing s with
  | nil => exact h
  | cons first rest ih =>
    obtain ⟨rid, kind⟩ := first
    obtain ⟨_, e, he⟩ := grown_ensure s rid
    rw [createAll]
    dsimp only
    split
    · exact ih (hensure s rid h)
    · rename_i hunloaded
      refine ih (hcreate _ rid kind e (hensure s rid h) he ?_)
      simpa only [isLoaded, he, Bool.not_eq_true] using hunloaded

theorem createAll_kept (hregistry : registry.Quiet) {P : Store → Prop}
    (hentries : ∀ {s s' : Store}, P s → s'.entries = s.entries → P s')
    (hfresh : ∀ {s : Store} {rid : String} (ticket : Ticket), P s → s.get? rid = none →
      P (s.put rid (.fresh ticket)))
    (hput : ∀ {s : Store} {rid : String} {e e' : Entry}, P s → s.get? rid = some e → e'.Sound →
      e'.replica.isSome = true → e'.indirect = e.indirect → e'.links = e.links →
        P (s.put rid e')) (incoming : List (String × Kind)) (h : P s) :
    P (s.createAll registry batch incoming).1 := by
  refine createAll_induction (fun s rid hs => ?_) (fun s rid kind e hs he hunloaded => ?_)
    incoming h
  · unfold ensure
    cases he : s.get? rid with
    | some e => rwa [obtain_of_get? he]
    | none =>
      rw [obtain_of_none he]
      have hnext : P { s with ledger := { s.ledger with next := s.ledger.next + 1 } } :=
        hentries hs rfl
      exact hfresh _ hnext he
  · have hnext : P { s with nextReplica := s.nextReplica + 1 } := hentries hs rfl
    have hget : ({ s with nextReplica := s.nextReplica + 1 } : Store).get? rid = some e := he
    unfold create
    dsimp only
    rw [modify_eq_put hget]
    refine hput hnext hget (sound_created hregistry hunloaded _) rfl rfl ?_
    rw [Entry.links_of_not_loaded hunloaded]
    exact Entry.links_of_not_loaded hunloaded

theorem sturdy_createAll (hregistry : registry.Quiet) (incoming : List (String × Kind))
    (h : s.Sturdy) : (s.createAll registry batch incoming).1.Sturdy :=
  createAll_kept hregistry (fun hs => hs.of_entries)
    (fun ticket hs hnone => hs.put_fresh hnone ticket)
    (fun hs he hsound hreplica hindirect hlinks =>
      hs.put he hsound (fun _ => hreplica) hindirect hlinks) incoming h

theorem balanced_createAll {extra : String → Nat} (hregistry : registry.Quiet)
    (incoming : List (String × Kind)) (h : s.Balanced extra) :
    (s.createAll registry batch incoming).1.Balanced extra :=
  createAll_kept hregistry (fun hs => hs.of_entries)
    (fun ticket hs hnone => hs.put_fresh hnone ticket)
    (fun hs he hsound hreplica hindirect hlinks =>
      hs.put he hsound (fun _ => hreplica) hindirect hlinks) incoming h

/-- Every listed resource that is not loaded gets a new replica. The last one of several listings
    counts. -/
theorem createAll_spec (registry : Registry) (batch : Batch) (incoming : List (String × Kind))
    (hsorted : incoming.Pairwise fun i j => i.1 = j.1 → i.2.rank ≤ j.2.rank) (s : Store) :
    ∃ s', s.createAll registry batch incoming =
        (s', (incoming.filter fun i => !s.isLoaded i.1).map (·.1),
          incoming.filter fun i => s.isLoaded i.1) ∧
      s.Grown (· ∈ incoming.map (·.1)) s' ∧
      ∀ rid ∈ incoming.map (·.1), s.isLoaded rid = false →
        ∃ kind, (rid, kind) ∈ incoming ∧
          (∀ kind', (rid, kind') ∈ incoming → kind'.rank ≤ kind.rank) ∧
          s'.Awaits registry batch rid kind := by
  induction incoming generalizing s with
  | nil => exact ⟨s, rfl, .refl s, fun rid hmem => (by cases hmem)⟩
  | cons first rest ih =>
    obtain ⟨rid, kind⟩ := first
    rw [List.pairwise_cons] at hsorted
    replace ih := ih hsorted.2
    have hlast {x : String} {kind' : Kind} (hmem : (x, kind') ∈ rest)
        (hrest : ∀ k, (x, k) ∈ rest → k.rank ≤ kind'.rank) (k : Kind)
        (hk : (x, k) ∈ (rid, kind) :: rest) : k.rank ≤ kind'.rank := by
      rcases List.mem_cons.mp hk with heq | hk
      · cases heq
        exact hsorted.1 _ hmem rfl
      · exact hrest k hk
    obtain ⟨hensure, e, he⟩ := grown_ensure s rid
    have hloaded : (s.ensure rid).isLoaded rid = s.isLoaded rid := hensure.isLoaded rid
    have hfirst : ∀ x, x = rid → x ∈ ((rid, kind) :: rest).map (·.1) := fun x hx =>
      hx ▸ List.mem_cons_self
    have hrest : ∀ x, x ∈ rest.map (·.1) → x ∈ ((rid, kind) :: rest).map (·.1) := fun x hx =>
      List.mem_cons_of_mem _ hx
    rw [createAll]
    cases hl : s.isLoaded rid with
    | true =>
      obtain ⟨s', hrun, hgrown, hawaits⟩ := ih (s.ensure rid)
      simp only [hensure.isLoaded] at hrun hawaits
      refine ⟨s', ?_, (hensure.mono hfirst).trans (hgrown.mono hrest), fun x hx hunloaded => ?_⟩
      · simp only [hloaded, hl, if_true, hrun]
        simp [hl]
      · rcases List.mem_cons.mp hx with rfl | hx
        · rw [hl] at hunloaded
          cases hunloaded
        · obtain ⟨kind', hmem, hrank, hawaiting⟩ := hawaits x hx hunloaded
          exact ⟨kind', List.mem_cons_of_mem _ hmem, hlast hmem hrank, hawaiting⟩
    | false =>
      have hunloaded : e.loaded = false := by
        have hfalse := hloaded.trans hl
        simpa only [isLoaded, he] using hfalse
      have hboth : s.Grown (· = rid) ((s.ensure rid).create registry batch rid kind) :=
        hensure.trans (grown_create he hunloaded)
      obtain ⟨s', hrun, hgrown, hawaits⟩ := ih ((s.ensure rid).create registry batch rid kind)
      simp only [hboth.isLoaded] at hrun hawaits
      refine ⟨s', ?_, (hboth.mono hfirst).trans (hgrown.mono hrest), fun x hx hunloaded' => ?_⟩
      · simp only [hloaded, hl, Bool.false_eq_true, if_false, hrun]
        simp [hl]
      · by_cases hagain : x ∈ rest.map (·.1)
        · obtain ⟨kind', hmem, hrank, hawaiting⟩ := hawaits x hagain hunloaded'
          exact ⟨kind', List.mem_cons_of_mem _ hmem, hlast hmem hrank, hawaiting⟩
        · obtain rfl := (List.mem_cons.mp hx).resolve_right hagain
          obtain ⟨e₁, r₁, he₁, hawaiting⟩ :=
            @awaits_create (s.ensure x) registry batch x kind e he hunloaded
          obtain ⟨e₂, he₂, _, _, _, _, _, _, hsame⟩ := hgrown.kept he₁
          rw [hsame (.inr hagain)] at he₂
          refine ⟨kind, List.mem_cons_self, fun k hk => ?_, e₁, r₁, he₂, hawaiting⟩
          rcases List.mem_cons.mp hk with heq | hk
          · cases heq
            exact Nat.le_refl _
          · exact absurd (List.mem_map.mpr ⟨_, hk, rfl⟩) hagain

end Store

namespace Work.Alters

variable {touched : String → Prop} {w w' : Work} {registry : Registry}
  {batch : Batch} {rid : String} {kind : Kind}

theorem content? (h : w.Alters touched w') (hrid : ¬ touched rid) :
    w'.store.content? rid = w.store.content? rid := by
  unfold Store.content?
  cases he : w.store.get? rid with
  | none =>
    cases he' : w'.store.get? rid with
    | none => rfl
    | some e' =>
      obtain ⟨e, hsome⟩ := h.back he'
      rw [he] at hsome
      cases hsome
  | some e =>
    obtain ⟨e', he', _, hframe⟩ := h.kept he
    obtain ⟨hreplica, _⟩ := hframe.resolve_left hrid
    simp only [he', Option.bind_some, hreplica]

theorem awaits (h : w.Alters touched w') (hrid : ¬ touched rid)
    (hawaits : w.store.Awaits registry batch rid kind) :
    w'.store.Awaits registry batch rid kind := by
  obtain ⟨e, r, he, hunloaded, hr, hcontent⟩ := hawaits
  obtain ⟨e', he', _, hframe⟩ := h.kept he
  obtain ⟨hreplica, hloaded⟩ := hframe.resolve_left hrid
  exact ⟨e', r, he', hloaded.trans hunloaded, hreplica.trans hr, hcontent⟩

end Work.Alters

/-- A resource shows its snapshot. -/
def Store.Shows (s : Store) (batch : Batch) (rid : String) (kind : Kind) : Prop :=
  ∃ shown content, s.content? rid = some shown ∧ s.snapshot batch rid kind = .ok content ∧
    (shown == content) = true

theorem Work.Alters.shows {touched : String → Prop} {w w' : Work} {batch : Batch} {rid : String}
    {kind : Kind} (h : w.Alters touched w') (hrid : ¬ touched rid)
    (hshows : w.store.Shows batch rid kind) : w'.store.Shows batch rid kind := by
  obtain ⟨shown, content, hcontent, hsnapshot, hsame⟩ := hshows
  exact ⟨shown, content, (h.content? hrid).trans hcontent,
    (Store.snapshot_congr h.parseRef batch rid kind).trans hsnapshot, hsame⟩

namespace Op

variable {w : Work} {registry : Registry} {batch : Batch}

theorem initAll_spec {created : List String} (h : w.store.Sturdy) (hdisjoint : batch.Disjoint)
    (hnodup : created.Nodup)
    (hcreated : ∀ rid ∈ created, ∃ kind content, batch.Lists rid kind ∧
      w.store.Awaits registry batch rid kind ∧ w.store.snapshot batch rid kind = .ok content) :
    ∃ w', created.forM (initResource batch) w = .ok () w' ∧ w.Evolves (· ∈ created) w' ∧
      ∀ rid ∈ created, w'.store.isLoaded rid = true ∧
        ∃ kind, batch.Lists rid kind ∧ w'.store.Shows batch rid kind := by
  induction created generalizing w with
  | nil => exact ⟨w, rfl, .refl h, fun rid hmem => (by cases hmem)⟩
  | cons rid rest ih =>
    rw [List.nodup_cons] at hnodup
    obtain ⟨kind, content, hlists, ⟨e, r, he, hunloaded, hr, hcontent⟩, hsnapshot⟩ :=
      hcreated rid List.mem_cons_self
    have hkind : r.content.kind = kind := hcontent ▸ Registry.kind_create registry batch rid kind
    have hfault (heq : kind = .error) :
        r.content = .error ((batch.errors.get? rid).getD default) := by
      rw [hcontent, heq]
      rfl
    obtain ⟨w₁, hrun₁, hevolves₁, _, hloaded₁, hcontent₁⟩ :=
      initResource_spec h (Batch.disjoint_iff.mp hdisjoint rid) hlists he hunloaded hr hkind hfault
        hsnapshot
    have hother {x : String} (hx : x ∈ rest) : ¬ x = rid := fun heq => hnodup.1 (heq ▸ hx)
    obtain ⟨w₂, hrun₂, hevolves₂, hdone₂⟩ := ih hevolves₁.sturdy hnodup.2 fun x hx => by
      obtain ⟨kind', content', hlists', hawaits', hsnapshot'⟩ :=
        hcreated x (List.mem_cons_of_mem _ hx)
      exact ⟨kind', content', hlists', hevolves₁.awaits (hother hx) hawaits',
        (Store.snapshot_congr hevolves₁.parseRef batch x kind').trans hsnapshot'⟩
    have hshows₁ : w₁.store.Shows batch rid kind :=
      ⟨content, content, hcontent₁,
        (Store.snapshot_congr hevolves₁.parseRef batch rid kind).trans hsnapshot, BEq.rfl⟩
    refine ⟨w₂, ?_, (hevolves₁.mono fun x hx => hx ▸ List.mem_cons_self).trans
      (hevolves₂.mono fun x hx => List.mem_cons_of_mem _ hx), fun x hx => ?_⟩
    · change (initResource batch rid >>= fun _ => rest.forM (initResource batch)) w = _
      rw [bind_of_ok _ hrun₁, hrun₂]
    · rcases List.mem_cons.mp hx with rfl | hx
      · exact ⟨hevolves₂.isLoaded hloaded₁, kind, hlists, hevolves₂.shows hnodup.1 hshows₁⟩
      · exact hdone₂ x hx

theorem syncAll_spec {synced : List (String × Kind)} (h : w.store.Sturdy)
    (hnodup : (synced.map (·.1)).Nodup)
    (hsynced : ∀ rid kind, (rid, kind) ∈ synced → ∃ old content,
      w.store.isLoaded rid = true ∧ w.store.content? rid = some old ∧ old.kind = kind ∧
        w.store.snapshot batch rid kind = .ok content) :
    ∃ w', (synced.forM fun (rid, kind) => synchronize batch rid kind) w = .ok () w' ∧
      w.Evolves (· ∈ synced.map (·.1)) w' ∧
      ∀ rid kind, (rid, kind) ∈ synced → w'.store.Shows batch rid kind := by
  induction synced generalizing w with
  | nil => exact ⟨w, rfl, .refl h, fun rid kind hmem => (by cases hmem)⟩
  | cons first rest ih =>
    obtain ⟨rid, kind⟩ := first
    rw [List.map_cons, List.nodup_cons] at hnodup
    obtain ⟨old, content, hloaded, hcontent, hkind, hsnapshot⟩ :=
      hsynced rid kind List.mem_cons_self
    obtain ⟨w₁, shown, hrun₁, hevolves₁, hshown, hsame⟩ :=
      synchronize_spec h hloaded hcontent hkind hsnapshot
    have hother {x : String} {k : Kind} (hx : (x, k) ∈ rest) : ¬ x = rid := fun heq =>
      hnodup.1 (List.mem_map.mpr ⟨(x, k), hx, heq⟩)
    obtain ⟨w₂, hrun₂, hevolves₂, hdone₂⟩ := ih hevolves₁.sturdy hnodup.2 fun x k hx => by
      obtain ⟨old', content', hloaded', hcontent', hkind', hsnapshot'⟩ :=
        hsynced x k (List.mem_cons_of_mem _ hx)
      exact ⟨old', content', hevolves₁.isLoaded hloaded',
        (hevolves₁.content? (hother hx)).trans hcontent', hkind',
        (Store.snapshot_congr hevolves₁.parseRef batch x k).trans hsnapshot'⟩
    have hshows₁ : w₁.store.Shows batch rid kind :=
      ⟨shown, content, hshown,
        (Store.snapshot_congr hevolves₁.parseRef batch rid kind).trans hsnapshot, hsame⟩
    refine ⟨w₂, ?_, (hevolves₁.mono fun x hx => hx ▸ List.mem_cons_self).trans
      (hevolves₂.mono fun x hx => List.mem_cons_of_mem _ hx), fun x k hx => ?_⟩
    · change (synchronize batch rid kind >>= fun _ =>
        rest.forM fun (rid, kind) => synchronize batch rid kind) w = _
      rw [bind_of_ok _ hrun₁, hrun₂]
    · rcases List.mem_cons.mp hx with heq | hx
      · cases heq
        exact hevolves₂.shows hnodup.1 hshows₁
      · exact hdone₂ x k hx

end Op

/-- A batch has been merged. The resources that are listed are loaded, the others keep their
contents, and nothing loses a subscription. The surplus is counted besides the references that the
replicas hold. -/
structure Work.Merged (surplus : List String) (batch : Batch) (created : List String)
    (w w' : Work) : Prop where
  sturdy : w'.store.Sturdy
  counts : ∀ {extra}, w.store.Balanced extra → w'.store.Balanced fun t => extra t + surplus.count t
  kept : ∀ {x e}, w.store.get? x = some e → ∃ e', w'.store.get? x = some e' ∧
    e'.direct = e.direct ∧ e'.pending = e.pending ∧ e'.subscribing = e.subscribing ∧
    e'.stale = e.stale ∧ (e.loaded = true → e'.loaded = true ∧ e'.kind = e.kind ∧
      e'.replica.map (·.id) = e.replica.map (·.id)) ∧
    (batch.contains x = true ∨ e'.replica = e.replica ∧ e'.loaded = e.loaded)
  fresh : ∀ {x e'}, w.store.get? x = none → w'.store.get? x = some e' →
    batch.contains x = true ∧ e'.direct = 0 ∧ e'.subscribing = none ∧ e'.stale = false
  links : ∀ {a b}, b ∈ w.store.links a →
    b ∈ w'.store.links a ∨ b ∈ w'.out.orphans ∨ 0 < w'.store.direct b
  orphans : ∀ x ∈ w.out.orphans, x ∈ w'.out.orphans
  errors : ∀ err ∈ w'.out.errors, err ∈ w.out.errors ∨ ∃ rid fault, err = .handler rid fault
  ledger : w'.store.ledger.settled = w.store.ledger.settled
  created : ∀ x, x ∈ created ↔ batch.contains x = true ∧ w.store.isLoaded x = false
  loaded : ∀ x, batch.contains x = true → w'.store.isLoaded x = true

/-- A batch has been merged, and whatever it lists shows its snapshot. Nothing is counted but
references. -/
structure Work.Merges (batch : Batch) (created : List String) (w w' : Work) : Prop
    extends Merged [] batch created w w' where
  shows : ∀ rid kind, batch.Lists rid kind → w'.store.Shows batch rid kind

/-- New entries and replicas first, then edits of the listed replicas. -/
theorem Work.Merged.of_steps {surplus : List String} {batch : Batch} {created : List String}
    {w w₁ w' : Work} (hout : w₁.out = w.out)
    (hgrown : w.store.Grown (batch.contains · = true) w₁.store)
    (hswells : w₁.Swells surplus (batch.contains · = true) w')
    (hbalanced : ∀ {extra}, w.store.Balanced extra → w₁.store.Balanced extra)
    (hcreated : ∀ x, x ∈ created ↔ batch.contains x = true ∧ w.store.isLoaded x = false)
    (hloaded : ∀ x, batch.contains x = true → w'.store.isLoaded x = true) :
    w.Merged surplus batch created w' := by
  refine ⟨hswells.sturdy, fun hs => hswells.counts (hbalanced hs), fun {x e} he => ?_,
    fun {x e'} hnone he' => ?_, fun {a b} hab => ?_, fun x hx => hswells.orphans x (hout ▸ hx),
    fun err herr => hout ▸ hswells.errors err herr, ?_, hcreated, hloaded⟩
  · obtain ⟨e₁, he₁, hdirect, hpending, hsubscribing, hstale, hl, _, hsame⟩ := hgrown.kept he
    obtain ⟨e', he', hedited, hframe⟩ := hswells.kept he₁
    refine ⟨e', he', hedited.direct.trans hdirect, hedited.pending.trans hpending,
      hedited.subscribing.trans hsubscribing, hedited.stale.trans hstale,
      fun hloaded => ?_, ?_⟩
    · rw [hsame (.inl hloaded)] at hedited
      exact ⟨hedited.loaded hloaded, hedited.kind, hedited.identity⟩
    by_cases hx : batch.contains x = true
    · exact .inl hx
    · rw [← hsame (.inr hx)]
      exact hframe
  · obtain ⟨e₁, he₁⟩ := hswells.back he'
    obtain ⟨hlisted, _, hdirect, hsubscribing, hstale⟩ := hgrown.fresh hnone he₁
    obtain ⟨e₂, he₂, hedited, _⟩ := hswells.kept he₁
    rw [he'] at he₂
    cases he₂
    exact ⟨hlisted, hedited.direct.trans hdirect, hedited.subscribing.trans hsubscribing,
      hedited.stale.trans hstale⟩
  · rw [← hgrown.links] at hab
    exact hswells.links hab
  · rw [hswells.ledger, hgrown.ledger]

theorem Store.Sturdy.hasReplica {s : Store} {rid : String} (h : s.Sturdy)
    (hloaded : s.isLoaded rid = true) : s.hasReplica rid = true := by
  obtain ⟨e, he, hl⟩ := isLoaded_iff.mp hloaded
  exact hasReplica_iff.mpr ⟨e, he, (h.entry he).filled hl⟩

namespace Store

variable {s s' : Store} {registry : Registry} {batch : Batch} {rid x : String} {kind : Kind}

theorem hasReplica_of_awaits (h : s.Awaits registry batch rid kind) :
    s.hasReplica rid = true := by
  obtain ⟨e, r, he, _, hr, _⟩ := h
  exact hasReplica_iff.mpr ⟨e, he, by rw [hr]; rfl⟩

theorem content?_of_grown (hgrown : s.Grown (batch.contains · = true) s')
    (hloaded : s.isLoaded rid = true) : s'.content? rid = s.content? rid := by
  obtain ⟨e, he, hl⟩ := isLoaded_iff.mp hloaded
  obtain ⟨e', he', _, _, _, _, _, _, hsame⟩ := hgrown.kept he
  rw [hsame (.inl hl)] at he'
  unfold content?
  rw [he, he']

theorem content?_of_checkKinds (h : s.Sturdy) (hkinds : s.checkKinds batch.incoming = .ok ())
    (hlists : batch.Lists rid kind) (hloaded : s.isLoaded rid = true) :
    ∃ content, s.content? rid = some content ∧ content.kind = kind := by
  obtain ⟨e, he, hl⟩ := isLoaded_iff.mp hloaded
  obtain ⟨r, hr⟩ := Option.isSome_iff_exists.mp ((h.entry he).filled hl)
  have hcached : e.kind = some r.content.kind := by
    rw [(h.entry he).kind, hr]
    rfl
  exact ⟨r.content, content?_of_get? he hr,
    of_checkKinds hkinds (Batch.mem_incoming_iff.mpr hlists) he hl hcached⟩

def newcomers (s : Store) (batch : Batch) : List String :=
  (batch.incoming.filter fun i => !s.isLoaded i.1).map (·.1)

def residents (s : Store) (batch : Batch) : List (String × Kind) :=
  batch.incoming.filter fun i => s.isLoaded i.1

theorem mem_newcomers :
    x ∈ s.newcomers batch ↔ batch.contains x = true ∧ s.isLoaded x = false := by
  unfold newcomers
  rw [← Batch.mem_rids_iff]
  simp only [List.mem_map, List.mem_filter, Bool.not_eq_true']
  constructor
  · rintro ⟨i, ⟨hi, hl⟩, rfl⟩
    exact ⟨⟨i, hi, rfl⟩, hl⟩
  · rintro ⟨⟨i, hi, rfl⟩, hl⟩
    exact ⟨i, ⟨hi, hl⟩, rfl⟩

theorem mem_residents :
    (rid, kind) ∈ s.residents batch ↔ batch.Lists rid kind ∧ s.isLoaded rid = true := by
  rw [residents, List.mem_filter, Batch.mem_incoming_iff]

theorem of_mem_residents (h : x ∈ (s.residents batch).map (·.1)) :
    batch.contains x = true ∧ s.isLoaded x = true := by
  obtain ⟨⟨rid, kind⟩, hmem, rfl⟩ := List.mem_map.mp h
  obtain ⟨hlists, hloaded⟩ := mem_residents.mp hmem
  exact ⟨Batch.contains_iff.mpr ⟨kind, hlists⟩, hloaded⟩

theorem nodup_newcomers (s : Store) (h : batch.Disjoint) : (s.newcomers batch).Nodup :=
  h.nodup.sublist (List.filter_sublist.map _)

theorem nodup_residents (h : s.Sturdy) (hkinds : s.checkKinds batch.incoming = .ok ()) :
    ((s.residents batch).map (·.1)).Nodup := by
  refine List.Nodup.map_on (fun i hi j hj heq => Prod.ext heq ?_)
    ((Batch.nodup_incoming batch).filter _)
  obtain ⟨hlists, hloaded⟩ := mem_residents.mp hi
  obtain ⟨hlists', _⟩ := mem_residents.mp hj
  obtain ⟨content, hcontent, hkind⟩ := content?_of_checkKinds h hkinds hlists hloaded
  obtain ⟨content', hcontent', hkind'⟩ :=
    content?_of_checkKinds h hkinds (heq ▸ hlists' : batch.Lists i.1 j.2) hloaded
  rw [hcontent] at hcontent'
  cases hcontent'
  exact hkind.symm.trans hkind'

theorem createAll_ready (hregistry : registry.Quiet) (h : s.Sturdy)
    (hvalid : s.validate batch = .ok ()) : ∃ s', s.createAll registry batch batch.incoming =
        (s', s.newcomers batch, s.residents batch) ∧
      s.Grown (batch.contains · = true) s' ∧ s'.Sturdy ∧
      (∀ rid ∈ s.newcomers batch, ∃ kind, batch.ListsLast rid kind ∧
        s'.Awaits registry batch rid kind) ∧
      ∀ rid kind, batch.Lists rid kind → ∃ content, s'.snapshot batch rid kind = .ok content := by
  obtain ⟨s', hrun, hgrown, hawaits⟩ :=
    createAll_spec registry batch batch.incoming batch.sorted_incoming s
  replace hgrown := hgrown.mono fun x => Batch.mem_rids_iff.mp
  have hsturdy := @sturdy_createAll s registry batch hregistry batch.incoming h
  rw [hrun] at hsturdy
  have hthere (rid : String) (hrid : batch.contains rid = true ∨ s.hasReplica rid = true) :
      s'.hasReplica rid = true := by
    rcases hrid with hlisted | hreplica
    · cases hl : s.isLoaded rid with
      | true => exact hgrown.hasReplica (h.hasReplica hl)
      | false =>
        obtain ⟨kind, _, _, hawaiting⟩ := hawaits rid (Batch.mem_rids_iff.mpr hlisted) hl
        exact hasReplica_of_awaits hawaiting
    · exact hgrown.hasReplica hreplica
  refine ⟨s', hrun, hgrown, hsturdy, fun rid hrid => ?_, fun rid kind hlists =>
    snapshot_of_validate hvalid hlists hthere hsturdy⟩
  obtain ⟨hlisted, hunloaded⟩ := mem_newcomers.mp hrid
  obtain ⟨kind, hmem, hrank, hawaiting⟩ :=
    hawaits rid (Batch.mem_rids_iff.mpr hlisted) hunloaded
  exact ⟨kind, ⟨Batch.mem_incoming_iff.mp hmem, fun kind' hlists =>
    hrank kind' (Batch.mem_incoming_iff.mpr hlists)⟩, hawaiting⟩

end Store

namespace Op

variable {w w₂ w₃ : Work} {s₁ : Store} {registry : Registry} {batch : Batch}

/-- What is loaded already can still be brought in line when the new replicas have been filled. -/
theorem residents_ready (h : w.store.Sturdy) (hkinds : w.store.checkKinds batch.incoming = .ok ())
    (hgrown : w.store.Grown (batch.contains · = true) s₁)
    (halters : Work.Alters (· ∈ w.store.newcomers batch) ⟨s₁, w.out⟩ w₂)
    (hread : ∀ rid kind, batch.Lists rid kind → ∃ content, s₁.snapshot batch rid kind = .ok content)
    (rid : String) (kind : Kind) (hrid : (rid, kind) ∈ w.store.residents batch) :
    ∃ old content, w₂.store.isLoaded rid = true ∧ w₂.store.content? rid = some old ∧
      old.kind = kind ∧ w₂.store.snapshot batch rid kind = .ok content := by
  obtain ⟨hlists, hloaded⟩ := Store.mem_residents.mp hrid
  obtain ⟨old, hold, hkind⟩ := Store.content?_of_checkKinds h hkinds hlists hloaded
  have hnot : ¬ rid ∈ w.store.newcomers batch := fun hmem => by
    rw [(Store.mem_newcomers.mp hmem).2] at hloaded
    cases hloaded
  obtain ⟨content, hcontent⟩ := hread rid kind hlists
  refine ⟨old, content, ?_, ?_, hkind, ?_⟩
  · exact halters.isLoaded ((hgrown.isLoaded rid).trans hloaded)
  · exact (halters.content? hnot).trans ((Store.content?_of_grown hgrown hloaded).trans hold)
  · exact (Store.snapshot_congr halters.parseRef batch rid kind).trans hcontent

/-- The checks refuse a batch before anything has changed. -/
theorem addResources_refused (registry : Registry) (batch : Batch) (w : Work) :
    (∃ err, addResources registry batch w = .error err w ∧
      ∀ rid, err ≠ .negativeReferences rid) ∨
    w.store.checkKinds batch.incoming = .ok () ∧ w.store.validate batch = .ok () := by
  cases hkinds : w.store.checkKinds batch.incoming with
  | error err =>
    have hlift : liftStore (·.checkKinds batch.incoming) w = .error err w :=
      liftStore_of_error hkinds
    refine .inl ⟨err, ?_, fun rid heq => ?_⟩
    · rw [addResources]
      dsimp only
      rw [bind_of_error _ hlift]
    · obtain ⟨_, _, _, hmismatch⟩ := Store.checkKinds_error hkinds
      rw [heq] at hmismatch
      cases hmismatch
  | ok _ =>
    have hlift₁ : liftStore (·.checkKinds batch.incoming) w = .ok () w := liftStore_of_ok hkinds
    cases hvalid : w.store.validate batch with
    | error err =>
      have hlift₂ : liftStore (·.validate batch) w = .error err w := liftStore_of_error hvalid
      refine .inl ⟨err, ?_, fun rid heq => ?_⟩
      · rw [addResources]
        dsimp only
        rw [bind_of_ok _ hlift₁, bind_of_error _ hlift₂]
      · rcases Store.checkAll_error hvalid with ⟨_, hinvalid⟩ | ⟨_, hnotfound⟩
        · rw [heq] at hinvalid
          cases hinvalid
        · rw [heq] at hnotfound
          cases hnotfound
    | ok _ => exact .inr ⟨rfl, rfl⟩

theorem addResources_run {created : List String} {synced : List (String × Kind)}
    (hkinds : w.store.checkKinds batch.incoming = .ok ()) (hvalid : w.store.validate batch = .ok ())
    (hcreate : w.store.createAll registry batch batch.incoming = (s₁, created, synced))
    (hinit : created.forM (initResource batch) ⟨s₁, w.out⟩ = .ok () w₂)
    (hsync : (synced.forM fun (rid, kind) => synchronize batch rid kind) w₂ = .ok () w₃) :
    addResources registry batch w = .ok created w₃ := by
  have hlift₁ : liftStore (·.checkKinds batch.incoming) w = .ok () w := liftStore_of_ok hkinds
  have hlift₂ : liftStore (·.validate batch) w = .ok () w := liftStore_of_ok hvalid
  have hget : (get : Op Work) w = .ok w w := rfl
  rw [addResources]
  dsimp only
  rw [bind_of_ok _ hlift₁, bind_of_ok _ hlift₂, bind_of_ok _ hget, hcreate]
  dsimp only
  rw [bind_of_ok _ (modifyStore_run _), bind_of_ok _ hinit, bind_of_ok _ hsync]
  rfl

theorem addResources_of_checks (hregistry : registry.Quiet) (hdisjoint : batch.Disjoint)
    (h : w.store.Sturdy) (hkinds : w.store.checkKinds batch.incoming = .ok ())
    (hvalid : w.store.validate batch = .ok ()) :
    ∃ created w', addResources registry batch w = .ok created w' ∧ w.Merges batch created w' := by
  obtain ⟨s₁, hrun₁, hgrown, hsturdy, hawaits, hread⟩ :=
    Store.createAll_ready hregistry h hvalid
  have hbalanced {extra : String → Nat} (hs : w.store.Balanced extra) : s₁.Balanced extra := by
    have hcreated := @Store.balanced_createAll w.store registry batch extra hregistry batch.incoming
    rw [hrun₁] at hcreated
    exact hcreated hs
  obtain ⟨w₂, hrun₂, hevolves₂, hdone₂⟩ := @initAll_spec ⟨s₁, w.out⟩ registry batch
    (w.store.newcomers batch) hsturdy hdisjoint (w.store.nodup_newcomers hdisjoint)
    fun rid hrid => by
      obtain ⟨kind, ⟨hlists, _⟩, hawaiting⟩ := hawaits rid hrid
      obtain ⟨content, hcontent⟩ := hread rid kind hlists
      exact ⟨kind, content, hlists, hawaiting, hcontent⟩
  obtain ⟨w₃, hrun₃, hevolves₃, hdone₃⟩ := @syncAll_spec w₂ batch (w.store.residents batch)
    hevolves₂.sturdy (Store.nodup_residents h hkinds)
    (residents_ready h hkinds hgrown hevolves₂.toAlters hread)
  have hevolves := (hevolves₂.mono fun x hx => (Store.mem_newcomers.mp hx).1).trans
    (hevolves₃.mono fun x hx => (Store.of_mem_residents hx).1)
  refine ⟨w.store.newcomers batch, w₃, addResources_run hkinds hvalid hrun₁ hrun₂ hrun₃,
    @Work.Merged.of_steps [] batch _ w ⟨s₁, w.out⟩ w₃ rfl hgrown hevolves.toSwells hbalanced
      (fun x => Store.mem_newcomers) (fun x hx => ?_), fun rid kind hlists => ?_⟩
  · cases hl : w.store.isLoaded x with
    | true =>
      exact hevolves₃.isLoaded (hevolves₂.isLoaded ((hgrown.isLoaded x).trans hl))
    | false => exact hevolves₃.isLoaded (hdone₂ x (Store.mem_newcomers.mpr ⟨hx, hl⟩)).1
  · cases hl : w.store.isLoaded rid with
    | true => exact hdone₃ rid kind (Store.mem_residents.mpr ⟨hlists, hl⟩)
    | false =>
      have hlisted := Batch.contains_iff.mpr ⟨kind, hlists⟩
      obtain ⟨_, kind', hlists', hshows⟩ := hdone₂ rid (Store.mem_newcomers.mpr ⟨hlisted, hl⟩)
      rw [hdisjoint rid kind kind' hlists hlists']
      refine hevolves₃.shows (fun hx => ?_) hshows
      rw [(Store.of_mem_residents hx).2] at hl
      cases hl

/-- A merge refuses the batch and changes nothing, or it succeeds as a whole. -/
theorem addResources_spec (hregistry : registry.Quiet) (hdisjoint : batch.Disjoint)
    (h : w.store.Sturdy) :
    (∃ err, addResources registry batch w = .error err w ∧
      ∀ rid, err ≠ .negativeReferences rid) ∨
    ∃ created w', addResources registry batch w = .ok created w' ∧ w.Merges batch created w' :=
  (addResources_refused registry batch w).imp_right fun ⟨hkinds, hvalid⟩ =>
    addResources_of_checks hregistry hdisjoint h hkinds hvalid

end Op

end LiveResource
