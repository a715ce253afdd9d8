import LiveResource.Proofs.Accounts
import LiveResource.Proofs.Indifference

set_option autoImplicit false

/-!
# What a failure leaves behind

A batch that is refused has changed nothing. A failure that is found after a merge is made good by
the collection of orphans: what was made for the batch is evicted again, and what was there before
counts its references as it did. Only a resource that had an entry without contents, which is rare
when no call is in flight, shows a difference: it has been loaded in the meantime.
-/

namespace LiveResource

namespace World

variable {registry : Registry} {w : World} {batch : Batch}

/-- A batch is merged as a whole or not at all. Whatever a cache has been through, a merge that fails
has changed nothing and has collected nothing to be told, and after one that succeeds all that is
listed is loaded. A merge fails only because of a resource that is loaded as something else or
because of a token that is not accepted; and the check accepts exactly the tokens that can be stored
when all replicas of the batch are there. -/
theorem merged_whole_or_not_at_all {past : List Step} (out : Output) (hquiet : registry.Quiet)
    (htame : Tame registry past) (hbare : registry.Bare ∨ batch.Disjoint)
    (htrace : Trace registry past w) :
    (∀ err left, Op.addResources registry batch ⟨w.cache.store, out⟩ = .error err left →
      left = ⟨w.cache.store, out⟩) ∧
    (∀ created left, Op.addResources registry batch ⟨w.cache.store, out⟩ = .ok created left →
      ∀ x, batch.contains x = true → left.store.isLoaded x = true) ∧
    ((∃ err left, Op.addResources registry batch ⟨w.cache.store, out⟩ = .error err left) ↔
      (∃ rid kind cached, batch.Lists rid kind ∧ w.cache.store.LoadedAs rid cached ∧
        cached ≠ kind) ∨
      ∃ token ∈ Store.batchTokens batch, w.cache.store.check batch token ≠ .ok ()) ∧
    ∀ token, w.cache.store.check batch token = .ok () ↔
      ∃ v, (w.cache.store.createAll registry batch batch.incoming).1.parseStored token = .ok v := by
  obtain ⟨hsturdy, _⟩ := firm_of_trace hquiet htame htrace
  have hcheck (token : Json) := @Store.check_ok_iff _ registry batch token hquiet hsturdy
  refine ⟨fun err left hrun => (Op.of_addResources_error hquiet hbare hsturdy hrun).1,
    fun created left hrun => ?_, ?_, hcheck⟩
  · rcases Op.addResources_refused registry batch ⟨w.cache.store, out⟩ with
      ⟨err, herr, _⟩ | ⟨hkinds, hvalid⟩
    · cases hrun.symm.trans herr
    · obtain ⟨_, _, hok, hmerged⟩ :=
        Op.addResources_of_accepted hquiet hbare hsturdy hkinds hvalid
      cases hrun.symm.trans hok
      exact hmerged.loaded
  · rw [@Op.addResources_error_iff ⟨w.cache.store, out⟩ registry batch hquiet hbare hsturdy]
    refine or_congr_right (exists_congr fun token => and_congr_right fun _ => ?_)
    rw [ne_eq, hcheck, not_exists]

def danglingBatch : Batch :=
  ⟨Dict.ofList [("a", Dict.ofList [("next", .obj [("rid", .str "b")])])], ∅, ∅⟩

/-- The check of the token has failed, so the store is empty as before. -/
theorem merged_whole_or_not_at_all_dangling : ∃ err,
    Op.addResources .empty danglingBatch ⟨(start .empty).cache.store, {}⟩ =
      .error err ⟨(start .empty).cache.store, {}⟩ := by
  obtain ⟨hnothing, _, hreasons, _⟩ := @merged_whole_or_not_at_all .empty (start .empty)
    danglingBatch [] {} Registry.quiet_empty (.inl Registry.bare_empty) (.inl Registry.bare_empty)
    .refl
  have htoken : Json.obj [("rid", .str "b")] ∈ Store.batchTokens danglingBatch :=
    List.mem_singleton_self _
  have hunknown : (start .empty).cache.store.check danglingBatch (.obj [("rid", .str "b")]) ≠
      .ok () := by
    intro hok
    cases hok
  obtain ⟨err, left, hrun⟩ := hreasons.mpr (.inr ⟨_, htoken, hunknown⟩)
  exact ⟨err, hnothing err left hrun ▸ hrun⟩

/-- With a reference that nobody has counted a merge fails after a model has been changed, although
every kind and every token is accepted. -/
theorem merged_half_way : ∃ past w err left,
    (planting .pass .pass).Quiet ∧ Trace (planting .pass .pass) past w ∧
    (w.cache.store.checkKinds uprootingBatch.incoming).isOk = true ∧
    (w.cache.store.validate uprootingBatch).isOk = true ∧
    Op.addResources (planting .pass .pass) uprootingBatch ⟨w.cache.store, {}⟩ = .error err left ∧
    left.out.events ≠ [] ∧ left.store.loaded? "a" ≠ w.cache.store.loaded? "a" := by
  let r := planting .pass .pass
  let w := (plantingStep r).after
  let two : List Value := [.number (.int 2)]
  have hbefore : (w.cache.store.loaded? "a").map (·.content.values == two) = some false := by
    decide +kernel
  have hafter : (match Op.addResources r uprootingBatch ⟨w.cache.store, {}⟩ with
      | .ok _ _ => (0, none)
      | .error _ left => (left.out.events.length,
        (left.store.loaded? "a").map (·.content.values == two))) = (1, some true) := by
    decide +kernel
  have hpast : Trace r [targetStep r, modelStep r, plantingStep r] w :=
    ((Passes.refl.addStep _ "m").addStep _ "a").addStep _ "x"
  cases hrun : Op.addResources r uprootingBatch ⟨w.cache.store, {}⟩ with
  | ok created left =>
    rw [hrun] at hafter
    cases hafter
  | error err left =>
    rw [hrun] at hafter
    obtain ⟨hevents, htwo⟩ := Prod.mk.inj hafter
    refine ⟨_, w, err, left, transparent_planting.quiet, hpast, by decide +kernel,
      by decide +kernel, hrun, ?_, fun hsame => ?_⟩
    · exact List.ne_nil_of_length_pos (by omega)
    · rw [hsame, hbefore] at htwo
      cases htwo

end World

namespace Store

variable {s s' m : Store} {new : String → Prop} {batch : Batch} {rid t x : String} {e e' : Entry}

structure Tended (s : Store) : Prop where
  rest : s.AtRest
  rooted : s.Rooted fun _ => False

theorem Rests.indirect_eq_zero {extra : String → Nat} (h : s.Rests extra) (he : s.get? x = some e)
    (hl : e.loaded = false) : e.indirect = 0 := by
  have hunloaded : ¬ s.isLoaded x = true := fun hx => by
    obtain ⟨e', he', hl'⟩ := isLoaded_iff.mp hx
    cases he.symm.trans he'
    rw [hl] at hl'
    cases hl'
  have hextra : extra x = 0 :=
    Nat.eq_zero_of_not_pos fun hpos => hunloaded (h.accounted.resident hpos)
  have hlinked : s.linked x = 0 := by
    rw [linked, Dict.total_eq_zero_iff]
    intro y ey hy
    refine List.count_eq_zero.mpr fun hmem => ?_
    rw [h.settled.links_eq_hardRefs hy] at hmem
    exact hunloaded (h.accounted.closed hy hmem)
  rw [h.sound.balance he, hlinked, hextra]

structure Sifted (new : String → Prop) (s s' : Store) : Prop where
  kept : ∀ {x e}, ¬ new x → s.get? x = some e →
    (∃ n, s'.get? x = some { e with indirect := n }) ∨
      s'.get? x = none ∧ e.direct = 0 ∧ e.loaded = true
  back : ∀ {x e'}, ¬ new x → s'.get? x = some e' → ∃ e, s.get? x = some e
  come : ∀ {x e'}, new x → s'.get? x = some e' → e'.loaded = true ∧ e'.direct = s.direct x

theorem linked_congr (h : ∀ x, s'.links x = s.links x) (t : String) :
    s'.linked t = s.linked t := by
  -- entries without references count for nothing, whether they are there or not
  have hfilter (s : Store) : s.linked t =
      (s.entries.filter fun _ e => !e.links.isEmpty).total fun _ e => e.links.count t := by
    rw [Dict.total_filter]
    refine Dict.total_congr fun x e _ => ?_
    cases hlinks : e.links <;> rfl
  have hcount (s : Store) (x : String) :
      ((s.entries.filter fun _ e => !e.links.isEmpty).get? x).map (fun e => e.links.count t) =
        if (s.links x).isEmpty then none else some ((s.links x).count t) := by
    rw [Dict.get?_filter]
    change Option.map _ (Option.filter _ (s.get? x)) = _
    unfold links
    cases s.get? x with
    | none => rfl
    | some e => cases hlinks : e.links <;> simp [Option.filter, hlinks]
  rw [hfilter s', hfilter s]
  refine Dict.total_eq fun x => ?_
  rw [hcount, hcount, h]

namespace Sifted

theorem links_old (h : s.Sifted new s') (hx : ¬ new x) (he' : s'.get? x = some e') :
    s'.links x = s.links x := by
  obtain ⟨e, he⟩ := h.back hx he'
  rcases h.kept hx he with ⟨n, hkept⟩ | ⟨hnone, _⟩
  · rw [links_of_get? hkept, links_of_get? he]
    rfl
  · cases he'.symm.trans hnone

/-- The new resources that are reachable have a subscription, or a reference from an old one. So if
    they have neither, none of them is kept. -/
theorem old_of_loaded (h : s.Sifted new s') (hs : s.Tended) (hs' : s'.Tended)
    (hnew : ∀ x, new x → s.isLoaded x = false ∧ s.direct x = 0) (hx : s'.isLoaded x = true) :
    ¬ new x := by
  obtain ⟨r, hr, hleads⟩ := hs'.rooted x hx
  clear hx
  induction hleads with
  | refl =>
    intro hrnew
    have hpos := hr.resolve_right id
    cases he' : s'.get? r with
    | none =>
      unfold direct at hpos
      rw [he'] at hpos
      exact absurd hpos (Nat.lt_irrefl 0)
    | some e' =>
      rw [direct_of_get? he', (h.come hrnew he').2, (hnew r hrnew).2] at hpos
      exact absurd hpos (Nat.lt_irrefl 0)
  | @tail b c _ hlink ih =>
    intro hcnew
    obtain ⟨e', he', _⟩ := get?_of_mem_links hlink
    rw [h.links_old ih he'] at hlink
    obtain ⟨e, he, hmem⟩ := get?_of_mem_links hlink
    rw [hs.rest.settled.links_eq_hardRefs he] at hmem
    have hloaded := hs.rest.accounted.closed he hmem
    rw [(hnew c hcnew).1] at hloaded
    cases hloaded

/-- What was reachable is reachable, so all old entries are kept. -/
theorem keeps (h : s.Sifted new s') (hs : s.Tended) (hs' : s'.Tended)
    (hnew : ∀ x, new x → s.isLoaded x = false ∧ s.direct x = 0) (hx : ¬ new x)
    (he : s.get? x = some e) : ∃ n, s'.get? x = some { e with indirect := n } := by
  rcases h.kept hx he with hkept | ⟨hnone, _, hl⟩
  · exact hkept
  obtain ⟨r, hr, hleads⟩ := hs.rooted x (isLoaded_iff.mpr ⟨e, he, hl⟩)
  have hstays : ¬ new x ∧ ∃ e', s'.get? x = some e' := by
    clear he hnone hx
    induction hleads with
    | refl =>
      have hpos := hr.resolve_right id
      have hold : ¬ new r := fun hrnew => by
        rw [(hnew r hrnew).2] at hpos
        exact Nat.lt_irrefl 0 hpos
      cases he : s.get? r with
      | none =>
        unfold direct at hpos
        rw [he] at hpos
        exact absurd hpos (Nat.lt_irrefl 0)
      | some e =>
        rw [direct_of_get? he] at hpos
        rcases h.kept hold he with ⟨n, hkept⟩ | ⟨_, hzero, _⟩
        · exact ⟨hold, _, hkept⟩
        · omega
    | @tail b c _ hlink ih =>
      obtain ⟨hold, e', he'⟩ := ih
      obtain ⟨e, he, hmem⟩ := get?_of_mem_links hlink
      rw [hs.rest.settled.links_eq_hardRefs he] at hmem
      have hloaded := hs.rest.accounted.closed he hmem
      rw [← h.links_old hold he', links_of_get? he'] at hlink
      rw [hs'.rest.settled.links_eq_hardRefs he'] at hlink
      obtain ⟨ec, hec, _⟩ := isLoaded_iff.mp (hs'.rest.accounted.closed he' hlink)
      refine ⟨fun hcnew => ?_, ec, hec⟩
      rw [(hnew c hcnew).1] at hloaded
      cases hloaded
  obtain ⟨_, e', he'⟩ := hstays
  cases he'.symm.trans hnone

/-- If all that is new was neither loaded nor subscribed, nothing of it is left, and the rest is as
    it was. -/
theorem undone (h : s.Sifted new s') (hs : s.Tended) (hs' : s'.Tended)
    (hnew : ∀ x, new x → s.isLoaded x = false ∧ s.direct x = 0) :
    (∀ x, new x → s'.get? x = none) ∧ ∀ x, ¬ new x → s'.get? x = s.get? x := by
  have hgone : ∀ x, new x → s'.get? x = none := by
    intro x hx
    cases he' : s'.get? x with
    | none => rfl
    | some e' =>
      have hloaded := isLoaded_iff.mpr ⟨e', he', (h.come hx he').1⟩
      exact absurd hx (h.old_of_loaded hs hs' hnew hloaded)
  have hlinks (x : String) : s'.links x = s.links x := by
    by_cases hx : new x
    · unfold links
      rw [hgone x hx]
      cases he : s.get? x with
      | none => rfl
      | some e =>
        have hunloaded := (hnew x hx).1
        unfold isLoaded at hunloaded
        rw [he] at hunloaded
        exact (Entry.links_of_not_loaded hunloaded).symm
    · cases he : s.get? x with
      | some e =>
        obtain ⟨n, hkept⟩ := h.keeps hs hs' hnew hx he
        exact h.links_old hx hkept
      | none =>
        cases he' : s'.get? x with
        | some e' =>
          obtain ⟨e, hold⟩ := h.back hx he'
          cases he.symm.trans hold
        | none =>
          unfold links
          rw [he, he']
  refine ⟨hgone, fun x hx => ?_⟩
  cases he : s.get? x with
  | none =>
    cases he' : s'.get? x with
    | none => rfl
    | some e' =>
      obtain ⟨e, hold⟩ := h.back hx he'
      cases he.symm.trans hold
  | some e =>
    obtain ⟨n, hkept⟩ := h.keeps hs hs' hnew hx he
    -- both count the same references
    have hcount : n = e.indirect :=
      (hs'.rest.sound.exact hkept).trans ((linked_congr hlinks x).trans (hs.rest.sound.exact he).symm)
    rw [hkept, hcount]

/-- An operation that fails leaves no trace exactly if none of the new resources had an entry. -/
theorem same_iff (h : s.Sifted new s') (hs : s.Tended) (hs' : s'.Tended)
    (hnew : ∀ x, new x → s.isLoaded x = false) :
    (∀ x, s'.get? x = s.get? x) ↔ ∀ x, new x → s.get? x = none := by
  refine ⟨fun hsame x hx => ?_, fun hnone x => ?_⟩
  · cases he : s.get? x with
    | none => rfl
    | some e =>
      have hloaded := isLoaded_iff.mpr ⟨e, he, (h.come hx ((hsame x).trans he)).1⟩
      rw [hnew x hx] at hloaded
      cases hloaded
  · have hidle : ∀ y, new y → s.isLoaded y = false ∧ s.direct y = 0 := fun y hy =>
      ⟨hnew y hy, by rw [direct, hnone y hy]⟩
    obtain ⟨hgone, hold⟩ := h.undone hs hs' hidle
    by_cases hx : new x
    · rw [hgone x hx, hnone x hx]
    · exact hold x hx

end Sifted

theorem sifted_of_merges {w w' : Work} {created : List String} (h : w.Merges batch created w')
    (hsturdy : w.store.Sturdy) (hget : ∀ x, m.get? x = w'.store.get? x) (hpruned : m.Pruned s') :
    w.store.Sifted (batch.contains · = true) s' := by
  refine ⟨fun {x e} hx he => ?_, fun {x e'} hx he' => ?_, fun {x e'} hx he' => ?_⟩
  · obtain ⟨e₁, he₁, hdirect, hpending, hsubscribing, hstale, _, hframe⟩ := h.kept he
    obtain ⟨hreplica, hloaded⟩ := hframe.resolve_left hx
    have hkind : e₁.kind = e.kind := by
      rw [(h.sturdy.entry he₁).kind, hreplica, ← (hsturdy.entry he).kind]
    have hsame : e₁ = { e with indirect := e₁.indirect } := by
      cases e₁
      cases hkind
      cases hreplica
      cases hloaded
      cases hdirect
      cases hpending
      cases hsubscribing
      cases hstale
      rfl
    rw [hsame, ← hget] at he₁
    cases he' : s'.get? x with
    | none =>
      obtain ⟨hzero, hl⟩ := hpruned.gone he₁ he'
      exact .inr ⟨rfl, hzero, hl⟩
    | some e' =>
      obtain ⟨e₂, n, he₂, rfl⟩ := hpruned.kept he'
      cases he₁.symm.trans he₂
      exact .inl ⟨n, rfl⟩
  · obtain ⟨e₁, _, he₁, _⟩ := hpruned.kept he'
    cases he : w.store.get? x with
    | some e => exact ⟨e, rfl⟩
    | none => exact absurd (h.fresh he (hget x ▸ he₁)).1 hx
  · obtain ⟨e₁, n, he₁, rfl⟩ := hpruned.kept he'
    rw [hget] at he₁
    obtain ⟨e₂, he₂, hl⟩ := isLoaded_iff.mp (h.loaded x hx)
    cases he₁.symm.trans he₂
    refine ⟨hl, ?_⟩
    cases he : w.store.get? x with
    | none =>
      rw [direct, he]
      exact (h.fresh he he₁).2.1
    | some e =>
      obtain ⟨e₃, he₃, hdirect, _⟩ := h.kept he
      cases he₁.symm.trans he₃
      rw [direct_of_get? he]
      exact hdirect

theorem validate_congr (h : ∀ x, s'.hasReplica x = s.hasReplica x) (batch : Batch) :
    s'.validate batch = s.validate batch := by
  have hcheck (token : Json) : s'.check batch token = s.check batch token := by
    unfold check
    simp only [h]
  unfold validate
  induction batchTokens batch with
  | nil => rfl
  | cons token rest ih =>
    unfold checkAll
    rw [hcheck, ih]

theorem claim_unchanged {subscriptions : Nat} {err : CacheError} (h : s.Sturdy)
    (herr : (s.claim rid subscriptions).1 = .error err) : (s.claim rid subscriptions).2 = s := by
  rcases claim_cases s rid subscriptions with ⟨_, hclaim⟩ | ⟨e, he, hl, _, _, hhandle⟩
  · rw [hclaim]
  · have hsound := h.entry he
    obtain ⟨r, hr⟩ := Option.isSome_iff_exists.mp (hsound.filled hl)
    have hkind : e.kind = some r.content.kind := by
      rw [hsound.kind, hr]
      rfl
    rw [(hhandle _).mpr (Entry.handle?_of_filled hkind hr hl)] at herr
    cases herr

end Store

/-- Nothing that a batch lists is loaded. -/
def Store.Lacks (s : Store) (batch : Batch) : Prop :=
  ∀ x, batch.contains x = true → s.isLoaded x = false

/-- A batch is refused, or nothing that it lists has an entry, not even one without contents. -/
def Store.Clears (s : Store) (batch : Batch) : Prop :=
  s.validate batch = .ok () → ∀ x, batch.contains x = true → s.get? x = none

namespace Entry

variable {e e' : Entry}

def abandoned (e : Entry) : Option Entry :=
  if !e.loaded && e.direct == 0 && e.indirect == 0 then none else some { e with subscribing := none }

theorem abandoned_of_loaded (h : e.loaded = true) :
    e.abandoned = some { e with subscribing := none } := by
  simp [abandoned, h]

theorem needed_of_abandoned (h : e.abandoned = some e') :
    e'.loaded = true ∨ e'.direct ≠ 0 ∨ e'.indirect ≠ 0 := by
  unfold abandoned at h
  split at h
  · cases h
  · rename_i hneeded
    cases h
    cases hl : e.loaded with
    | true => exact .inl rfl
    | false =>
      simp only [hl, Bool.not_false, Bool.true_and, Bool.and_eq_true, beq_iff_eq, not_and_or]
        at hneeded
      exact .inr hneeded

end Entry

def Encloses (data : Option Json) (batch : Batch) : Prop :=
  Op.hasBatch (Op.membersOf data) = true ∧ Batch.ofJson (.obj (Op.membersOf data)) = .ok batch

def Brought (reply : Outcome Json) (batch : Batch) : Prop :=
  ∃ snapshot, reply = .ok snapshot ∧ Batch.ofJson snapshot = .ok batch

theorem Brought.unique {reply : Outcome Json} {batch batch' : Batch} (h : Brought reply batch)
    (h' : Brought reply batch') : batch = batch' := by
  obtain ⟨_, rfl, hbatch⟩ := h
  obtain ⟨_, heq, hbatch'⟩ := h'
  cases heq
  cases hbatch.symm.trans hbatch'
  rfl

namespace Op

variable {w w' left : Work} {registry : Registry} {batch : Batch} {rid name : String}
  {data : Option Json} {created : List String} {err : CacheError}

/-- A batch of which nothing is loaded is refused because of its tokens only. -/
theorem addResources_of_lacks (hregistry : registry.Quiet) (hdisjoint : batch.Disjoint)
    (h : w.store.Sturdy) (hlacks : w.store.Lacks batch) :
    (w.store.validate batch ≠ .ok () ∧ ∃ err, addResources registry batch w = .error err w) ∨
    w.store.validate batch = .ok () ∧
      ∃ created w', addResources registry batch w = .ok created w' ∧ w.Merges batch created w' := by
  have hkinds : w.store.checkKinds batch.incoming = .ok () := by
    refine Store.checkKinds_ok_iff.mpr fun x kind cached hmem ⟨e, he, hl, _⟩ => ?_
    have hunloaded := hlacks x (Batch.contains_iff.mpr ⟨kind, Batch.mem_incoming_iff.mp hmem⟩)
    rw [Store.isLoaded_iff.mpr ⟨e, he, hl⟩] at hunloaded
    cases hunloaded
  by_cases hvalid : w.store.validate batch = .ok ()
  · exact .inr ⟨hvalid, addResources_of_checks hregistry hdisjoint h hkinds hvalid⟩
  · rcases addResources_refused registry batch w with ⟨err, hrun, _⟩ | ⟨_, hvalid'⟩
    · exact .inl ⟨hvalid, err, hrun⟩
    · exact absurd hvalid' hvalid

/-- An event that fails is refused at once, or when what is embedded in it has been merged. -/
theorem applyEvent_error {e : Entry} (hregistry : registry.Quiet) (hdisjoint : EmbedsDisjoint data)
    (h : w.store.Sturdy) (he : w.store.get? rid = some e) (hloaded : e.loaded = true)
    (hlacks : ∀ batch, Encloses data batch → w.store.Lacks batch)
    (hrun : applyEvent registry rid e.kind name data w = .error err left) :
    (left = w ∧ ∀ batch, Encloses data batch → w.store.validate batch ≠ .ok ()) ∨
    ∃ batch created w', Encloses data batch ∧ w.store.validate batch = .ok () ∧
      w.Merges batch created w' ∧ ∀ x, left.store.get? x = w'.store.get? x := by
  have hnamed {w₁ : Work} {e₁ : Entry} (hsturdy : w₁.store.Sturdy)
      (he₁ : w₁.store.get? rid = some e₁) (hl₁ : e₁.loaded = true) (hkind : e₁.kind = e.kind)
      (hfails : applyNamed rid e.kind name data w₁ = .error err left) : left = w₁ := by
    have hrevises := @revises_named _ _ name _ data hsturdy _ he₁ hl₁ hkind
    rw [hfails] at hrevises
    exact hrevises.1
  cases hhas : hasBatch (membersOf data) with
  | false =>
    rw [applyEvent_of_not_hasBatch hhas] at hrun
    refine .inl ⟨hnamed h he hloaded rfl hrun, fun batch hencloses => ?_⟩
    cases hhas.symm.trans hencloses.1
  | true =>
    rw [applyEvent_of_hasBatch hhas] at hrun
    cases hbatch : Batch.ofJson (.obj (membersOf data)) with
    | error flaw =>
      rw [bind_of_error _ (mergeEmbedded_of_malformed hbatch)] at hrun
      cases hrun
      refine .inl ⟨rfl, fun batch hencloses => ?_⟩
      cases hbatch.symm.trans hencloses.2
    | ok batch =>
      have hencloses : Encloses data batch := ⟨hhas, hbatch⟩
      rcases addResources_of_lacks hregistry (embedded_disjoint hhas hdisjoint hbatch) h
          (hlacks batch hencloses) with ⟨hinvalid, err', hadd⟩ | ⟨hvalid, created, w', hadd, hmerges⟩
      · rw [bind_of_error _ (mergeEmbedded_of_refused hbatch hadd)] at hrun
        cases hrun
        refine .inl ⟨rfl, fun batch' hencloses' => ?_⟩
        cases hbatch.symm.trans hencloses'.2
        exact hinvalid
      · rw [bind_of_ok _ (mergeEmbedded_of_ok hbatch hadd)] at hrun
        have htell := Store.announces_settlePresent
        obtain ⟨e', he', _, _, _, _, hkept, _⟩ := hmerges.kept he
        obtain ⟨hl', hkind, _⟩ := hkept hloaded
        have hget := htell.get?_foldl w'.store created
        have hleft := hnamed ((htell.agrees_foldl w'.store created).sturdy hmerges.sturdy)
          ((hget rid).trans he') hl' hkind hrun
        refine .inr ⟨batch, created, w', hencloses, hvalid, hmerges, fun x => ?_⟩
        rw [hleft]
        exact hget x

end Op

namespace Cache

variable {c c₁ c' : Cache} {batch : Batch} {rid name : String} {data : Option Json}
  {err : CacheError} {subscriptions : Nat} {shared : Ticket}

/-- A merge that fails is refused, or its claim fails when all is merged. -/
theorem merge_error (h : c.Tidy fun _ => False) (hdisjoint : batch.Disjoint)
    (hlacks : c.store.Lacks batch)
    (hmerge : c.merge batch rid subscriptions = (.error err, c')) :
    (c.store.validate batch ≠ .ok () ∧ c' = c) ∨
    c.store.validate batch = .ok () ∧ c'.store.Tended ∧
      c.store.Sifted (batch.contains · = true) c'.store := by
  have hsturdy := h.rest.sound.sturdy
  rcases @Op.addResources_of_lacks ⟨c.store, {}⟩ c.registry batch h.registry hdisjoint hsturdy
      hlacks with ⟨hinvalid, err', hrun⟩ | ⟨hvalid, created, w, hrun, hmerges⟩
  · have hrefused : c.merge batch rid subscriptions = (.error err', c) := by
      simp only [merge, run, hrun]
    cases hmerge.symm.trans hrefused
    exact .inl ⟨hinvalid, rfl⟩
  · obtain ⟨c₁, hmerged, htidy, hpruned⟩ :=
      merge_of_run h rid subscriptions hrun hmerges.toMerged
    rw [hmerge] at hmerged
    obtain ⟨herr, rfl⟩ := Prod.mk.inj hmerged
    have htell := Store.announces_settleLoaded
    have htold := (htell.agrees_foldl w.store created).sturdy hmerges.sturdy
    rw [Store.claim_unchanged htold herr.symm] at hpruned
    exact .inr ⟨hvalid, ⟨htidy.rest, Kept.rooted htidy⟩,
      Store.sifted_of_merges hmerges hsturdy (htell.get?_foldl _ _) hpruned⟩

theorem merge_missing {root : String → Prop} (h : c.Tidy root) (hdisjoint : batch.Disjoint)
    (hnone : c.store.get? rid = none) (hmissing : batch.contains rid = false)
    (subscriptions : Nat) : ∃ err, (c.merge batch rid subscriptions).1 = .error err := by
  rcases merge_run h hdisjoint rid subscriptions with
    ⟨err, hrefused, _⟩ | ⟨created, w, c', _, hmerges, hmerged, _, _⟩
  · exact ⟨err, by rw [hrefused]⟩
  · rw [hmerged]
    rcases Store.claim_cases (created.foldl Store.settleLoaded w.store) rid subscriptions with
      ⟨err, hclaim⟩ | ⟨e, he, _⟩
    · exact ⟨err, by rw [hclaim]⟩
    · rw [Store.announces_settleLoaded.get?_foldl] at he
      have hlisted := (hmerges.fresh hnone he).1
      rw [hmissing] at hlisted
      cases hlisted

theorem handleEvent_error (h : c.Tidy fun _ => False) (hdisjoint : EmbedsDisjoint data)
    (hlacks : ∀ batch, Encloses data batch → c.store.Lacks batch)
    (hhandle : c.handleEvent rid name data = (.error err, c')) :
    (c'.store = c.store ∧ ∀ batch, Encloses data batch → c.store.validate batch ≠ .ok ()) ∨
    ∃ batch, Encloses data batch ∧ c.store.validate batch = .ok () ∧ c'.store.Tended ∧
      c.store.Sifted (batch.contains · = true) c'.store := by
  cases he : c.store.get? rid with
  | none =>
    unfold handleEvent at hhandle
    rw [he] at hhandle
    cases hhandle
  | some e =>
    cases hloaded : e.loaded with
    | false =>
      simp only [handleEvent, he, hloaded, Bool.not_false, Bool.or_true, if_true] at hhandle
      cases hhandle
    | true =>
      rcases handleEvent_run h hdisjoint he hloaded name with
        ⟨_, _, _, _, hhandled, _⟩ | ⟨err', left, c₁, hrun, _, hhandled, htidy, hflush⟩
      · cases hhandle.symm.trans hhandled
      · cases hhandle.symm.trans hhandled
        obtain ⟨_, _, hends⟩ := h.ends_eventOp (.inr hdisjoint) he hloaded name
        rw [hrun] at hends
        obtain ⟨_, hflush', _, hpruned⟩ :=
          @flush_spec _ ⟨c.registry, left.store, c.channel⟩ _ left.out h.registry hends.1 h.silent
        cases hflush.symm.trans hflush'
        unfold eventOp at hrun
        split at hrun
        · obtain ⟨_, hended, _⟩ := @Op.endSubscription_spec _ _ rid _ h.steady (reasonOf data)
          cases hrun.symm.trans hended
        · have hsturdy := h.rest.sound.sturdy
          rcases Op.applyEvent_error h.registry hdisjoint hsturdy he hloaded hlacks hrun with
            ⟨rfl, hrefused⟩ | ⟨batch, created, w', hencloses, hvalid, hmerges, hget⟩
          · cases hflush
            exact .inl ⟨rfl, hrefused⟩
          · exact .inr ⟨batch, hencloses, hvalid, ⟨htidy.rest, htidy.rooted⟩,
              Store.sifted_of_merges hmerges hsturdy hget hpruned⟩

theorem get?_closeFetch_error (s : Store) (rid : String) (fault : Fault) (x : String) :
    (closeFetch s rid (.error fault)).get? x =
      if rid = x then (s.get? rid).bind Entry.abandoned else s.get? x := by
  unfold closeFetch
  cases he : s.get? rid with
  | none =>
    dsimp only
    split
    · rename_i hx
      rw [← hx, he]
      rfl
    · rfl
  | some e =>
    dsimp only
    rw [Option.bind_some, Entry.abandoned]
    split
    · rw [Store.get?_remove, Store.get?_settle, Store.get?_put]
      split <;> rfl
    · rw [Store.get?_put]

/-- A call that fails has had a fault for its reply, or a batch that cannot be decoded or merged. -/
theorem mergeReply_error {reply : Outcome Json} {fault : Fault} (h : c.Tidy fun _ => False)
    (hdisjoint : RepliesDisjoint reply)
    (hlacks : ∀ batch, Brought reply batch → c.store.Lacks batch)
    (hreply : c.mergeReply rid subscriptions reply = (.error fault, c')) :
    (c'.store = c.store ∧ ∀ batch, Brought reply batch → c.store.validate batch ≠ .ok ()) ∨
    ∃ batch, Brought reply batch ∧ c.store.validate batch = .ok () ∧ c'.store.Tended ∧
      c.store.Sifted (batch.contains · = true) c'.store := by
  unfold mergeReply at hreply
  cases reply with
  | error fault' =>
    cases hreply
    refine .inl ⟨rfl, fun batch ⟨_, hok, _⟩ => ?_⟩
    cases hok
  | ok snapshot =>
    dsimp only at hreply
    cases hbatch : Batch.ofJson snapshot with
    | error flaw =>
      rw [hbatch] at hreply
      cases hreply
      refine .inl ⟨rfl, fun batch ⟨_, hok, hdecoded⟩ => ?_⟩
      cases hok
      cases hbatch.symm.trans hdecoded
    | ok batch =>
      have hbrought : Brought (.ok snapshot) batch := ⟨snapshot, rfl, hbatch⟩
      rw [hbatch] at hreply
      dsimp only at hreply
      generalize hmerge : c.merge batch rid subscriptions = merged at hreply
      obtain ⟨result, c₁⟩ := merged
      cases result with
      | ok handle => cases hreply
      | error err =>
        cases hreply
        rcases merge_error h (hdisjoint snapshot batch rfl hbatch) (hlacks batch hbrought) hmerge
          with ⟨hinvalid, rfl⟩ | ⟨hvalid, htended, hsifted⟩
        · refine .inl ⟨rfl, fun batch' ⟨_, hok, hdecoded⟩ => ?_⟩
          cases hok
          cases hbatch.symm.trans hdecoded
          exact hinvalid
        · exact .inr ⟨batch, hbrought, hvalid, htended, hsifted⟩

/-- A caller has begun a network subscribe: there was no subscription and no marker, and nothing but
the marker has been added. -/
structure Begins (c c₁ : Cache) (rid : String) (shared : Ticket) (e : Entry) : Prop where
  entry : c.store.get? rid = some e ∨ c.store.get? rid = none ∧ ∃ ticket, e = .fresh ticket
  direct : e.direct = 0
  marker : e.subscribing = none
  get? : ∀ x, c₁.store.get? x = if rid = x then some (e.fetching shared) else c.store.get? x

theorem begins_of_subscribe (hcall : c.subscribe rid = (.fetching rid shared, c₁)) :
    ∃ e, c.Begins c₁ rid shared e := by
  obtain ⟨e, s, hobtain, _, _, hcases⟩ := c.subscribe_cases rid
  rcases hcases with ⟨_, hother⟩ | ⟨_, _, _, hother⟩ | ⟨hdirect, hmarker, hfetching⟩
  · cases hcall.symm.trans hother
  · cases hcall.symm.trans hother
  · cases hcall.symm.trans hfetching
    have hput (x : String) : (s.issued.put rid (e.fetching s.ledger.next)).get? x =
        if rid = x then some (e.fetching s.ledger.next) else s.get? x := Store.get?_put _ _ _ _
    cases he : c.store.get? rid with
    | some e₀ =>
      rw [Store.obtain_of_get? he] at hobtain
      cases hobtain
      exact ⟨e, .inl he, hdirect, hmarker, hput⟩
    | none =>
      rw [Store.obtain_of_none he] at hobtain
      cases hobtain
      refine ⟨.fresh c.store.ledger.next, .inr ⟨he, _, rfl⟩, rfl, rfl, fun x => ?_⟩
      rw [hput]
      by_cases hx : rid = x
      · rw [if_pos hx, if_pos hx]
      · rw [if_neg hx, if_neg hx, Store.get?_put, if_neg hx]
        rfl

theorem subscribe_of_none (hnone : c.store.get? rid = none) :
    ∃ shared, c.subscribe rid = (.fetching rid shared, (c.subscribe rid).2) := by
  obtain ⟨e, s, hobtain, _, _, hcases⟩ := c.subscribe_cases rid
  rw [Store.obtain_of_none hnone] at hobtain
  cases hobtain
  rcases hcases with ⟨hpos, _⟩ | ⟨_, _, hmarker, _⟩ | ⟨_, _, hfetching⟩
  · exact absurd hpos (Nat.lt_irrefl 0)
  · cases hmarker
  · exact ⟨_, by rw [hfetching]⟩

namespace Begins

variable {e : Entry} (h : c.Begins c₁ rid shared e)

include h

theorem isLoaded (x : String) : c₁.store.isLoaded x = c.store.isLoaded x := by
  unfold Store.isLoaded
  rw [h.get?]
  by_cases hx : rid = x
  · subst hx
    rw [if_pos rfl]
    rcases h.entry with he | ⟨he, _, rfl⟩ <;> rw [he] <;> rfl
  · rw [if_neg hx]

theorem validate (batch : Batch) : c₁.store.validate batch = c.store.validate batch := by
  refine Store.validate_congr (fun x => ?_) batch
  unfold Store.hasReplica
  rw [h.get?]
  by_cases hx : rid = x
  · subst hx
    rw [if_pos rfl]
    rcases h.entry with he | ⟨he, _, rfl⟩ <;> rw [he] <;> rfl
  · rw [if_neg hx]

theorem direct_eq_zero {x : String} (hnone : c.store.get? x = none) :
    c₁.store.direct x = 0 := by
  unfold Store.direct
  rw [h.get?]
  by_cases hx : rid = x
  · rw [if_pos hx]
    exact h.direct
  · rw [if_neg hx, hnone]

/-- An entry without contents does not outlive the call. -/
theorem loaded_of_abandoned {e₀ e₂ : Entry} (hrest : c.store.AtRest)
    (he₀ : c.store.get? rid = some e₀) (habandoned : e₂.abandoned = some e₀) :
    e₀.loaded = true := by
  have heq := h.entry.resolve_right fun hnone => by cases he₀.symm.trans hnone.1
  cases heq.symm.trans he₀
  cases hl : e.loaded with
  | true => rfl
  | false =>
    rcases Entry.needed_of_abandoned habandoned with hl' | hpos | hpos
    · cases hl.symm.trans hl'
    · exact absurd h.direct hpos
    · exact absurd (hrest.indirect_eq_zero he₀ hl) hpos

/-- A new entry goes away again, and a loaded one is left as it was. -/
theorem abandoned (hloaded : ∀ e, c.store.get? rid = some e → e.loaded = true) :
    (e.fetching shared).abandoned = c.store.get? rid := by
  rcases h.entry with he | ⟨hnone, _, rfl⟩
  · have hl : (e.fetching shared).loaded = true := hloaded e he
    rw [Entry.abandoned_of_loaded hl, he]
    have hmarker := h.marker
    cases e
    cases hmarker
    rfl
  · rw [hnone]
    rfl

end Begins

/-- A network subscribe that fails leaves no trace exactly if there was no entry of its resource, or
a loaded one, and if the batch that it has brought was refused or listed nothing that had an
entry. -/
theorem fetched_error {reply : Outcome Json} {fault : Fault} (h : c.Tidy fun _ => False)
    (hdisjoint : RepliesDisjoint reply)
    (hlacks : ∀ batch, Brought reply batch → c.store.Lacks batch)
    (hcall : c.subscribe rid = (.fetching rid shared, c₁))
    (hreply : c₁.fetched rid shared reply = (.error fault, c')) :
    (∀ x, c'.store.get? x = c.store.get? x) ↔
      (∀ e, c.store.get? rid = some e → e.loaded = true) ∧
      ∀ batch, Brought reply batch → c.store.Clears batch := by
  obtain ⟨e, hbegins⟩ := begins_of_subscribe hcall
  have htidy : c₁.Tidy fun _ => False := by
    have hspec := subscribe_spec h rid
    rw [hcall] at hspec
    exact hspec
  generalize hmerge : c₁.mergeReply rid 1 reply = merged
  obtain ⟨result, c₂⟩ := merged
  unfold fetched at hreply
  rw [hmerge] at hreply
  cases hreply
  have hmerged := mergeReply_error htidy hdisjoint (fun batch hbrought x hx =>
    (hbegins.isLoaded x).trans (hlacks batch hbrought x hx)) hmerge
  have hclosed (x : String) : ((closeFetch c₂.store rid (.error fault)).settle shared
      (.error fault)).get? x =
        if rid = x then (c₂.store.get? rid).bind Entry.abandoned else c₂.store.get? x :=
    get?_closeFetch_error c₂.store rid fault x
  refine ⟨fun hsame => ?_, fun ⟨hloaded, hclears⟩ => ?_⟩
  · have hloaded : ∀ e, c.store.get? rid = some e → e.loaded = true := by
      intro e₀ he₀
      have hafter := (hclosed rid).symm.trans ((hsame rid).trans he₀)
      rw [if_pos rfl] at hafter
      obtain ⟨e₂, _, habandoned⟩ := Option.bind_eq_some_iff.mp hafter
      exact hbegins.loaded_of_abandoned h.rest he₀ habandoned
    refine ⟨hloaded, fun batch hbrought hvalid x hx => ?_⟩
    rcases hmerged with ⟨_, hrefused⟩ | ⟨batch', hbrought', _, _, hsifted⟩
    · exact absurd ((hbegins.validate batch).trans hvalid) (hrefused batch hbrought)
    · cases hbrought.unique hbrought'
      by_contra hsome
      obtain ⟨ex, he⟩ := Option.ne_none_iff_exists'.mp hsome
      have hl : ex.loaded = true := by
        by_cases hrid : rid = x
        · exact hloaded ex (hrid ▸ he)
        · have hafter := (hclosed x).symm.trans ((hsame x).trans he)
          rw [if_neg hrid] at hafter
          exact (hsifted.come hx hafter).1
      have hunloaded := hlacks batch hbrought x hx
      rw [Store.isLoaded_iff.mpr ⟨ex, he, hl⟩] at hunloaded
      cases hunloaded
  · have hafter : (∀ x, rid ≠ x → c₂.store.get? x = c.store.get? x) ∧
        (c₂.store.get? rid = some (e.fetching shared) ∨
          c₂.store.get? rid = none ∧ c.store.get? rid = none) := by
      have hbefore (x : String) (hx : rid ≠ x) : c₁.store.get? x = c.store.get? x :=
        (hbegins.get? x).trans (if_neg hx)
      have hown : c₁.store.get? rid = some (e.fetching shared) :=
        (hbegins.get? rid).trans (if_pos rfl)
      rcases hmerged with ⟨hstore, _⟩ | ⟨batch, hbrought, hvalid, htended, hsifted⟩
      · rw [hstore]
        exact ⟨hbefore, .inl hown⟩
      · have hnone := hclears batch hbrought ((hbegins.validate batch).symm.trans hvalid)
        obtain ⟨hgone, hold⟩ := hsifted.undone ⟨htidy.rest, htidy.rooted⟩ htended fun x hx =>
          ⟨(hbegins.isLoaded x).trans (hlacks batch hbrought x hx),
            hbegins.direct_eq_zero (hnone x hx)⟩
        refine ⟨fun x hx => ?_, ?_⟩
        · by_cases hlisted : batch.contains x = true
          · rw [hgone x hlisted, hnone x hlisted]
          · rw [hold x hlisted, hbefore x hx]
        · by_cases hlisted : batch.contains rid = true
          · exact .inr ⟨hgone rid hlisted, hnone rid hlisted⟩
          · exact .inl ((hold rid hlisted).trans hown)
    obtain ⟨hothers, hown⟩ := hafter
    refine fun x => (hclosed x).trans ?_
    by_cases hx : rid = x
    · subst hx
      rw [if_pos rfl]
      rcases hown with hstays | ⟨hgone, hnone⟩
      · rw [hstays]
        exact hbegins.abandoned hloaded
      · rw [hgone, hnone]
        rfl
    · rw [if_neg hx]
      exact hothers x hx

theorem add_error (h : c.Tidy fun _ => False) (hdisjoint : batch.Disjoint)
    (hlacks : c.store.Lacks batch) (hadd : c.add batch rid = (.error err, c')) :
    (∀ x, c'.store.get? x = c.store.get? x) ↔ c.store.Clears batch := by
  rcases merge_error h hdisjoint hlacks hadd with ⟨hinvalid, rfl⟩ | ⟨hvalid, htended, hsifted⟩
  · exact iff_of_true (fun _ => rfl) fun hvalid => absurd hvalid hinvalid
  · rw [hsifted.same_iff ⟨h.rest, h.rooted⟩ htended hlacks]
    exact ⟨fun hnone _ => hnone, fun hclears => hclears hvalid⟩

theorem event_error (h : c.Tidy fun _ => False) (hdisjoint : EmbedsDisjoint data)
    (hlacks : ∀ batch, Encloses data batch → c.store.Lacks batch)
    (hhandle : c.handleEvent rid name data = (.error err, c')) :
    (∀ x, c'.store.get? x = c.store.get? x) ↔
      ∀ batch, Encloses data batch → c.store.Clears batch := by
  rcases handleEvent_error h hdisjoint hlacks hhandle with
    ⟨hstore, hrefused⟩ | ⟨batch, hencloses, hvalid, htended, hsifted⟩
  · rw [hstore]
    exact iff_of_true (fun _ => rfl) fun batch hencloses hvalid =>
      absurd hvalid (hrefused batch hencloses)
  · rw [hsifted.same_iff ⟨h.rest, h.rooted⟩ htended (hlacks batch hencloses)]
    refine ⟨fun hnone batch' hencloses' _ => ?_, fun hclears => hclears batch hencloses hvalid⟩
    cases hencloses.2.symm.trans hencloses'.2
    exact hnone

end Cache

namespace World

variable {registry : Registry} {w : World}

/-- An operation that fails leaves every entry as it was, if the batch that came with it has been
refused, or if nothing that this batch lists had an entry; and in no other case. What had an entry was
not loaded, and it is loaded then or gone. The same holds for a call that has to subscribe to its
resource at the server, if the resource itself had no entry or a loaded one. -/
theorem no_trace_iff (hquiet : registry.Quiet) (hrun : Run registry w) (hleaving : w.leaving = []) :
    (∀ batch rid err c', batch.Disjoint → w.cache.store.Lacks batch →
      w.cache.add batch rid = (.error err, c') →
      ((∀ x, c'.store.get? x = w.cache.store.get? x) ↔ w.cache.store.Clears batch)) ∧
    (∀ rid shared reply fault c₁ c', Cache.RepliesDisjoint reply →
      (∀ batch, Brought reply batch → w.cache.store.Lacks batch) →
      w.cache.subscribe rid = (.fetching rid shared, c₁) →
      c₁.fetched rid shared reply = (.error fault, c') →
      ((∀ x, c'.store.get? x = w.cache.store.get? x) ↔
        (∀ e, w.cache.store.get? rid = some e → e.loaded = true) ∧
        ∀ batch, Brought reply batch → w.cache.store.Clears batch)) ∧
    (∀ rid name data err c', EmbedsDisjoint data →
      (∀ batch, Encloses data batch → w.cache.store.Lacks batch) →
      w.cache.handleEvent rid name data = (.error err, c') →
      ((∀ x, c'.store.get? x = w.cache.store.get? x) ↔
        ∀ batch, Encloses data batch → w.cache.store.Clears batch)) := by
  have htidy : w.cache.Tidy fun _ => False :=
    (tidy_of_run hquiet hrun).weaken fun r hr => by
      rw [hleaving] at hr
      cases hr
  exact ⟨fun _ _ _ _ => Cache.add_error htidy, fun _ _ _ _ _ _ => Cache.fetched_error htidy,
    fun _ _ _ _ _ => Cache.event_error htidy⟩

def quitting : World :=
  { taken with cache := (taken.cache.unsubscribe "m").2, leaving := ["m"] }

def retaken : World := { quitting with cache := (quitting.cache.add lone "m").2 }

def requitting : World :=
  { retaken with cache := (retaken.cache.unsubscribe "m").2, leaving := ["m", "m"] }

def quitted : World :=
  { requitting with cache := (requitting.cache.released "m" (.ok ())).2, leaving := ["m"] }

def sought : World :=
  let subscribed := quitted.cache.subscribe "m"
  { quitted with cache := subscribed.2, callers := [subscribed.1] }

def restored : World :=
  { sought with cache := (sought.cache.released "m" (.error refusal)).2, leaving := [] }

/-- A network unsubscribe has failed after the model had been evicted and somebody wanted it again, and
then the network subscribe has failed as well. Nothing is in flight. -/
def stranded (shared : Ticket) : World :=
  { restored with
    cache := (restored.cache.fetched "m" shared (.error refusal)).2
    callers := [] }

theorem run_requitting : Run .empty requitting := by
  have htaken : Run .empty taken := .next .start (.add lone "m") lone_disjoint rfl
  have hquitting : Run .empty quitting := .next htaken (.unsubscribe "m") trivial rfl
  have hretaken : Run .empty retaken := .next hquitting (.add lone "m") lone_disjoint rfl
  exact .next hretaken (.unsubscribe "m") trivial rfl

theorem get?_quitted : quitted.cache.store.get? "m" = none :=
  get?_released Registry.quiet_empty run_requitting (by rfl) (by rfl)

theorem get?_quitted_other : quitted.cache.store.get? "x" = none := by
  have hbefore : requitting.cache.store.get? "x" = none := by rfl
  rcases Store.Purged.purge.leave requitting.cache "m" with ⟨_, hsame⟩ | ⟨e, _, _, hpurged⟩
  · change (requitting.cache.leave "m").2.store.get? "x" = none
    rw [hsame]
    exact hbefore
  · by_contra hsome
    obtain ⟨e', he'⟩ := Option.ne_none_iff_exists'.mp hsome
    obtain ⟨_, hback, _⟩ := hpurged.back he'
    rw [Store.get?_put, if_neg (by decide), hbefore] at hback
    cases hback

/-- The model has an entry that counts a subscription but has no contents. -/
theorem exists_stranded : ∃ shared, Run .empty (stranded shared) ∧
    (stranded shared).cache.store.get? "x" = none ∧
    ∃ e, (stranded shared).cache.store.get? "m" = some e ∧ e.loaded = false ∧ e.direct = 1 := by
  obtain ⟨shared, hcall⟩ := Cache.subscribe_of_none get?_quitted
  obtain ⟨e, hbegins⟩ := Cache.begins_of_subscribe hcall
  obtain ⟨_, ticket, rfl⟩ := hbegins.entry.resolve_left (by simp [get?_quitted])
  have hrestored (x : String) : restored.cache.store.get? x =
      if "m" = x then (sought.cache.store.get? x).map Entry.subscribed
      else sought.cache.store.get? x := Store.get?_modify _ _ _ x
  have hfetched (x : String) : (stranded shared).cache.store.get? x =
      if "m" = x then (restored.cache.store.get? "m").bind Entry.abandoned
      else restored.cache.store.get? x :=
    Cache.get?_closeFetch_error restored.cache.store "m" refusal x
  refine ⟨shared, ?_, ?_, (Entry.fresh ticket).subscribed, ?_, rfl, rfl⟩
  · have hcallers : restored.callers = [.fetching "m" shared] :=
      congrArg (fun called : Call × Cache => [called.1]) hcall
    have hquitted : Run .empty quitted := .next run_requitting (.released "m" (.ok ())) trivial rfl
    have hsought : Run .empty sought := .next hquitted (.subscribe "m") trivial rfl
    have hrestored : Run .empty restored :=
      .next hsought (.released "m" (.error refusal)) trivial rfl
    have hlegal : (Action.fetched "m" shared (.error refusal)).Legal := by
      rintro snapshot batch ⟨⟩
    have hstep : restored.perform (.fetched "m" shared (.error refusal)) =
        some (none, stranded shared) := by
      simp only [perform, hcallers, List.mem_singleton, if_true, List.erase_cons_head]
      rfl
    exact .next hrestored (.fetched "m" shared (.error refusal)) hlegal hstep
  · rw [hfetched, if_neg (by decide), hrestored, if_neg (by decide)]
    exact ((hbegins.get? "x").trans (if_neg (by decide))).trans get?_quitted_other
  · have hsought : sought.cache.store.get? "m" = some ((Entry.fresh ticket).fetching shared) :=
      (hbegins.get? "m").trans (if_pos rfl)
    rw [hfetched, if_pos rfl, hrestored, if_pos rfl, hsought]
    rfl

/-- The model is subscribed and not loaded, though nothing is being left or asked for. So what is
loaded is not what can be reached from subscribed resources. -/
theorem reachable_not_loaded : ∃ w, Registry.empty.Quiet ∧ Run .empty w ∧ w.leaving = [] ∧
    w.callers = [] ∧ w.resubscribing = [] ∧ ¬ ∀ x, w.cache.store.isLoaded x = true ↔
      ∃ d, 0 < w.cache.store.direct d ∧ w.cache.store.Reaches d x := by
  obtain ⟨shared, hrun, _, e, he, hunloaded, hdirect⟩ := exists_stranded
  refine ⟨stranded shared, Registry.quiet_empty, hrun, rfl, rfl, rfl, fun hall => ?_⟩
  have hpos : 0 < (stranded shared).cache.store.direct "m" := by
    rw [Store.direct_of_get? he, hdirect]
    exact Nat.one_pos
  obtain ⟨e', he', hloaded⟩ := Store.isLoaded_iff.mp ((hall "m").mpr ⟨"m", hpos, .refl⟩)
  cases he.symm.trans he'
  cases hunloaded.symm.trans hloaded

/-- A batch that does not list what it is merged for is merged, and then the operation fails. The
model had an entry, so it is loaded now. -/
theorem no_trace_iff_stranded : ∃ shared err c',
    (stranded shared).cache.add lone "x" = (.error err, c') ∧
      ¬ ∀ x, c'.store.get? x = (stranded shared).cache.store.get? x := by
  obtain ⟨shared, hrun, hother, e, he, hunloaded, _⟩ := exists_stranded
  have hlacks : (stranded shared).cache.store.Lacks lone := by
    intro x hx
    have hmodels : (lone.models.contains x || false || false) = true := hx
    rw [Bool.or_false, Bool.or_false] at hmodels
    obtain ⟨fields, hfields⟩ := Dict.contains_iff.mp hmodels
    have hmodel : x = "m" := (Prod.mk.inj (List.mem_singleton.mp (Dict.mem_of_get?_ofList hfields))).1
    rw [Store.isLoaded, hmodel, he]
    exact hunloaded
  have hvalid : (stranded shared).cache.store.validate lone = .ok () := by rfl
  obtain ⟨err, herr⟩ := Cache.merge_missing (tidy_of_run Registry.quiet_empty hrun) lone_disjoint
    hother rfl 1
  have hadd : (stranded shared).cache.add lone "x" =
      (.error err, ((stranded shared).cache.add lone "x").2) := Prod.ext herr rfl
  refine ⟨shared, err, _, hadd, fun hsame => ?_⟩
  have hclears := ((no_trace_iff Registry.quiet_empty hrun rfl).1 lone "x" err _ lone_disjoint hlacks
    hadd).mp hsame
  rw [hclears hvalid "m" rfl] at he
  cases he

end World

end LiveResource
