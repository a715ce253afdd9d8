import LiveResource.Proofs.Rollback

set_option autoImplicit false

/-!
# Batches that contradict themselves

If several sections of a batch list a resource, its snapshots cannot all be shown, but the
references of one of them are counted for each section. A cache that counts exactly does so after
such a batch if and only if there is nothing of that kind to count, or the batch is refused. What is
counted too much is never given back, so these resources stay for good.
-/

namespace LiveResource

namespace Store

variable {s : Store} {batch : Batch} {t x : String} {extra : String → Nat}

/-- A batch passes the checks that are made before a merge. -/
def Accepts (s : Store) (batch : Batch) : Prop :=
  s.checkKinds batch.incoming = .ok () ∧ s.validate batch = .ok ()

/-- Every entry counts exactly the references, and all that is loaded can be reached from what is
subscribed. -/
structure InOrder (s : Store) : Prop where
  exact : ∀ {x e}, s.get? x = some e → e.indirect = s.references x
  needed : ∀ {x}, s.isLoaded x = true → ∃ d, 0 < s.direct d ∧ s.Reaches d x

theorem Accounted.extra_eq_zero (h : s.Accounted extra)
    (hexact : ∀ x e, s.get? x = some e → e.indirect = s.references x) : extra = fun _ => 0 := by
  funext t
  refine Nat.eq_zero_of_not_pos fun hpos => ?_
  obtain ⟨e, he, _⟩ := isLoaded_iff.mp (h.resident hpos)
  have hbalance := h.balance he
  rw [hexact t e he] at hbalance
  omega

end Store

namespace Op

variable {w left : Work} {registry : Registry} {batch : Batch} {created : List String}
  {err : CacheError}

theorem accepts_of_ok (hrun : addResources registry batch w = .ok created left) :
    w.store.Accepts batch := by
  rcases addResources_refused registry batch w with ⟨err, herr, _⟩ | haccepts
  · cases hrun.symm.trans herr
  · exact haccepts

theorem not_accepts_of_error (hregistry : registry.Quiet) (hbare : registry.Bare)
    (h : w.store.Sturdy) (hrun : addResources registry batch w = .error err left) :
    ¬ w.store.Accepts batch := by
  rintro ⟨hkinds, hvalid⟩
  obtain ⟨_, _, hok, _⟩ := addResources_of_accepted hregistry (.inl hbare) h hkinds hvalid
  cases hrun.symm.trans hok

end Op

namespace Cache

variable {c : Cache} {batch : Batch} {rid name : String} {data : Option Json}
  {root : String → Prop} {extra : String → Nat}

def Swallows (batch : Batch) (extra : String → Nat) (root : String → Prop) (c : Cache)
    (result : Option CacheError × Cache) : Prop :=
  (¬ c.store.Accepts batch ∧ result.1 ≠ none ∧ result.2.store = c.store) ∨
  c.store.Accepts batch ∧ result.2.Kept (fun t => extra t + batch.unshown.count t) root

theorem merge_swallows (h : c.Kept extra root) (hbare : c.registry.Bare) (rid : String)
    (subscriptions : Nat) : Swallows batch extra root c
      (World.told (c.merge batch rid subscriptions).1, (c.merge batch rid subscriptions).2) := by
  rcases merge_spec h (.inl hbare) rid subscriptions with
    ⟨err, hrun, hmerge, _⟩ | ⟨created, w, hrun, hkept, _⟩
  · rw [hmerge]
    refine .inl ⟨Op.not_accepts_of_error h.registry hbare h.rest.sound.sturdy hrun, ?_, rfl⟩
    rintro ⟨⟩
  · exact .inr ⟨Op.accepts_of_ok hrun, hkept⟩

theorem handleEvent_swallows (h : c.Kept extra root) (hbare : c.registry.Bare)
    (hloaded : c.store.isLoaded rid = true) (hname : name ≠ "unsubscribe")
    (hencloses : Encloses data batch) : Swallows batch extra root c
      (World.told (c.handleEvent rid name data).1, (c.handleEvent rid name data).2) := by
  obtain ⟨e, he, hl⟩ := Store.isLoaded_iff.mp hloaded
  obtain ⟨hhas, hbatch⟩ := hencloses
  have hop : eventOp c.registry e rid name data = Op.applyEvent c.registry rid e.kind name data :=
    if_neg hname
  rcases @Op.ends_embedded _ _ _ _ name _ _ _ data h.registry hhas hbatch (.inl hbare) h.steady e he
      hl rfl with ⟨err, hrun, hevent, hharmless⟩ | ⟨created, w, hrun, hends⟩
  · have hends : Op.Ends extra root (eventOp c.registry e rid name data ⟨c.store, {}⟩) := by
      rw [hop, hevent]
      exact ⟨h.steady, hharmless⟩
    refine .inl ⟨Op.not_accepts_of_error h.registry hbare h.rest.sound.sturdy hrun, ?_⟩
    rcases handleEvent_of_ends h he hl hends with
      ⟨_, _, _, hevent', _⟩ | ⟨err', left, c', hevent', _, hhandled, _, hflush⟩
    · rw [hop] at hevent'
      cases hevent.symm.trans hevent'
    · rw [hop] at hevent'
      cases hevent.symm.trans hevent'
      -- nothing has been noted, so nothing is evicted
      cases hflush
      rw [hhandled]
      refine ⟨?_, rfl⟩
      rintro ⟨⟩
  · rw [← hop] at hends
    refine .inr ⟨Op.accepts_of_ok hrun, ?_⟩
    rcases handleEvent_of_ends h he hl hends with
      ⟨_, c', _, _, hhandled, hkept, _⟩ | ⟨_, _, c', _, _, hhandled, hkept, _⟩
    · rw [hhandled]
      exact hkept
    · rw [hhandled]
      exact hkept

end Cache

namespace Action

variable {s : Store} {batch : Batch}

/-- A batch comes by itself, for a stale resource, or in an event for a loaded one. -/
inductive Brings (s : Store) (batch : Batch) : Action → Prop
  | add (rid : String) : Brings s batch (.add batch rid)
  | resubscribe (rid : String) : Brings s batch (.resubscribe batch rid)
  | event {rid name : String} {data : Option Json} : s.isLoaded rid = true →
    name ≠ "unsubscribe" → Encloses data batch → Brings s batch (.event rid name data)

end Action

namespace World

variable {registry : Registry} {w w' : World} {batch : Batch} {action : Action}
  {err : Option CacheError} {past later : List Step} {extra : String → Nat}

theorem leaving_of_brings (hbrings : action.Brings w.cache.store batch)
    (hstep : w.perform action = some (err, w')) : w'.leaving = w.leaving := by
  cases hbrings <;> cases hstep <;> rfl

theorem swallows_of_brings {root : String → Prop} (h : w.cache.Kept extra root)
    (hbare : w.cache.registry.Bare) (hbrings : action.Brings w.cache.store batch)
    (hstep : w.perform action = some (err, w')) :
    Cache.Swallows batch extra root w.cache (err, w'.cache) := by
  cases hbrings with
  | add rid =>
    cases hstep
    exact Cache.merge_swallows h hbare rid 1
  | resubscribe rid =>
    cases hstep
    exact Cache.merge_swallows h hbare rid 0
  | event hloaded hname hencloses =>
    cases hstep
    exact Cache.handleEvent_swallows h hbare hloaded hname hencloses

/-- What is counted too much is never given back, whatever comes next. -/
theorem kept_of_passes (hquiet : registry.Quiet) (htame : Tame registry (past ++ later))
    (htrace : Trace registry past w) (h : w.cache.Kept extra (· ∈ w.leaving))
    (hpasses : Passes w later w') :
    ∃ surplus : List String,
      w'.cache.Kept (fun t => extra t + surplus.count t) (· ∈ w'.leaving) := by
  induction hpasses with
  | refl => exact ⟨[], h⟩
  | @step later w₁ w₂ action err hpasses hstep ih =>
    rw [← List.append_assoc] at htame
    obtain ⟨surplus, hkept⟩ := ih htame.append.1
    have hregistry := registry_of_trace hquiet htame.append.1 (htrace.trans hpasses)
    obtain ⟨surplus', _, hkept'⟩ := (kept_perform (hregistry ▸ htame.last) hkept hstep).1
    refine ⟨surplus ++ surplus', ?_⟩
    have hsum : (fun t => extra t + surplus.count t + surplus'.count t) =
        fun t => extra t + (surplus ++ surplus').count t := by
      funext t
      rw [List.count_append, Nat.add_assoc]
    rw [← hsum]
    exact hkept'

theorem kept_of_trace (hquiet : registry.Quiet) (htame : Tame registry past)
    (htrace : Trace registry past w) : ∃ extra, w.cache.Kept extra (· ∈ w.leaving) := by
  have htame' : Tame registry ([] ++ past) := htame
  have hstart : (start registry).cache.Tidy (· ∈ (start registry).leaving) :=
    Cache.tidy_empty hquiet
  obtain ⟨surplus, hkept⟩ := kept_of_passes hquiet htame' .refl hstart htrace
  exact ⟨_, hkept⟩

/-- A batch comes by itself, for a stale resource, or in an event to a cache that counts exactly and
in which nothing is being left. The cache stays in order if and only if the batch is refused, or
what several sections list refers to nothing by the snapshot that is looked up, which is the model's
if there is one. A refused batch leaves the store as it was. After any other one every entry counts
the references and, besides, those that are not shown, once for each section. Their targets keep
what they lead to, and they stay loaded and counted too much for good. All this is for factories
whose new collections refer to nothing: a collection that is made with references and listed as a
model too keeps them, though nobody has counted them. -/
theorem in_order_iff_shown (hquiet : registry.Quiet) (hbare : registry.Bare)
    (htrace : Trace registry past w) (hleaving : w.leaving = [])
    (hexact : ∀ x e, w.cache.store.get? x = some e → e.indirect = w.cache.store.references x)
    (hbrings : action.Brings w.cache.store batch) (hstep : w.perform action = some (err, w')) :
    (¬ w.cache.store.Accepts batch → err ≠ none ∧ w'.cache.store = w.cache.store) ∧
    (w.cache.store.Accepts batch →
      (∀ x e, w'.cache.store.get? x = some e →
        e.indirect = w'.cache.store.references x + batch.unshown.count x) ∧
      (∀ x, w'.cache.store.isLoaded x = true →
        ∃ r, (0 < w'.cache.store.direct r ∨ r ∈ batch.unshown) ∧ w'.cache.store.Reaches r x) ∧
      ∀ later v, Passes w' later v → ∀ t ∈ batch.unshown, ∃ e, v.cache.store.get? t = some e ∧
        e.loaded = true ∧ v.cache.store.references t < e.indirect) ∧
    (err ≠ none ∧ w'.cache.store = w.cache.store ∨ w'.cache.store.InOrder ↔
      (w.cache.store.Accepts batch →
        ∀ rid, batch.contradicts rid = true → Store.targets (batch.tokensOf rid) = [])) := by
  obtain ⟨extra, hbefore⟩ := kept_of_trace hquiet (.inl hbare) htrace
  obtain rfl := hbefore.rest.accounted.extra_eq_zero hexact
  have hregistry := registry_of_trace hquiet (.inl hbare) htrace
  have hswallows := swallows_of_brings hbefore (hregistry ▸ hbare) hbrings hstep
  rw [← Batch.unshown_eq_nil_iff]
  rcases hswallows with ⟨hrefused, herr, hsame⟩ | ⟨haccepts, hafter⟩
  · exact ⟨fun _ => ⟨herr, hsame⟩, fun haccepts => absurd haccepts hrefused,
      iff_of_true (.inl ⟨herr, hsame⟩) fun haccepts => absurd haccepts hrefused⟩
  · have hcount : (fun t => 0 + batch.unshown.count t) = fun t => batch.unshown.count t :=
      funext fun t => Nat.zero_add _
    rw [hcount] at hafter
    have haccounted := hafter.rest.accounted
    have hneeded : ∀ x, w'.cache.store.isLoaded x = true → ∃ r,
        (0 < w'.cache.store.direct r ∨ r ∈ batch.unshown) ∧ w'.cache.store.Reaches r x := by
      intro x hx
      obtain ⟨r, hr, hlead⟩ := hafter.held x hx
      rw [hafter.rest.settled.links_eq_refs] at hlead
      refine ⟨r, hr.imp_right fun hextra => ?_, hlead⟩
      rcases hextra with hmem | hpos
      · rw [hleaving] at hmem
        cases hmem
      · exact List.count_pos_iff.mp hpos
    refine ⟨fun hrefused => absurd haccepts hrefused, fun _ =>
      ⟨fun x e he => haccounted.balance he, hneeded, fun later v hpasses t ht => ?_⟩, ?_⟩
    · rw [← leaving_of_brings hbrings hstep] at hafter
      obtain ⟨surplus, hkept⟩ :=
        kept_of_passes hquiet (.inl hbare) (.step htrace hstep) hafter hpasses
      have hpos := List.count_pos_iff.mpr ht
      have hresident : v.cache.store.isLoaded t = true :=
        hkept.rest.accounted.resident (Nat.add_pos_left hpos _)
      obtain ⟨e, he, hloaded⟩ := Store.isLoaded_iff.mp hresident
      have hbalance := hkept.rest.accounted.balance he
      exact ⟨e, he, hloaded, by omega⟩
    · refine ⟨fun hgood _ => ?_, fun hnothing => .inr ?_⟩
      · -- either way the counts are exact
        have hexact' : ∀ x e, w'.cache.store.get? x = some e →
            e.indirect = w'.cache.store.references x := by
          rcases hgood with ⟨_, hsame⟩ | horder
          · rw [hsame]
            exact hexact
          · exact fun x e => horder.exact
        refine List.eq_nil_iff_forall_not_mem.mpr fun t ht => ?_
        have hzero := congrFun (haccounted.extra_eq_zero hexact') t
        exact absurd (List.count_pos_iff.mpr ht) (by omega)
      · have hnil := hnothing haccepts
        rw [hnil] at haccounted hneeded
        exact ⟨fun he => haccounted.balance he, fun {x} hx =>
          (hneeded x hx).imp fun r hr => hr.imp_left fun hroot => hroot.resolve_right (by simp)⟩

def contradictory : Batch :=
  ⟨Dict.ofList [("m", ∅), ("x", Dict.ofList [("r", .obj [("rid", .str "m")])])],
    Dict.ofList [("x", [])], ∅⟩

def contradicted : World :=
  { start .empty with cache := ((start .empty).cache.add contradictory "x").2 }

/-- Only the resource is subscribed. The one that its model would have referred to counts two
references more than there are, and it stays loaded whatever comes next. -/
theorem in_order_iff_shown_contradictory :
    (∃ e, contradicted.cache.store.get? "m" = some e ∧ e.direct = 0 ∧
      e.indirect = contradicted.cache.store.references "m" + 2) ∧
    ¬ contradicted.cache.store.InOrder ∧
    ∀ later v, Passes contradicted later v → v.cache.store.isLoaded "m" = true := by
  have hstep : (start .empty).perform (.add contradictory "x") =
      some (told ((start .empty).cache.add contradictory "x").1, contradicted) := rfl
  have haccepts : (start .empty).cache.store.Accepts contradictory := ⟨rfl, rfl⟩
  have hunshown : contradictory.unshown = ["m", "m"] := rfl
  have hmem : "m" ∈ contradictory.unshown := by
    rw [hunshown]
    exact List.mem_cons_self
  obtain ⟨_, hcounts, horder⟩ := in_order_iff_shown Registry.quiet_empty Registry.bare_empty .refl
    rfl (fun x e he => by cases he) (.add "x") hstep
  obtain ⟨hbalance, _, hforever⟩ := hcounts haccepts
  refine ⟨?_, fun hin => ?_, fun later v hpasses => ?_⟩
  · obtain ⟨e, he, _⟩ := hforever [] contradicted .refl "m" hmem
    have hdirect : contradicted.cache.store.direct "m" = 0 := by
      have hfair : (start .empty).cache.store.Fair := Store.fair_empty
      rcases Cache.merge_tally hfair contradictory "x" 1 with ⟨htally, _⟩ | htally
      · exact congrFun (Store.direct_of_tally htally) "m"
      · refine (congrFun (Store.direct_of_update htally) "m").trans ?_
        exact Function.update_of_ne (by decide) _ _
    rw [Store.direct_of_get? he] at hdirect
    exact ⟨e, he, hdirect, hbalance "m" e he⟩
  · have hnil := horder.mp (.inr hin) haccepts
    rw [← Batch.unshown_eq_nil_iff, hunshown] at hnil
    cases hnil
  · obtain ⟨e, he, hloaded, _⟩ := hforever later v hpasses "m" hmem
    exact Store.isLoaded_iff.mpr ⟨e, he, hloaded⟩

end World

end LiveResource
