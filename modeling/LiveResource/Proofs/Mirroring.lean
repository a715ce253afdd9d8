import LiveResource.Proofs.Filling
import LiveResource.Proofs.Traces

set_option autoImplicit false

/-!
# Mirrors of a cache

Who takes a resource as it is loaded, and from then on the changes that are sent for it, has what
the cache has after every step, until the resource is evicted. Merges and events edit what is loaded
and tell of it; all other steps leave replicas alone, or remove them.
-/

namespace LiveResource

structure Store.Remains (s s' : Store) : Prop where
  fit : s.Fit → s'.Fit
  kept : ∀ {x r}, s'.loaded? x = some r → s.loaded? x = some r

namespace Store

variable {s s' s'' : Store} {rid : String} {e e' : Entry}

namespace Remains

theorem refl (s : Store) : s.Remains s := ⟨id, id⟩

theorem trans (h : s.Remains s') (h' : s'.Remains s'') : s.Remains s'' :=
  ⟨fun hs => h'.fit (h.fit hs), fun hr => h.kept (h'.kept hr)⟩

end Remains

theorem Agrees.remains (h : s.Agrees s') : s.Remains s' := by
  refine ⟨fun hs => ⟨h.sturdy hs.sturdy, h.settled hs.settled, fun x e' r he' hr => ?_⟩,
    fun {x r} hr => h.loaded? x ▸ hr⟩
  obtain ⟨e, he, _, hreplica, _⟩ := h.get? he'
  exact hs.transparent x e r he (hreplica ▸ hr)

theorem remains_put (he : s.get? rid = some e) (hcore : e'.core = e.core) :
    s.Remains (s.put rid e') := (agrees_put he hcore).remains

theorem remains_modify {f : Entry → Entry} (hcore : ∀ e, (f e).core = e.core) :
    s.Remains (s.modify rid f) := (agrees_modify hcore).remains

theorem remains_obtain (s : Store) (rid : String) : s.Remains (s.obtain rid).2 := by
  cases hnone : s.get? rid with
  | some e =>
    rw [obtain_of_get? hnone]
    exact .refl s
  | none =>
    rw [obtain_of_none hnone]
    have hback {x : String} {e : Entry} (he : ({ s with
        ledger := { s.ledger with next := s.ledger.next + 1 } }.put rid
          (.fresh s.ledger.next)).get? x = some e) : e.replica = none ∨ s.get? x = some e := by
      rw [get?_put] at he
      split at he
      · cases he
        exact .inl rfl
      · exact .inr he
    have hissued (hs : s.Sturdy) :
        Sturdy { s with ledger := { s.ledger with next := s.ledger.next + 1 } } :=
      hs.of_entries rfl
    refine ⟨fun hs => ⟨(hissued hs.sturdy).put_fresh hnone _, fun x e he hr => ?_,
      fun x e r he hr => ?_⟩, fun {x r} hr => ?_⟩
    · rcases hback he with hfresh | hold
      · rw [hfresh] at hr
        cases hr
      · exact hs.settled x e hold hr
    · rcases hback he with hfresh | hold
      · rw [hfresh] at hr
        cases hr
      · exact hs.transparent x e r hold hr
    · obtain ⟨e, he, hl, hreplica⟩ := loaded?_eq_some hr
      rcases hback he with hfresh | hold
      · rw [hfresh] at hreplica
        cases hreplica
      · exact loaded?_of_get? hold hl hreplica

theorem Pruned.remains (h : s.Pruned s') (hbacked : s'.Backed) : s.Remains s' := by
  refine ⟨fun hs => ⟨hs.sturdy.of_pruned hs.settled h hbacked, hs.settled.of_pruned h,
    fun x e' r he' hr => ?_⟩, fun {x r} hr => ?_⟩
  · obtain ⟨e, n, he, rfl⟩ := h.kept he'
    exact hs.transparent x e r he hr
  · obtain ⟨e', he', hl, hr⟩ := loaded?_eq_some hr
    obtain ⟨e, n, he, rfl⟩ := h.kept he'
    exact loaded?_of_get? he hl hr

theorem remains_remove (he : s.get? rid = some e) (hunloaded : e.loaded = false)
    (hindirect : e.indirect = 0) : s.Remains (s.remove rid) := by
  have hold {x : String} {ex : Entry} (hx : (s.remove rid).get? x = some ex) :=
    (get?_of_remove hx).1
  refine ⟨fun hs => ⟨hs.sturdy.remove_unloaded he hunloaded hindirect,
    fun x ex hx => hs.settled x ex (hold hx), fun x ex r hx => hs.transparent x ex r (hold hx)⟩,
    fun {x r} hr => ?_⟩
  obtain ⟨ex, hx, hl, hr⟩ := loaded?_eq_some hr
  exact loaded?_of_get? (hold hx) hl hr

end Store

namespace Op

variable {s : Store} {out : Output}

theorem tryDelete_remains (h : s.Fit) (rid : String) (out : Output) :
    ∃ gone s', tryDelete rid ⟨s, out⟩ = .ok gone ⟨s', out⟩ ∧ s.Remains s' := by
  have hbacked := h.sturdy.backed h.settled
  rcases tryDelete_cases hbacked rid out with ⟨_, hrun⟩ | ⟨_, hloaded, hrun⟩
  · exact ⟨[], s, hrun, .refl s⟩
  · exact ⟨s.doomed rid, s.evict rid, hrun,
      (Store.evict_pruned hbacked hloaded).remains (Store.backed_evict hbacked rid)⟩

theorem collect_remains (h : s.Fit) (candidates : List String) (out : Output) :
    ∃ s', collect candidates ⟨s, out⟩ = .ok () ⟨s', out⟩ ∧ s.Remains s' := by
  induction candidates generalizing s with
  | nil => exact ⟨s, rfl, .refl s⟩
  | cons rid rest ih =>
    rw [collect_cons]
    cases s.get? rid with
    | none => exact ih h
    | some e =>
      by_cases hzero : e.direct = 0
      · obtain ⟨gone, s₁, hrun₁, hremains₁⟩ := tryDelete_remains h rid out
        obtain ⟨s₂, hrun₂, hremains₂⟩ := ih (hremains₁.fit h)
        refine ⟨s₂, ?_, hremains₁.trans hremains₂⟩
        simp only [hzero, if_true]
        rw [bind_of_ok _ hrun₁]
        exact hrun₂
      · simp only [hzero, if_false]
        exact ih h

variable {w : Work} {registry : Registry} {rid name : String} {data : Option Json}

theorem endSubscription_remains (h : w.store.Fit) (rid : String) (reason : Fault) :
    ∃ s', endSubscription rid reason w =
        .ok () ⟨s', { w.out with events := w.out.events ++ [.unsubscribe rid reason] }⟩ ∧
      w.store.Remains s' := by
  have hdropped : w.store.Remains
      (w.store.modify rid fun e => { e with direct := 0, stale := false }) :=
    Store.remains_modify fun _ => rfl
  obtain ⟨gone, s', hrun, hremains⟩ := tryDelete_remains (hdropped.fit h) rid w.out
  refine ⟨s', ?_, hdropped.trans hremains⟩
  rw [endSubscription, bind_of_ok _ (modifyStore_run _), bind_of_ok _ hrun]
  rfl

theorem feeds_of_agrees {w' w'' : Work} (h : w.Feeds w') (hagrees : w'.store.Agrees w''.store)
    (hevents : w''.out.events = w'.out.events) : w.Feeds w'' := by
  obtain ⟨news, hnews, htouched, hmirror⟩ := h.sends
  refine ⟨hagrees.remains.fit h.fit, fun {x r} hr => ?_, news, hevents.trans hnews, htouched,
    fun ht x r r' hr hr' => hmirror ht x r r' hr ((hagrees.loaded? x).symm.trans hr')⟩
  obtain ⟨r', hr', hkind⟩ := h.kept hr
  exact ⟨r', (hagrees.loaded? x).trans hr', hkind⟩

theorem mergeEmbedded_feeds {data : Json} (hregistry : registry.Transparent)
    (hbare : registry.Bare ∨ ∀ batch, Batch.ofJson data = .ok batch → batch.Disjoint)
    (h : w.store.Fit) : (∃ err, mergeEmbedded registry rid name data w = .error err w) ∨
    ∃ w', mergeEmbedded registry rid name data w = .ok () w' ∧ w.Feeds w' := by
  unfold mergeEmbedded
  cases hbatch : Batch.ofJson data with
  | error err => exact .inl ⟨_, rfl⟩
  | ok batch =>
    rcases addResources_feeds hregistry (hbare.imp_right fun hall => hall batch hbatch) h with
      ⟨err, hrun⟩ | ⟨created, w₁, hrun, hfeeds⟩
    · exact .inl ⟨err, bind_of_error _ hrun⟩
    · refine .inr ⟨⟨created.foldl Store.settlePresent w₁.store,
        { w₁.out with orphans := w₁.out.orphans ++ created }⟩, ?_,
        feeds_of_agrees hfeeds (Store.announces_settlePresent.agrees_foldl _ _) rfl⟩
      simp only
      rw [bind_of_ok _ hrun, bind_of_ok _ (modifyStore_run _), orphans_run]

theorem feeds_of_revises {w' : Work} {op : Op Unit} (h : w.Feeds w')
    (hloaded : w.store.isLoaded rid = true) (hrevises : Revises rid w' (op w')) :
    w.Feeds (op.left w') := by
  unfold left
  cases hrun : op w' with
  | ok _ w'' =>
    rw [hrun] at hrevises
    exact h.evolves hrevises fun x hx => hx ▸ hloaded
  | error err w'' =>
    rw [hrun] at hrevises
    rw [hrevises.1]
    exact h

/-- An event for a loaded resource is taken or refused, and a mirror is told of it. -/
theorem applyEvent_feeds {e : Entry} (hregistry : registry.Transparent)
    (hbare : registry.Bare ∨ EmbedsDisjoint data) (h : w.store.Fit)
    (he : w.store.get? rid = some e) (hloaded : e.loaded = true) :
    w.Feeds ((applyEvent registry rid e.kind name data).left w) := by
  have hl : w.store.isLoaded rid = true := Store.isLoaded_iff.mpr ⟨e, he, hloaded⟩
  cases hbatch : hasBatch (membersOf data) with
  | false =>
    rw [applyEvent_of_not_hasBatch hbatch]
    exact feeds_of_revises (.refl h) hl (revises_named data h.sturdy he hloaded rfl)
  | true =>
    rw [applyEvent_of_hasBatch hbatch, left_bind]
    have hembedded : registry.Bare ∨
        ∀ batch, Batch.ofJson (.obj (membersOf data)) = .ok batch → batch.Disjoint :=
      hbare.imp_right fun hdisjoint batch => embedded_disjoint hbatch hdisjoint
    rcases @mergeEmbedded_feeds w registry rid name _ hregistry hembedded h with
      ⟨err, hrun⟩ | ⟨w', hrun, hfeeds⟩
    · rw [hrun]
      exact .refl h
    · rw [hrun]
      -- the resource of the event is still there, and it is of the same kind
      obtain ⟨r, hr⟩ := Option.isSome_iff_exists.mp ((h.sturdy.entry he).filled hloaded)
      obtain ⟨r', hr', hkind⟩ := hfeeds.kept (Store.loaded?_of_get? he hloaded hr)
      obtain ⟨e', he', hl', hreplica'⟩ := Store.loaded?_eq_some hr'
      refine feeds_of_revises hfeeds hl (revises_named data hfeeds.fit.sturdy he' hl' ?_)
      rw [(hfeeds.fit.sturdy.entry he').kind, (h.sturdy.entry he).kind, hr, hreplica',
        Option.map_some, Option.map_some, hkind]

end Op

namespace Cache

structure Remains (c c' : Cache) : Prop where
  store : c.store.Remains c'.store
  registry : c'.registry = c.registry
  news : ∃ news, c'.channel = c.channel ++ news ∧ ∀ x, editsOf x news = []

/-- What was not loaded is not told of, and a mirror that takes what is sent for a loaded model or
collection shows it as it is, if it is still there. -/
structure Feeds (c c' : Cache) : Prop where
  fit : c'.store.Fit
  registry : c'.registry = c.registry
  news : ∃ news, c'.channel = c.channel ++ news ∧
    (∀ x, c.store.isLoaded x = false → editsOf x news = []) ∧
    ∀ x r, c.store.loaded? x = some r → r.content.kind ≠ .error →
      ∃ content, r.content.mirror (editsOf x news) = some content ∧
        ∀ r', c'.store.loaded? x = some r' → r'.content = content

variable {c c' c'' : Cache} {s : Store} {rid name : String} {batch : Batch} {data : Option Json}

namespace Remains

theorem refl (c : Cache) : c.Remains c :=
  ⟨.refl _, rfl, [], (List.append_nil _).symm, fun _ => rfl⟩

theorem trans (h : c.Remains c') (h' : c'.Remains c'') : c.Remains c'' := by
  obtain ⟨news, hnews, hnone⟩ := h.news
  obtain ⟨later, hlater, hnone'⟩ := h'.news
  refine ⟨h.store.trans h'.store, h'.registry.trans h.registry, news ++ later, ?_, fun x => ?_⟩
  · rw [hlater, hnews, List.append_assoc]
  · rw [editsOf_append, hnone, hnone', List.append_nil]

theorem withStore (h : c.store.Remains s) : c.Remains { c with store := s } :=
  ⟨h, rfl, [], (List.append_nil _).symm, fun _ => rfl⟩

theorem report (c : Cache) (err : CacheError) : c.Remains (c.report err).2 :=
  ⟨.refl _, rfl, [.cacheError err], rfl, fun _ => rfl⟩

end Remains

namespace Feeds

theorem of_remains (h : c.store.Fit) (hremains : c.Remains c') : c.Feeds c' := by
  obtain ⟨news, hnews, hnone⟩ := hremains.news
  refine ⟨hremains.store.fit h, hremains.registry, news, hnews, fun x _ => hnone x,
    fun x r hr _ => ⟨r.content, ?_, fun r' hr' => ?_⟩⟩
  · rw [hnone]
    rfl
  · rw [hremains.store.kept hr'] at hr
    cases hr
    rfl

theorem refl (h : c.store.Fit) : c.Feeds c := .of_remains h (.refl c)

theorem trans_remains (h : c.Feeds c') (h' : c'.Remains c'') : c.Feeds c'' := by
  obtain ⟨news, hnews, hold, hmirror⟩ := h.news
  obtain ⟨later, hlater, hnone⟩ := h'.news
  have hedits (x : String) : editsOf x (news ++ later) = editsOf x news := by
    rw [editsOf_append, hnone, List.append_nil]
  refine ⟨h'.store.fit h.fit, h'.registry.trans h.registry, news ++ later, ?_, fun x hx => ?_,
    fun x r hr hkind => ?_⟩
  · rw [hlater, hnews, List.append_assoc]
  · rw [hedits]
    exact hold x hx
  · obtain ⟨content, hcontent, hsame⟩ := hmirror x r hr hkind
    rw [hedits]
    exact ⟨content, hcontent, fun r' hr' => hsame r' (h'.store.kept hr')⟩

end Feeds

theorem flush_remains (h : c.store.Fit) (out : Output) : ∃ s, c.flush out =
      (.ok (), ⟨c.registry, s, c.channel ++ out.events.map Notice.resource ++
        out.errors.map Notice.cacheError⟩) ∧ c.store.Remains s := by
  obtain ⟨s, hrun, hremains⟩ := Op.collect_remains h out.orphans {}
  exact ⟨s, by simp only [flush, run, hrun], hremains⟩

/-- What an operation has edited is sent, and what it leaves behind is evicted. -/
theorem flush_feeds {w : Work} {out : Output} (h : Work.Feeds ⟨c.store, {}⟩ w)
    (ht : c.store.Transparent) (hevents : out.events = w.out.events) :
    ∃ c', (⟨c.registry, w.store, c.channel⟩ : Cache).flush out = (.ok (), c') ∧ c.Feeds c' := by
  obtain ⟨s, hflush, hremains⟩ := @flush_remains ⟨c.registry, w.store, c.channel⟩ h.fit out
  obtain ⟨news, hnews, htouched, hmirror⟩ := h.sends
  have hout : out.events = news := hevents.trans hnews
  have hedits (x : String) : editsOf x (out.events.map Notice.resource ++
      out.errors.map Notice.cacheError) = news.filter (·.edits x) := by
    rw [editsOf_append, editsOf_errors, List.append_nil, editsOf_resources, hout]
  refine ⟨_, hflush, hremains.fit h.fit, rfl, _, List.append_assoc _ _ _, fun x hx => ?_,
    fun x r hr hkind => ?_⟩
  · rw [hedits]
    refine ResourceEvent.filter_edits_eq_nil fun event hmem heq => ?_
    have hloaded := htouched event hmem
    rw [heq] at hloaded
    exact absurd (hloaded.symm.trans hx) (by simp)
  · obtain ⟨r₁, hr₁, _⟩ := h.kept hr
    rw [hedits]
    refine ⟨r₁.content, hmirror ht x r r₁ hr hr₁ hkind, fun r' hr' => ?_⟩
    have hsame := hr₁.symm.trans (hremains.kept hr')
    cases hsame
    rfl

theorem merge_feeds (hregistry : c.registry.Transparent)
    (hbare : c.registry.Bare ∨ batch.Disjoint) (h : c.store.Fit) (rid : String)
    (subscriptions : Nat) : c.Feeds (c.merge batch rid subscriptions).2 := by
  rcases @Op.addResources_feeds ⟨c.store, {}⟩ c.registry batch hregistry hbare h with
    ⟨err, hrun⟩ | ⟨created, w, hrun, hfeeds⟩
  · simp only [merge, run, hrun]
    exact .refl h
  · have hagrees := Store.announces_settleLoaded.agrees_foldl w.store created
    obtain ⟨hclaim, _⟩ :=
      Store.claim_spec (created.foldl Store.settleLoaded w.store) rid subscriptions
    generalize hresult : (created.foldl Store.settleLoaded w.store).claim rid subscriptions =
      claimed at hclaim
    obtain ⟨result, s⟩ := claimed
    have hclaimed : Work.Feeds ⟨c.store, {}⟩ ⟨s, w.out⟩ :=
      Op.feeds_of_agrees hfeeds (hagrees.trans hclaim) rfl
    obtain ⟨c', hflush, hfeeds'⟩ := @flush_feeds c ⟨s, w.out⟩
      { w.out with orphans := w.out.orphans ++ created } hclaimed h.transparent rfl
    simp only [merge, run, hrun, hresult, hflush]
    exact hfeeds'

theorem mergeReply_feeds {reply : Outcome Json} (hregistry : c.registry.Transparent)
    (hbare : c.registry.Bare ∨ RepliesDisjoint reply) (h : c.store.Fit) (rid : String)
    (subscriptions : Nat) : c.Feeds (c.mergeReply rid subscriptions reply).2 := by
  unfold mergeReply
  cases reply with
  | error fault => exact .refl h
  | ok snapshot =>
    dsimp only
    cases hbatch : Batch.ofJson snapshot with
    | error err => exact .of_remains h (.report c _)
    | ok batch =>
      have hmerged := merge_feeds hregistry
        (hbare.imp_right fun hdisjoint => hdisjoint snapshot batch rfl hbatch) h rid subscriptions
      dsimp only
      cases hmerge : c.merge batch rid subscriptions with
      | mk result c' =>
        rw [hmerge] at hmerged
        cases result with
        | ok handle => exact hmerged
        | error err => exact hmerged.trans_remains (.report c' err)

theorem endSubscription_run (h : c.store.Fit) (rid : String) (reason : Fault) :
    ∃ out c', c.run (Op.endSubscription rid reason) = (.ok (), out, c') ∧
      ∃ c'', c'.flush out = (.ok (), c'') ∧ c.Remains c'' := by
  obtain ⟨s, hrun, hremains⟩ := @Op.endSubscription_remains ⟨c.store, {}⟩ h rid reason
  obtain ⟨s', hflush, hremains'⟩ := @flush_remains { c with store := s } (hremains.fit h)
    { events := [.unsubscribe rid reason] }
  refine ⟨{ events := [.unsubscribe rid reason] }, { c with store := s }, ?_, _, hflush,
    hremains.trans hremains', rfl, [.resource (.unsubscribe rid reason)], List.append_nil _,
    fun _ => rfl⟩
  simp only [run, hrun]
  rfl

theorem handleEvent_feeds (hregistry : c.registry.Transparent)
    (hbare : c.registry.Bare ∨ EmbedsDisjoint data) (h : c.store.Fit) (rid name : String) :
    c.Feeds (c.handleEvent rid name data).2 := by
  unfold handleEvent
  cases he : c.store.get? rid with
  | none => exact .refl h
  | some e =>
    dsimp only
    split
    · exact .refl h
    · rename_i hready
      have hloaded : e.loaded = true := by
        simp only [Bool.or_eq_true, Bool.not_eq_true', not_or, Bool.not_eq_false] at hready
        exact hready.2
      by_cases hname : name = "unsubscribe"
      · obtain ⟨out, c₁, hrun, c₂, hflush, hremains⟩ := endSubscription_run h rid (reasonOf data)
        simp only [eventOp, if_pos hname, hrun, hflush]
        exact .of_remains h hremains
      · have hfeeds := @Op.applyEvent_feeds ⟨c.store, {}⟩ c.registry rid name data e hregistry hbare
          h he hloaded
        obtain ⟨c', hflush, hfeeds'⟩ := flush_feeds hfeeds h.transparent rfl
        simp only [eventOp, if_neg hname]
        unfold Op.left at hflush
        cases hrun : Op.applyEvent c.registry rid e.kind name data ⟨c.store, {}⟩ with
        | ok _ w =>
          rw [hrun] at hflush
          simp only [run, hrun, hflush]
          exact hfeeds'
        | error err w =>
          rw [hrun] at hflush
          simp only [run, hrun, hflush]
          exact hfeeds'

theorem dropSubscription_remains (h : c.store.Fit) (rid : String) (reason : Fault) :
    c.Remains (c.dropSubscription rid reason) := by
  obtain ⟨out, c₁, hrun, c₂, hflush, hremains⟩ := endSubscription_run h rid reason
  simp only [dropSubscription, hrun, hflush]
  exact hremains

theorem resubscribed_feeds {reply : Outcome Json} (hregistry : c.registry.Transparent)
    (hbare : c.registry.Bare ∨ RepliesDisjoint reply) (h : c.store.Fit) (rid : String) :
    c.Feeds (c.resubscribed rid reply) := by
  have hmerged := mergeReply_feeds hregistry hbare h rid 0
  unfold resubscribed
  split
  · rename_i handle c' hreply
    rw [hreply] at hmerged
    exact hmerged
  · rename_i reason c' hreply
    rw [hreply] at hmerged
    exact hmerged.trans_remains (dropSubscription_remains hmerged.fit rid reason)

theorem closeFetch_remains (s : Store) (rid : String) (result : Outcome Handle) :
    s.Remains (closeFetch s rid result) := by
  unfold closeFetch
  cases he : s.get? rid with
  | none => exact .refl s
  | some e =>
    dsimp only
    have hput : s.Remains (s.put rid { e with subscribing := none }) := Store.remains_put he rfl
    cases result with
    | ok handle => exact hput
    | error fault =>
      dsimp only
      split
      · rename_i hidle
        rw [Bool.and_eq_true, Bool.and_eq_true, Bool.not_eq_true', beq_iff_eq, beq_iff_eq] at hidle
        have hsettle := (Store.agrees_settle (s.put rid { e with subscribing := none }) e.pending
          (.error fault)).remains
        have hget : ((s.put rid { e with subscribing := none }).settle e.pending
            (.error fault)).get? rid = some { e with subscribing := none } := by
          rw [Store.get?_settle, Store.get?_put, if_pos rfl]
        exact (hput.trans hsettle).trans (Store.remains_remove hget hidle.1.1 hidle.2)
      · exact hput

theorem fetched_feeds {reply : Outcome Json} (hregistry : c.registry.Transparent)
    (hbare : c.registry.Bare ∨ RepliesDisjoint reply) (h : c.store.Fit) (rid : String)
    (shared : Ticket) : c.Feeds (c.fetched rid shared reply).2 := by
  have hmerged := mergeReply_feeds hregistry hbare h rid 1
  have hclose := closeFetch_remains (c.mergeReply rid 1 reply).2.store rid
    (c.mergeReply rid 1 reply).1
  have hsettle := (Store.agrees_settle (closeFetch (c.mergeReply rid 1 reply).2.store rid
    (c.mergeReply rid 1 reply).1) shared ((c.mergeReply rid 1 reply).1.map fun _ => ())).remains
  exact hmerged.trans_remains (.withStore (hclose.trans hsettle))

theorem subscribe_remains (c : Cache) (rid : String) : c.Remains (c.subscribe rid).2 := by
  obtain ⟨e, s, hobtain, hget, _, hcases⟩ := c.subscribe_cases rid
  have hobtained := Store.remains_obtain c.store rid
  rw [hobtain] at hobtained
  rcases hcases with ⟨_, heq⟩ | ⟨_, shared, _, heq⟩ | ⟨_, _, heq⟩
  · rw [heq]
    exact .withStore (hobtained.trans (Store.remains_put hget rfl))
  · rw [heq]
    exact .withStore hobtained
  · rw [heq]
    have hissued : s.Agrees s.issued := ⟨fun _ => rfl, fun _ => id⟩
    have hget' : s.issued.get? rid = some e := hget
    exact .withStore (hobtained.trans (hissued.remains.trans (Store.remains_put hget' rfl)))

theorem join_remains (c : Cache) (rid : String) (outcome : Outcome Unit) :
    c.Remains (c.join rid outcome).2 := by
  unfold join
  cases outcome with
  | error fault => exact .refl c
  | ok _ =>
    dsimp only
    split
    · exact .refl c
    · rename_i e he
      exact .withStore (Store.remains_put he rfl)

theorem leave_remains (h : c.store.Fit) (rid : String) : c.Remains (c.leave rid).2 := by
  unfold leave
  cases he : c.store.get? rid with
  | none => exact .refl c
  | some e =>
    dsimp only
    split
    · have hput : c.store.Remains (c.store.put rid { e with stale := false }) :=
        Store.remains_put he rfl
      obtain ⟨gone, s, hrun, hremains⟩ := Op.tryDelete_remains (hput.fit h) rid {}
      simp only [run, hrun]
      exact .withStore (hput.trans hremains)
    · exact .refl c

theorem unsubscribe_remains (h : c.store.Fit) (rid : String) :
    c.Remains (c.unsubscribe rid).2 := by
  rcases c.unsubscribe_cases rid with ⟨_, hsame⟩ | ⟨e, he, _, hcases⟩
  · rw [hsame]
    exact .refl c
  · have hput : c.store.Remains (c.store.put rid e.unsubscribed) := Store.remains_put he rfl
    rcases hcases with ⟨_, heq⟩ | ⟨_, _, heq⟩ | ⟨_, _, left, hleave, heq⟩
    · rw [heq]
      exact .withStore hput
    · rw [heq]
      exact .withStore hput
    · rw [heq, ← hleave]
      exact .trans (.withStore hput) (leave_remains (hput.fit h) rid)

theorem released_remains (h : c.store.Fit) (rid : String) (reply : Outcome Unit) :
    c.Remains (c.released rid reply).2 := by
  unfold released
  cases reply with
  | ok _ => exact leave_remains h rid
  | error fault => exact .withStore (Store.remains_modify fun _ => rfl)

end Cache

namespace World

variable {registry : Registry} {w w' : World} {action : Action} {err : Option CacheError}
  {rid : String}

/-- Whatever comes next, a mirror can follow. -/
theorem feeds_perform (hregistry : w.cache.registry.Transparent)
    (hbare : w.cache.registry.Bare ∨ action.Legal) (h : w.cache.store.Fit)
    (hstep : w.perform action = some (err, w')) : w.cache.Feeds w'.cache := by
  cases acts_of_perform hstep with
  | add batch rid => exact Cache.merge_feeds hregistry hbare h rid 1
  | resubscribe batch rid => exact Cache.merge_feeds hregistry hbare h rid 0
  | event rid name data => exact Cache.handleEvent_feeds hregistry hbare h rid name
  | fetched _ _ => exact Cache.fetched_feeds hregistry hbare h _ _
  | resubscribed _ _ => exact Cache.resubscribed_feeds hregistry hbare h _
  | setAllStale => exact .of_remains h (.withStore w.cache.agrees_setAllStale.remains)
  | subscribe rid => exact .of_remains h (w.cache.subscribe_remains rid)
  | join _ _ _ => exact .of_remains h (w.cache.join_remains _ _)
  | refuse _ _ _ => exact .of_remains h (w.cache.join_remains _ _)
  | ask _ => exact .of_remains h (Cache.unsubscribe_remains h _)
  | unsubscribe _ => exact .of_remains h (Cache.unsubscribe_remains h _)
  | released reply _ => exact .of_remains h (Cache.released_remains h _ reply)
  | loaded _ _ => exact .refl h
  | subscribeStale => exact .refl h

/-- Batches that list a resource in several sections are no harm, unless new collections may refer
to something before they are filled: nobody counts such a reference, and to drop it fails when the
value is gone already. -/
def Tame (registry : Registry) (trace : List Step) : Prop :=
  registry.Bare ∨ ∀ step ∈ trace, step.action.Legal

theorem Tame.append {past later : List Step} (h : Tame registry (past ++ later)) :
    Tame registry past ∧ Tame registry later := by
  rcases h with hbare | hlegal
  · exact ⟨.inl hbare, .inl hbare⟩
  · exact ⟨.inr fun step hmem => hlegal step (List.mem_append_left _ hmem),
      .inr fun step hmem => hlegal step (List.mem_append_right _ hmem)⟩

theorem Tame.last {past : List Step} {step : Step} (h : Tame registry (past ++ [step])) :
    registry.Bare ∨ step.action.Legal :=
  h.append.2.imp_right fun hlegal => hlegal step (List.mem_singleton_self step)

theorem fit_of_passes {trace : List Step} (hregistry : w.cache.registry.Transparent)
    (htame : Tame w.cache.registry trace) (h : w.cache.store.Fit) (hpasses : Passes w trace w') :
    w'.cache.registry = w.cache.registry ∧ w'.cache.store.Fit := by
  induction hpasses with
  | refl => exact ⟨rfl, h⟩
  | step _ hstep ih =>
    obtain ⟨hsame, hfit⟩ := ih htame.append.1
    have hfeeds := feeds_perform (hsame ▸ hregistry) (hsame ▸ htame.last) hfit hstep
    exact ⟨hfeeds.registry.trans hsame, hfeeds.fit⟩

theorem fit_start (registry : Registry) : (start registry).cache.store.Fit :=
  ⟨Store.sound_empty.sturdy, fun _ _ he => (by cases he), fun _ _ _ he => (by cases he)⟩

/-- As long as a resource is loaded, a mirror that takes all changes has what the cache has. -/
theorem mirror_of_passes {life : List Step} {first : Replica}
    (hregistry : w.cache.registry.Transparent) (htame : Tame w.cache.registry life)
    (h : w.cache.store.Fit) (hpasses : Passes w life w')
    (hfirst : w.cache.store.loaded? rid = some first) (hkind : first.content.kind ≠ .error)
    (hlife : ∀ step ∈ life, step.before.cache.store.isLoaded rid = true) :
    ∃ news content, w'.cache.channel = w.cache.channel ++ news ∧
      first.content.mirror (editsOf rid news) = some content ∧
      ∀ r, w'.cache.store.loaded? rid = some r → r.content = content := by
  induction hpasses with
  | refl =>
    refine ⟨[], first.content, (List.append_nil _).symm, rfl, fun r hr => ?_⟩
    rw [hfirst] at hr
    cases hr
    rfl
  | @step trace w₁ w₂ action err hpasses hstep ih =>
    obtain ⟨news, content, hnews, hcontent, hsame⟩ := ih htame.append.1
      fun step hmem => hlife step (List.mem_append_left _ hmem)
    obtain ⟨hregistry₁, hfit₁⟩ := fit_of_passes hregistry htame.append.1 h hpasses
    have hfeeds := feeds_perform (hregistry₁ ▸ hregistry) (hregistry₁ ▸ htame.last) hfit₁ hstep
    -- before the last step the mirror has what is loaded
    obtain ⟨e₁, he₁, hl₁⟩ := Store.isLoaded_iff.mp
      (hlife _ (List.mem_append_right _ (List.mem_singleton_self _)))
    obtain ⟨r₁, hr₁⟩ := Option.isSome_iff_exists.mp ((hfit₁.sturdy.entry he₁).filled hl₁)
    have hloaded₁ := Store.loaded?_of_get? he₁ hl₁ hr₁
    obtain rfl := hsame r₁ hloaded₁
    obtain ⟨later, hlater, _, hmirror⟩ := hfeeds.news
    obtain ⟨content', hcontent', hsame'⟩ := hmirror rid r₁ hloaded₁
      (Content.kind_mirror hcontent ▸ hkind)
    refine ⟨news ++ later, content', ?_, ?_, hsame'⟩
    · rw [hlater, hnews, List.append_assoc]
    · rw [editsOf_append, Content.mirror_append, hcontent]
      exact hcontent'

/-- Observers can mirror the cache. When a model or collection is loaded nothing is sent that
changes it. From then on every change that is sent fits what the changes before it have made of the
first contents, and after every step the cache has what all of them have made, until the step that
evicts the resource. -/
theorem mirror_shows_replica {past life : List Step} {birth : Step} {now : World} {first : Replica}
    (hregistry : registry.Transparent) (htame : Tame registry (past ++ birth :: life))
    (htrace : Trace registry (past ++ birth :: life) now)
    (hnew : birth.before.cache.store.isLoaded rid = false)
    (hfirst : birth.after.cache.store.loaded? rid = some first)
    (hkind : first.content.kind ≠ .error)
    (hlife : ∀ step ∈ life, step.before.cache.store.isLoaded rid = true) :
    (∃ notices, birth.after.cache.channel = birth.before.cache.channel ++ notices ∧
      editsOf rid notices = []) ∧
    ∃ news content, now.cache.channel = birth.after.cache.channel ++ news ∧
      first.content.mirror (editsOf rid news) = some content ∧
      ∀ r, now.cache.store.loaded? rid = some r → r.content = content := by
  obtain ⟨hpast, hstep, hrest⟩ := htrace.at_step
  obtain ⟨htamePast, htameRest⟩ := htame.append
  have htameBirth : Tame registry ([birth] ++ life) := htameRest
  obtain ⟨hbefore, hfit⟩ := fit_of_passes hregistry htamePast (fit_start registry) hpast
  have hsame : birth.before.cache.registry = registry := hbefore
  have hfeeds := feeds_perform (hsame ▸ hregistry)
    (hsame ▸ (show Tame registry ([] ++ [birth]) from htameBirth.append.1).last) hfit hstep
  obtain ⟨notices, hnotices, hnone, _⟩ := hfeeds.news
  have hafter : birth.after.cache.registry = registry := hfeeds.registry.trans hsame
  exact ⟨⟨notices, hnotices, hnone rid hnew⟩, mirror_of_passes (hafter ▸ hregistry)
    (hafter ▸ htameBirth.append.2) hfeeds.fit hrest hfirst hkind hlife⟩

def namedWorld : World :=
  { selfWorld with cache := (selfWorld.cache.handleEvent "a" "change" (some (.obj
    [("values", .obj [("name", .str "x"), ("next", .null)])]))).2 }

theorem mirror_shows_replica_named : ∃ first last news,
    selfWorld.cache.store.loaded? "a" = some first ∧
    namedWorld.cache.store.loaded? "a" = some last ∧
    namedWorld.cache.channel = selfWorld.cache.channel ++ news ∧ editsOf "a" news ≠ [] ∧
      first.content.mirror (editsOf "a" news) = some last.content := by
  let birth : Step := ⟨start .empty, .add selfBatch "a", none, selfWorld⟩
  let change : Action := .event "a" "change" (some (.obj
    [("values", .obj [("name", .str "x"), ("next", .null)])]))
  have htrace : Trace .empty ([] ++ birth :: [⟨selfWorld, change, none, namedWorld⟩]) namedWorld :=
    .step (.step .refl rfl) rfl
  have hmodel : (selfWorld.cache.store.loaded? "a").map (·.content.kind) = some .model := by rfl
  obtain ⟨first, hfirst, hkind⟩ := Option.map_eq_some_iff.mp hmodel
  have hkept : (namedWorld.cache.store.loaded? "a").isSome = true := by rfl
  obtain ⟨last, hlast⟩ := Option.isSome_iff_exists.mp hkept
  obtain ⟨_, news, content, hnews, hmirror, hsame⟩ := @mirror_shows_replica _ "a" _ _ _ _ first
    Registry.transparent_empty (.inl Registry.bare_empty) htrace rfl hfirst (by simp [hkind])
    fun step hmem => by
      rw [List.mem_singleton.mp hmem]
      exact loaded_selfWorld
  refine ⟨first, last, news, hfirst, hlast, hnews, ?_, hsame last hlast ▸ hmirror⟩
  have hsent : (editsOf "a" namedWorld.cache.channel).length = 1 := by rfl
  have hbefore : selfWorld.cache.channel = [] := by rfl
  rw [hnews, hbefore, List.nil_append] at hsent
  exact List.ne_nil_of_length_pos (by omega)

/-- New collections refer to a model before they are filled. -/
def planting (model collection : Hooks) : Registry :=
  ⟨.empty, .empty, fun _ => (∅, model), fun _ => ([.hard ⟨"m", .model, 0⟩], collection)⟩

theorem transparent_planting : (planting .pass .pass).Transparent := by
  refine ⟨fun rid => ?_, fun rid => ?_⟩
  · rw [Registry.createModel, planting, PatternMap.get?_empty]
    exact Hooks.transparent_pass
  · rw [Registry.createCollection, planting, PatternMap.get?_empty]
    exact Hooks.transparent_pass

def addStep (w : World) (batch : Batch) (rid : String) : Step :=
  ⟨w, .add batch rid, told (w.cache.add batch rid).1,
    { w with cache := (w.cache.add batch rid).2 }⟩

theorem Passes.addStep {w w' : World} {trace : List Step} (h : Passes w trace w') (batch : Batch)
    (rid : String) : Passes w (trace ++ [addStep w' batch rid]) (addStep w' batch rid).after :=
  .step h rfl

def targetStep (r : Registry) : Step :=
  addStep (start r) ⟨Dict.ofList [("m", ∅)], ∅, ∅⟩ "m"

def modelStep (r : Registry) : Step :=
  addStep (targetStep r).after ⟨Dict.ofList [("a", Dict.ofList [("n", Json.nat 1)])], ∅, ∅⟩ "a"

/-- A batch lists a resource as a model and as a collection. It becomes a collection that keeps what
it began with, a reference that nobody has counted. -/
def plantingStep (r : Registry) : Step :=
  addStep (modelStep r).after ⟨Dict.ofList [("x", ∅)], Dict.ofList [("x", [])], ∅⟩ "x"

def uprootingBatch : Batch :=
  ⟨Dict.ofList [("a", Dict.ofList [("n", Json.nat 2)])], Dict.ofList [("x", [])], ∅⟩

def uprootingStep (r : Registry) : Step := addStep (plantingStep r).after uprootingBatch "a"

def plantedSteps (r : Registry) : List Step :=
  [targetStep r, modelStep r, plantingStep r, uprootingStep r]

theorem passes_plantedSteps (r : Registry) :
    Passes (start r) (plantedSteps r) (uprootingStep r).after :=
  (((Passes.refl.addStep _ "m").addStep _ "a").addStep _ "x").addStep uprootingBatch "a"

theorem actions_plantedSteps (r : Registry) : (plantedSteps r).map (·.action) =
    [.add ⟨Dict.ofList [("m", ∅)], ∅, ∅⟩ "m",
      .add ⟨Dict.ofList [("a", Dict.ofList [("n", Json.nat 1)])], ∅, ∅⟩ "a",
      .add ⟨Dict.ofList [("x", ∅)], Dict.ofList [("x", [])], ∅⟩ "x",
      .add uprootingBatch "a"] := rfl

/-- When the reference that nobody has counted is given up the merge fails half way, and what it has
changed until then is not sent. -/
theorem mirror_misses_half_merge : ∃ past birth life now first,
    (planting .pass .pass).Transparent ∧ Trace (planting .pass .pass) (past ++ birth :: life) now ∧
    birth.before.cache.store.isLoaded "a" = false ∧
    birth.after.cache.store.loaded? "a" = some first ∧ first.content.kind ≠ .error ∧
    (∀ step ∈ life, step.before.cache.store.isLoaded "a" = true) ∧
    ¬ ∃ news content, now.cache.channel = birth.after.cache.channel ++ news ∧
      first.content.mirror (editsOf "a" news) = some content ∧
      ∀ r, now.cache.store.loaded? "a" = some r → r.content = content := by
  let r := planting .pass .pass
  let two : List Value := [.number (.int 2)]
  have hbirth : ((modelStep r).after.cache.store.loaded? "a").map
      (fun r => (r.content.kind, r.content.values == two)) = some (.model, false) := by
    decide +kernel
  obtain ⟨first, hfirst, hone⟩ := Option.map_eq_some_iff.mp hbirth
  obtain ⟨hkind, hone⟩ := Prod.mk.inj hone
  have hnow : ((uprootingStep r).after.cache.store.loaded? "a").map (·.content.values == two) =
      some true := by decide +kernel
  obtain ⟨last, hlast, htwo⟩ := Option.map_eq_some_iff.mp hnow
  have hsilent : (uprootingStep r).after.cache.channel.length = 0 := by decide +kernel
  refine ⟨[targetStep r], modelStep r, [plantingStep r, uprootingStep r], (uprootingStep r).after,
    first, transparent_planting, passes_plantedSteps r, by decide +kernel, hfirst,
    by simp [hkind], fun step hmem => ?_, ?_⟩
  · simp only [List.mem_cons, List.not_mem_nil, or_false] at hmem
    rcases hmem with rfl | rfl
    · decide +kernel
    · decide +kernel
  · rintro ⟨news, content, hnews, hmirror, hsame⟩
    have hnone : news = [] := by
      rw [hnews, List.length_append] at hsilent
      exact List.length_eq_zero_iff.mp (Nat.eq_zero_of_add_eq_zero_left hsilent)
    subst hnone
    cases hmirror
    rw [hsame last hlast, hone] at htwo
    cases htwo

end World

end LiveResource
