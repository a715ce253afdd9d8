import LiveResource.Proofs.Calls
import LiveResource.Proofs.Frames

set_option autoImplicit false

/-!
# The stages of a call

A call on a cache is made of store operations and of very few writes of its own. So a relation that
goes through store operations goes through a call from one such write to the next.
-/

namespace LiveResource

def Embeds (data : Option Json) (x : String) : Prop :=
  ∃ batch, Batch.ofJson (.obj (Op.membersOf data)) = .ok batch ∧ batch.contains x = true

def Brings (reply : Outcome Json) (x : String) : Prop :=
  ∃ snapshot batch, reply = .ok snapshot ∧ Batch.ofJson snapshot = .ok batch ∧
    batch.contains x = true

namespace Entry

def dropped (e : Entry) : Entry := { e with direct := 0, stale := false }

def claimed (e : Entry) (subscriptions : Nat) : Entry :=
  { e with direct := e.direct + subscriptions, stale := false }

def subscribed (e : Entry) : Entry := { e with direct := e.direct + 1 }

def unsubscribed (e : Entry) : Entry := { e with direct := e.direct - 1 }

def fetching (e : Entry) (shared : Ticket) : Entry := { e with subscribing := some shared }

def left (e : Entry) : Entry := { e with stale := false }

variable {e : Entry}

theorem handle?_eq_some {rid : String} {handle : Handle} (h : e.handle? rid = some handle) :
    ∃ kind r, e.kind = some kind ∧ e.replica = some r ∧ e.loaded = true ∧
      handle = ⟨rid, kind, r.id⟩ := by
  unfold handle? at h
  split at h
  · rename_i kind r hkind hr
    split at h
    · rename_i hl
      cases h
      exact ⟨kind, r, hkind, hr, hl, rfl⟩
    · cases h
  · cases h

theorem handle?_of_filled {rid : String} {kind : Kind} {r : Replica} (hkind : e.kind = some kind)
    (hr : e.replica = some r) (hl : e.loaded = true) :
    e.handle? rid = some ⟨rid, kind, r.id⟩ := by
  simp only [handle?, hkind, hr, hl, if_true]

end Entry

namespace Store

def issued (s : Store) : Store := { s with ledger := s.ledger.issue.2 }

theorem get?_obtain (s : Store) (rid : String) :
    (s.obtain rid).2.get? rid = some (s.obtain rid).1 := by
  cases he : s.get? rid with
  | some e =>
    rw [obtain_of_get? he]
    exact he
  | none =>
    rw [obtain_of_none he, get?_put]
    exact if_pos rfl

/-- Only a loaded resource without an error is claimed. -/
theorem claim_cases (s : Store) (rid : String) (subscriptions : Nat) :
    (∃ err, s.claim rid subscriptions = (.error err, s)) ∨
    ∃ e, s.get? rid = some e ∧ e.loaded = true ∧ e.fault? = none ∧
      (s.claim rid subscriptions).2 = s.put rid (e.claimed subscriptions) ∧
      ∀ handle, (s.claim rid subscriptions).1 = .ok handle ↔ e.handle? rid = some handle := by
  unfold claim
  cases he : s.get? rid with
  | none => exact .inl ⟨_, rfl⟩
  | some e =>
    obtain ⟨kind, replica, loaded, direct, indirect, pending, subscribing, stale⟩ := e
    cases loaded with
    | false => exact .inl ⟨_, rfl⟩
    | true =>
      simp only [if_true]
      split
      · exact .inl ⟨_, rfl⟩
      · rename_i hfault
        refine .inr ⟨_, rfl, rfl, hfault, ?_⟩
        split
        · rename_i handle hhandle
          refine ⟨rfl, fun handle' => ?_⟩
          rw [Except.ok.injEq, ← Option.some_inj]
          exact Eq.congr_left hhandle.symm
        · rename_i hnone
          exact ⟨rfl, fun handle => iff_of_false (fun heq => by cases heq) fun hsome => by
            cases hnone.symm.trans hsome⟩

variable {touched : String → Prop} {R : Store → Store → Prop} {rid : String} {data : Option Json}

theorem Frame.applyNamed (hF : Frame touched R) (hrid : touched rid) (kind : Option Kind)
    (name : String) (data : Option Json) : (Op.applyNamed rid kind name data).Within R := by
  unfold Op.applyNamed
  dsimp only
  split
  · split
    · exact hF.bind (hF.need rid name _) fun _ => hF.bind (hF.liftStore _) fun _ =>
        hF.applyChange hrid _
    · exact hF.applyCustom hrid name data
  · split
    · exact hF.bind (hF.need rid name _) fun _ => hF.bind (hF.need rid name _) fun _ =>
        hF.bind (hF.liftStore _) fun _ => hF.applyAdd hrid _ _
    · split
      · exact hF.bind (hF.need rid name _) fun _ => hF.applyRemove hrid _
      · exact hF.applyCustom hrid name data
  · exact hF.pure ()
  · exact hF.applyCustom hrid name data

namespace Upkeep

variable (hU : Upkeep touched R)

include hU

theorem applyEvent (registry : Registry) (hrid : touched rid) (h : ∀ x, Embeds data x → touched x)
    (kind : Option Kind) (name : String) :
    (Op.applyEvent registry rid kind name data).Within R := by
  cases hbatch : Op.hasBatch (Op.membersOf data) with
  | false =>
    rw [Op.applyEvent_of_not_hasBatch hbatch]
    exact hU.applyNamed hrid kind name data
  | true =>
    rw [Op.applyEvent_of_hasBatch hbatch]
    exact hU.bind (hU.mergeEmbedded registry rid name fun batch hof x hx =>
      h x ⟨batch, hof, hx⟩) fun _ => hU.applyNamed hrid kind name data

end Upkeep

theorem Purge.endSubscription (hP : Purge R) (rid : String) (reason : Fault) (w : Work) :
    R (w.store.modify rid Entry.dropped) ((Op.endSubscription rid reason).left w).store := by
  have hrest :
      (do let _ ← Op.tryDelete rid; Op.emit (.unsubscribe rid reason) : Op Unit).Within R :=
    hP.bind (hP.tryDelete rid) fun _ => hP.emit _
  exact hrest ⟨w.store.modify rid Entry.dropped, w.out⟩

end Store

namespace Cache

theorem store_run {α : Type} (c : Cache) (op : Op α) :
    (c.run op).2.2.store = (op.left ⟨c.store, {}⟩).store := by
  unfold run Op.left
  cases op ⟨c.store, {}⟩ <;> rfl

/-- A caller who wants a resource that is subscribed waits for its first contents. Any other one
joins a network subscribe that is in flight, or begins one. -/
theorem subscribe_cases (c : Cache) (rid : String) :
    ∃ e s, c.store.obtain rid = (e, s) ∧ s.get? rid = some e ∧ e.direct = c.store.direct rid ∧
      (0 < e.direct ∧ c.subscribe rid =
          (.loading rid e.pending, { c with store := s.put rid e.subscribed }) ∨
        e.direct = 0 ∧ (∃ shared, e.subscribing = some shared ∧
          c.subscribe rid = (.joined rid shared, { c with store := s })) ∨
        e.direct = 0 ∧ e.subscribing = none ∧ c.subscribe rid = (.fetching rid s.ledger.next,
          { c with store := s.issued.put rid (e.fetching s.ledger.next) })) := by
  have hobtain : c.store.Keeps (fun _ => False) (c.store.obtain rid).2 := .obtain c.store rid
  have hget := Store.get?_obtain c.store rid
  have hdirect := (Store.direct_of_get? hget).symm.trans (hobtain.direct rid)
  unfold subscribe
  generalize c.store.obtain rid = obtained at hget hdirect
  obtain ⟨e, s⟩ := obtained
  refine ⟨e, s, rfl, hget, hdirect, ?_⟩
  dsimp only at hdirect ⊢
  by_cases hpos : 0 < e.direct
  · rw [if_pos hpos]
    exact .inl ⟨hpos, rfl⟩
  · have hzero : e.direct = 0 := by omega
    rw [if_neg hpos]
    cases hmarker : e.subscribing with
    | some shared => exact .inr (.inl ⟨hzero, shared, rfl, rfl⟩)
    | none => exact .inr (.inr ⟨hzero, rfl, rfl⟩)

/-- To unsubscribe gives one subscription up. For the last one the server is asked, unless the
resource is stale. -/
theorem unsubscribe_cases (c : Cache) (rid : String) :
    (c.store.direct rid = 0 ∧
      c.unsubscribe rid = (.error (CacheError.notSubscribed rid).toFault, c)) ∨
    ∃ e, c.store.get? rid = some e ∧ 0 < e.direct ∧
      (1 < e.direct ∧ c.unsubscribe rid =
          (.ok .done, { c with store := c.store.put rid e.unsubscribed }) ∨
        e.direct = 1 ∧ e.stale = false ∧ c.unsubscribe rid =
          (.ok .asking, { c with store := c.store.put rid e.unsubscribed }) ∨
        e.direct = 1 ∧ e.stale = true ∧
          ∃ left, { c with store := c.store.put rid e.unsubscribed }.leave rid = left ∧
            c.unsubscribe rid = (left.1.map fun _ => .done, left.2)) := by
  unfold unsubscribe
  cases he : c.store.get? rid with
  | none =>
    refine .inl ⟨?_, rfl⟩
    unfold Store.direct
    rw [he]
  | some e =>
    dsimp only
    by_cases hzero : e.direct = 0
    · rw [if_pos hzero]
      exact .inl ⟨(Store.direct_of_get? he).trans hzero, rfl⟩
    · rw [if_neg hzero]
      refine .inr ⟨e, rfl, Nat.pos_of_ne_zero hzero, ?_⟩
      by_cases hmany : 1 < e.direct
      · rw [if_pos hmany]
        exact .inl ⟨hmany, rfl⟩
      · rw [if_neg hmany]
        have hone : e.direct = 1 := by omega
        unfold Entry.unsubscribed
        by_cases hstale : e.stale = true
        · refine .inr (.inr ⟨hone, hstale, _, rfl, ?_⟩)
          rw [if_pos hstale]
          split <;> rename_i hleft <;> rw [hleft] <;> rfl
        · rw [if_neg hstale]
          exact .inr (.inl ⟨hone, Bool.not_eq_true _ ▸ hstale, rfl⟩)

/-- Who has joined a network subscribe shares its fault, or finds nothing cached, or is counted. -/
theorem join_cases (c : Cache) (rid : String) (outcome : Outcome Unit) :
    (∃ fault, outcome = .error fault ∧ c.join rid outcome = (.error fault, c)) ∨
    (outcome = .ok () ∧ c.store.get? rid = none ∧
      c.join rid outcome = (.error (CacheError.notFound rid).toFault, c)) ∨
    ∃ e, outcome = .ok () ∧ c.store.get? rid = some e ∧ c.join rid outcome =
      (.ok e.pending, { c with store := c.store.put rid e.subscribed }) := by
  unfold join
  cases outcome with
  | error fault => exact .inl ⟨fault, rfl, rfl⟩
  | ok _ =>
    cases he : c.store.get? rid with
    | none => exact .inr (.inl ⟨rfl, rfl, rfl⟩)
    | some e => exact .inr (.inr ⟨e, rfl, rfl, rfl⟩)

end Cache

namespace Store.Purge

variable {R : Store → Store → Prop} (hP : Purge R)

include hP

theorem flush (c : Cache) (out : Output) : R c.store (c.flush out).2.store := by
  have hstore := Cache.store_run { c with
    channel := c.channel ++ out.events.map Notice.resource ++
      out.errors.map Notice.cacheError } (Op.collect out.orphans)
  have hleft := hP.collect out.orphans ⟨c.store, {}⟩
  rw [← hstore] at hleft
  exact hleft

theorem leave (c : Cache) (rid : String) :
    ((∀ e, c.store.get? rid = some e → 0 < e.direct) ∧ c.leave rid = (.ok (), c)) ∨
    ∃ e, c.store.get? rid = some e ∧ e.direct = 0 ∧
      R (c.store.put rid e.left) (c.leave rid).2.store := by
  unfold Cache.leave
  cases he : c.store.get? rid with
  | none => exact .inl ⟨fun e heq => (by cases heq), rfl⟩
  | some e =>
    dsimp only
    split
    · rename_i hzero
      refine .inr ⟨e, rfl, hzero, ?_⟩
      have hdelete := hP.tryDelete rid ⟨c.store.put rid e.left, {}⟩
      rw [← Cache.store_run { c with store := c.store.put rid e.left }] at hdelete
      unfold Entry.left at hdelete ⊢
      split <;> rename_i hrun <;> rw [hrun] at hdelete <;> exact hdelete
    · rename_i hpos
      refine .inl ⟨fun e' he' => ?_, rfl⟩
      cases he'
      exact Nat.pos_of_ne_zero hpos

theorem dropSubscription (c : Cache) (rid : String) (reason : Fault) :
    R (c.store.modify rid Entry.dropped) (c.dropSubscription rid reason).store := by
  have hend := hP.endSubscription rid reason ⟨c.store, {}⟩
  rw [← Cache.store_run c] at hend
  unfold Cache.dropSubscription
  split
  · rename_i hrun
    rw [hrun] at hend
    exact hend
  · rename_i out c' hrun
    rw [hrun] at hend
    have hflush := hP.trans hend (hP.flush c' out)
    split <;> rename_i hdone <;> rw [hdone] at hflush <;> exact hflush

end Store.Purge

theorem Cache.ledger_leave (c : Cache) (rid : String) :
    (c.leave rid).2.store.ledger = c.store.ledger := by
  rcases Store.Purged.purge.leave c rid with ⟨_, hsame⟩ | ⟨_, _, _, hpurged⟩
  · rw [hsame]
  · exact hpurged.ledger

namespace Store.Upkeep

variable {touched : String → Prop} {R : Store → Store → Prop} {batch : Batch} {rid : String}
  {data : Option Json} {reply : Outcome Json} (hU : Upkeep touched R)

include hU

theorem merge (c : Cache) (batch : Batch) (h : ∀ x, batch.contains x = true → touched x)
    (rid : String) (subscriptions : Nat) :
    (R c.store (c.merge batch rid subscriptions).2.store ∧
      ∃ err, (c.merge batch rid subscriptions).1 = .error err) ∨
    ∃ s e, R c.store s ∧ s.get? rid = some e ∧ e.loaded = true ∧ e.fault? = none ∧
      R (s.put rid (e.claimed subscriptions)) (c.merge batch rid subscriptions).2.store ∧
      (s.put rid (e.claimed subscriptions)).Purged (c.merge batch rid subscriptions).2.store ∧
      ∀ handle, (c.merge batch rid subscriptions).1 = .ok handle →
        e.handle? rid = some handle := by
  have hadd := hU.addResources c.registry h ⟨c.store, {}⟩
  unfold Cache.merge Cache.run
  cases hrun : Op.addResources c.registry batch ⟨c.store, {}⟩ with
  | error err w =>
    rw [Op.left_of_error hrun] at hadd
    exact .inl ⟨hadd, err, rfl⟩
  | ok created w =>
    rw [Op.left_of_ok hrun] at hadd
    have hget (s : Store) (rid x : String) : (s.settleLoaded rid).get? x = s.get? x := by
      unfold Store.settleLoaded
      split <;> rfl
    have htell : R w.store (created.foldl Store.settleLoaded w.store) :=
      hU.foldl_tell hget hU.settleLoaded (Op.isLoaded_of_addResources hrun)
    have hbefore := hU.trans hadd htell
    dsimp only
    rcases claim_cases (created.foldl Store.settleLoaded w.store) rid subscriptions with
      ⟨err, hclaim⟩ | ⟨e, he, hl, hfault, hclaim, hhandle⟩
    · have hflush := hU.flush
        { c with store := created.foldl Store.settleLoaded w.store }
        { w.out with orphans := w.out.orphans ++ created }
      rw [hclaim]
      refine .inl ⟨?_, ?_⟩
      · dsimp only at hflush ⊢
        split <;> rename_i hend <;> rw [hend] at hflush <;> exact hU.trans hbefore hflush
      · dsimp only
        split
        · exact ⟨_, rfl⟩
        · exact ⟨err, rfl⟩
    · refine .inr ⟨_, e, hbefore, he, hl, hfault, ?_⟩
      generalize (created.foldl Store.settleLoaded w.store).claim rid subscriptions = claim
        at hclaim hhandle ⊢
      obtain ⟨result, s⟩ := claim
      dsimp only at hclaim hhandle ⊢
      have hflush := hU.flush { c with store := s }
        { w.out with orphans := w.out.orphans ++ created }
      have hpurged := Purged.purge.flush { c with store := s }
        { w.out with orphans := w.out.orphans ++ created }
      rw [← hclaim]
      split <;> rename_i hend <;> rw [hend] at hflush hpurged
      · exact ⟨hflush, hpurged, fun handle heq => by cases heq⟩
      · exact ⟨hflush, hpurged, fun handle heq => (hhandle handle).mp heq⟩

theorem mergeReply (c : Cache) (h : ∀ x, Brings reply x → touched x) (rid : String)
    (subscriptions : Nat) :
    (R c.store (c.mergeReply rid subscriptions reply).2.store ∧
      ∃ fault, (c.mergeReply rid subscriptions reply).1 = .error fault) ∨
    ∃ s e, R c.store s ∧ s.get? rid = some e ∧ e.loaded = true ∧ e.fault? = none ∧
      R (s.put rid (e.claimed subscriptions)) (c.mergeReply rid subscriptions reply).2.store ∧
      (s.put rid (e.claimed subscriptions)).Purged (c.mergeReply rid subscriptions reply).2.store ∧
      ∀ handle, (c.mergeReply rid subscriptions reply).1 = .ok handle →
        e.handle? rid = some handle := by
  unfold Cache.mergeReply
  cases reply with
  | error fault => exact .inl ⟨hU.refl _, fault, rfl⟩
  | ok snapshot =>
    dsimp only
    cases hbatch : Batch.ofJson snapshot with
    | error err => exact .inl ⟨hU.refl _, _, rfl⟩
    | ok batch =>
      dsimp only
      have hmerge := hU.merge c batch (fun x hx => h x ⟨snapshot, batch, rfl, hbatch, hx⟩) rid
        subscriptions
      generalize c.merge batch rid subscriptions = merged at hmerge
      obtain ⟨result, c'⟩ := merged
      cases result with
      | ok handle =>
        rcases hmerge with ⟨_, err, herr⟩ | ⟨s, e, hs, he, hl, hfault, hrest, hpurged, hhandle⟩
        · cases herr
        · refine .inr ⟨s, e, hs, he, hl, hfault, hrest, hpurged, fun handle' heq => ?_⟩
          cases heq
          exact hhandle handle rfl
      | error err =>
        rcases hmerge with ⟨hstore, _⟩ | ⟨s, e, hs, he, hl, hfault, hrest, hpurged, _⟩
        · exact .inl ⟨hstore, _, rfl⟩
        · exact .inr ⟨s, e, hs, he, hl, hfault, hrest, hpurged, fun handle heq => by cases heq⟩

/-- An event is dropped, or ends the subscriptions of its resource, or is applied. -/
theorem handleEvent (c : Cache) (rid name : String) (data : Option Json) (hrid : touched rid)
    (h : ∀ x, Embeds data x → touched x) : (c.handleEvent rid name data).2.store = c.store ∨
    (name = "unsubscribe" ∧
      R (c.store.modify rid Entry.dropped) (c.handleEvent rid name data).2.store) ∨
    (name ≠ "unsubscribe" ∧ R c.store (c.handleEvent rid name data).2.store) := by
  unfold Cache.handleEvent
  split
  · exact .inl rfl
  · rename_i e he
    split
    · exact .inl rfl
    · have hflush {s : Store}
          (hrun : R s (c.run (Cache.eventOp c.registry e rid name data)).2.2.store) :
          R s ((c.run (Cache.eventOp c.registry e rid name data)).2.2.flush
            (c.run (Cache.eventOp c.registry e rid name data)).2.1).2.store :=
        hU.trans hrun (hU.flush _ _)
      have hend : (name = "unsubscribe" ∧ R (c.store.modify rid Entry.dropped)
            (c.run (Cache.eventOp c.registry e rid name data)).2.2.store) ∨
          (name ≠ "unsubscribe" ∧
            R c.store (c.run (Cache.eventOp c.registry e rid name data)).2.2.store) := by
        rw [Cache.store_run]
        unfold Cache.eventOp
        by_cases hname : name = "unsubscribe"
        · simp only [if_pos hname]
          exact .inl ⟨hname, hU.endSubscription rid _ ⟨c.store, {}⟩⟩
        · simp only [if_neg hname]
          exact .inr ⟨hname, hU.applyEvent c.registry hrid h e.kind name ⟨c.store, {}⟩⟩
      have hboth := hend.imp (And.imp_right hflush) (And.imp_right hflush)
      generalize c.run (Cache.eventOp c.registry e rid name data) = ran at hboth
      obtain ⟨applied, out, c'⟩ := ran
      dsimp only at hboth ⊢
      generalize c'.flush out = flushed at hboth
      obtain ⟨result, c''⟩ := flushed
      cases result with
      | error err => exact .inr hboth
      | ok _ =>
        cases applied with
        | error err => exact .inr hboth
        | ok _ => exact .inr hboth

end Store.Upkeep

end LiveResource
