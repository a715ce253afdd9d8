import LiveResource.Proofs.Contradictions
import LiveResource.Proofs.Resync
import LiveResource.Proofs.Telling

set_option autoImplicit false

/-!
# Resubscribing what is stale

When a connection has been made again, every stale resource is subscribed again. The replies are
merged one after another, in any order. Each of them makes its resource up to date or ends the
subscriptions to it, and neither counts nor ends the subscriptions to any other resource, whatever
it does to the contents of that one. So nothing is stale when the last reply has come, and each
resource whose resubscription has failed is told to be lost, once.
-/

namespace LiveResource

def Notice.ending? (rid : String) : Notice → Option Fault
  | .resource (.unsubscribe x reason) => if x = rid then some reason else none
  | _ => none

def endings (rid : String) (news : List Notice) : List Fault := news.filterMap (·.ending? rid)

theorem endings_append (rid : String) (news more : List Notice) :
    endings rid (news ++ more) = endings rid news ++ endings rid more :=
  List.filterMap_append

/-- Among all that is sent after an operation, the ends of subscriptions can be told apart. -/
theorem Output.endings_notices (out : Output) (rid : String) : endings rid out.notices =
    endings rid ((out.events.filter (·.isEnd)).map .resource) := by
  have herrors : endings rid (out.errors.map .cacheError) = [] := by
    refine List.filterMap_eq_nil_iff.mpr fun notice hnotice => ?_
    obtain ⟨err, _, rfl⟩ := List.mem_map.mp hnotice
    rfl
  rw [notices, endings_append, herrors, List.append_nil]
  unfold endings
  rw [List.filterMap_map, List.filterMap_map, List.filterMap_filter]
  refine List.filterMap_congr fun event _ => ?_
  cases event <;> rfl

namespace Store

variable {s : Store} {rid : String}

theorem isStale_iff : s.isStale rid = true ↔ ∃ e, s.get? rid = some e ∧ e.stale = true := by
  unfold isStale
  cases s.get? rid <;> simp

theorem mem_staleRids_iff : rid ∈ s.staleRids ↔ s.isStale rid = true := by
  unfold staleRids
  rw [Dict.mem_keys_iff, isStale_iff]
  simp only [Dict.get?_filter, Option.filter_eq_some_iff]
  exact Iff.rfl

theorem nodup_staleRids (s : Store) : s.staleRids.Nodup := Dict.nodup_keys _

theorem Fair.direct_pos (h : s.Fair) (hstale : s.isStale rid = true) : 0 < s.direct rid := by
  refine Nat.pos_of_ne_zero fun hzero => ?_
  rw [h rid hzero] at hstale
  cases hstale

end Store

namespace Cache

variable {root : String → Prop} {extra : String → Nat} {c c' c'' : Cache} {rid : String}
  {batch : Batch} {reply : Outcome Json} {handle : Handle} {reasons reasons' : String → List Fault}

def Ended (reasons : String → List Fault) (c c' : Cache) : Prop :=
  ∃ news, c'.channel = c.channel ++ news ∧ ∀ x, endings x news = reasons x

theorem Ended.of_channel (h : c'.channel = c.channel) : c.Ended (fun _ => []) c' :=
  ⟨[], by rw [h, List.append_nil], fun _ => rfl⟩

theorem Ended.trans (h : Ended reasons c c') (h' : Ended reasons' c' c'') :
    Ended (fun x => reasons x ++ reasons' x) c c'' := by
  obtain ⟨news, hnews, hreasons⟩ := h
  obtain ⟨news', hnews', hreasons'⟩ := h'
  refine ⟨news ++ news', by rw [hnews', hnews, List.append_assoc], fun x => ?_⟩
  rw [endings_append, hreasons, hreasons']

theorem flush_ended (c : Cache) (out : Output) :
    c.Ended (fun x => endings x out.notices) (c.flush out).2 := by
  refine ⟨out.notices, ?_, fun _ => rfl⟩
  unfold flush run Output.notices
  dsimp only
  split <;> exact List.append_assoc _ _ _

theorem report_ended (c : Cache) (err : CacheError) : c.Ended (fun _ => []) (c.report err).2 :=
  ⟨[.cacheError err], rfl, fun _ => rfl⟩

theorem merge_ended (c : Cache) (batch : Batch) (rid : String) (subscriptions : Nat) :
    c.Ended (fun _ => []) (c.merge batch rid subscriptions).2 := by
  cases hrun : Op.addResources c.registry batch ⟨c.store, {}⟩ with
  | error err w => exact .of_channel (by simp only [merge, run, hrun])
  | ok created w =>
    have hends := Op.Endless.addResources c.registry batch _ _ _ hrun
    have hflush := flush_ended
      { c with store := ((created.foldl Store.settleLoaded w.store).claim rid subscriptions).2 }
      { w.out with orphans := w.out.orphans ++ created }
    simp only [Output.endings_notices, hends] at hflush
    simp only [merge, run, hrun]
    generalize Cache.flush _ _ = flushed at hflush ⊢
    obtain ⟨_ | _, c'⟩ := flushed <;> exact hflush

theorem dropSubscription_ended (h : c.Kept extra root) (rid : String) (reason : Fault) :
    c.Ended (fun x => if rid = x then [reason] else []) (c.dropSubscription rid reason) := by
  obtain ⟨w, hrun, hsteady⟩ := @Op.endSubscription_spec _ _ rid _ h.steady reason
  obtain ⟨c', hflush, _, _⟩ :=
    @flush_spec root ⟨c.registry, w.store, c.channel⟩ extra w.out h.registry hsteady h.silent
  have hreasons : (fun x => endings x w.out.notices) =
      fun x => if rid = x then [reason] else [] := by
    funext x
    rw [Output.endings_notices, Op.told_of_endSubscription hrun]
    by_cases hx : rid = x
    · subst hx
      simp [endings, Notice.ending?, ResourceEvent.isEnd]
    · simp [endings, Notice.ending?, ResourceEvent.isEnd, hx]
  have hended := flush_ended ⟨c.registry, w.store, c.channel⟩ w.out
  rw [hflush, hreasons] at hended
  simp only [dropSubscription, run, hrun, hflush]
  exact hended

/-- A reply brings a batch that is merged, and its resource can be held then. -/
def Accepts (c : Cache) (rid : String) (reply : Outcome Json) (batch : Batch) : Prop :=
  ∃ snapshot handle, reply = .ok snapshot ∧ Batch.ofJson snapshot = .ok batch ∧
    (c.resubscribe batch rid).1 = .ok handle

/-- To resubscribe a resource fails for this reason: the server refuses, its reply is no batch, or
the batch cannot be merged or leaves nothing that could be held. -/
inductive Fails (c : Cache) (rid : String) : Outcome Json → Fault → Prop
  | refused (reason : Fault) : Fails c rid (.error reason) reason
  | malformed {snapshot : Json} {flaw : DecodeError} : Batch.ofJson snapshot = .error flaw →
    Fails c rid (.ok snapshot) (CacheError.malformedSnapshot flaw).toFault
  | unmerged {snapshot : Json} {batch : Batch} {err : CacheError} :
    Batch.ofJson snapshot = .ok batch → (c.resubscribe batch rid).1 = .error err →
    Fails c rid (.ok snapshot) err.toFault

/-- A reply makes a resource up to date. If its batch lists the resource, this shows just what the
batch has for it. -/
def Renews (rid : String) (reply : Outcome Json) (c c' : Cache) : Prop :=
  ∃ batch, c.Accepts rid reply batch ∧ (batch.contains rid = true →
    ∃ snapshot shown, batch.content? rid = some snapshot ∧
      c'.store.content? rid = some shown ∧ (shown == snapshot) = true)

/-- A reply gives hold of its resource or fails. It ends no subscription yet. -/
theorem mergeReply_cases (c : Cache) (rid : String) (reply : Outcome Json) :
    (∃ handle c', c.mergeReply rid 0 reply = (.ok handle, c') ∧ c.Ended (fun _ => []) c' ∧
      ∃ batch, c.Accepts rid reply batch) ∨
    ∃ reason c', c.mergeReply rid 0 reply = (.error reason, c') ∧ c.Ended (fun _ => []) c' ∧
      c.Fails rid reply reason := by
  cases reply with
  | error fault => exact .inr ⟨fault, c, rfl, .of_channel rfl, .refused fault⟩
  | ok snapshot =>
    cases hbatch : Batch.ofJson snapshot with
    | error flaw =>
      refine .inr ⟨_, _, ?_, report_ended c (.malformedSnapshot flaw), .malformed hbatch⟩
      simp only [mergeReply, hbatch]
      rfl
    | ok batch =>
      have hended := merge_ended c batch rid 0
      cases hmerge : c.merge batch rid 0 with
      | mk result c' =>
        rw [hmerge] at hended
        cases result with
        | ok handle =>
          refine .inl ⟨handle, c', by simp only [mergeReply, hbatch, hmerge], hended, batch, ?_⟩
          exact ⟨snapshot, handle, rfl, hbatch, congrArg Prod.fst hmerge⟩
        | error err =>
          refine .inr ⟨_, _, ?_, hended.trans (report_ended c' err),
            .unmerged hbatch (congrArg Prod.fst hmerge)⟩
          simp only [mergeReply, hbatch, hmerge]
          rfl

theorem renews_of_accepts (h : c.Kept extra root) (hdisjoint : RepliesDisjoint reply)
    (haccepts : c.Accepts rid reply batch) (hok : (c.mergeReply rid 0 reply).1 = .ok handle)
    (hpos : 0 < (c.resubscribed rid reply).store.direct rid) :
    Renews rid reply c (c.resubscribed rid reply) := by
  refine ⟨batch, haccepts, fun hlisted => ?_⟩
  obtain ⟨snapshot, handle', rfl, hbatch, hmerge⟩ := haccepts
  have hbatch' : batch.Disjoint := hdisjoint snapshot batch rfl hbatch
  obtain ⟨kind, hlists⟩ := Batch.contains_iff.mp hlisted
  have hkind : kind ≠ .error := ne_error_of_merge h hbatch' hlists hmerge
  obtain ⟨content, hcontent⟩ : ∃ content, batch.content? rid = some content := by
    rcases merge_run h hbatch' rid 0 with
      ⟨err, hrefused, _⟩ | ⟨created, w, c', _, hmerges, _⟩
    · rw [resubscribe, hrefused] at hmerge
      cases hmerge
    · obtain ⟨_, _, _, hread, _⟩ := hmerges.shows rid kind hlists
      exact Store.content?_of_snapshot hbatch' hlists hkind hread
  obtain ⟨shown, hshown, hnormal⟩ :=
    resubscribed_shows h hdisjoint ⟨snapshot, batch, rfl, hbatch, hcontent⟩ hok hpos
  exact ⟨content, shown, hcontent, hshown, (Content.beq_iff_normal shown content).mpr hnormal⟩

/-- What has come of a reply to a resubscription: the resource is up to date and its subscriptions
are still counted, or these have been ended for a reason. -/
inductive Settles (rid : String) (reply : Outcome Json) (c c' : Cache) : Nat → List Fault → Prop
  | renewed : Renews rid reply c c' → Settles rid reply c c' (c.store.direct rid) []
  | dropped {reason : Fault} : c.Fails rid reply reason → Settles rid reply c c' 0 [reason]

/-- Whatever the reply is, its resource is not stale any more, and the subscriptions to other
resources are the same as before. -/
theorem resubscribed_settles (h : c.Kept extra root) (hfair : c.store.Fair)
    (hpos : 0 < c.store.direct rid) (hdisjoint : RepliesDisjoint reply) :
    ∃ n reasons, Settles rid reply c (c.resubscribed rid reply) n reasons ∧
      c.Ended (fun x => if rid = x then reasons else []) (c.resubscribed rid reply) ∧
      (c.resubscribed rid reply).store.tally = Function.update c.store.tally rid (n, false) := by
  have htally := resubscribed_tally hfair rid reply
  rcases mergeReply_cases c rid reply with
    ⟨handle, c', hmerged, hended, batch, haccepts⟩ | ⟨reason, c', hmerged, hended, hfails⟩
  · rw [hmerged] at htally
    have hrenews : Renews rid reply c (c.resubscribed rid reply) :=
      renews_of_accepts h hdisjoint haccepts (congrArg Prod.fst hmerged)
        (Store.direct_self htally ▸ hpos)
    refine ⟨_, _, .renewed hrenews, ?_, htally⟩
    simpa only [resubscribed, hmerged, ite_self] using hended
  · rw [hmerged] at htally
    refine ⟨_, _, .dropped hfails, ?_, htally⟩
    have hkept := (mergeReply_spec h (.inr hdisjoint) rid 0).kept hdisjoint
    rw [hmerged] at hkept
    simpa only [resubscribed, hmerged, List.nil_append] using
      hended.trans (dropSubscription_ended hkept rid reason)

end Cache

namespace World

variable {registry : Registry} {w w₁ w' : World} {past trace : List Step} {step : Step}
  {replies : List (String × Outcome Json)} {rid : String} {reply : Outcome Json} {reason : Fault}
  {news more : List Notice} {root : String → Prop} {extra : String → Nat}

/-- All stale resources are subscribed again, and the replies come in this order while nothing else
happens. -/
structure Resubscribes (w : World) (replies : List (String × Outcome Json)) (trace : List Step)
    (w' : World) : Prop where
  passes : Passes w trace w'
  actions : trace.map (·.action) =
    .subscribeStale :: replies.map fun p => .resubscribed p.1 p.2
  answered : w'.resubscribing = []

/-- A resource has been made up to date by a reply. No subscription to it has been lost. -/
structure Renewed (w : World) (trace : List Step) (w' : World) (news : List Notice) (rid : String)
    (reply : Outcome Json) : Prop where
  turn : ∃ step ∈ trace, step.action = .resubscribed rid reply ∧
    Cache.Renews rid reply step.before.cache step.after.cache
  kept : w'.cache.store.direct rid = w.cache.store.direct rid
  untold : endings rid news = []

/-- To resubscribe a resource has failed for this reason. All subscriptions to it have been lost,
and this has been told once. -/
structure Dropped (trace : List Step) (w' : World) (news : List Notice) (rid : String)
    (reply : Outcome Json) (reason : Fault) : Prop where
  turn : ∃ step ∈ trace, step.action = .resubscribed rid reply ∧
    step.before.cache.Fails rid reply reason
  lost : w'.cache.store.direct rid = 0
  told : endings rid news = [reason]

theorem cache_of_subscribeStale {err : Option CacheError}
    (hstep : w.perform .subscribeStale = some (err, w')) : w'.cache = w.cache := by
  cases hstep
  rfl

theorem cache_of_resubscribed {err : Option CacheError}
    (hstep : w.perform (.resubscribed rid reply) = some (err, w')) :
    w'.cache = w.cache.resubscribed rid reply := by
  cases acts_of_perform hstep
  rfl

theorem Renewed.after (h : Renewed w₁ trace w' more rid reply)
    (hdirect : w₁.cache.store.direct rid = w.cache.store.direct rid) (hnews : endings rid news = [])
    (step : Step) : Renewed w (step :: trace) w' (news ++ more) rid reply := by
  obtain ⟨turn, hturn, hrenews⟩ := h.turn
  refine ⟨⟨turn, List.mem_cons_of_mem _ hturn, hrenews⟩, h.kept.trans hdirect, ?_⟩
  rw [endings_append, hnews, h.untold, List.append_nil]

theorem Dropped.after (h : Dropped trace w' more rid reply reason) (hnews : endings rid news = [])
    (step : Step) : Dropped (step :: trace) w' (news ++ more) rid reply reason := by
  obtain ⟨turn, hturn, hfails⟩ := h.turn
  refine ⟨⟨turn, List.mem_cons_of_mem _ hturn, hfails⟩, h.lost, ?_⟩
  rw [endings_append, hnews, h.told, List.nil_append]

/-- What a reply has come to lasts as long as nothing else comes for its resource. -/
theorem settled_of_first {n : Nat} {reasons : List Fault}
    (hsettles : Cache.Settles rid reply step.before.cache step.after.cache n reasons)
    (haction : step.action = .resubscribed rid reply) (hnews : endings rid news = reasons)
    (hdirect : w'.cache.store.direct rid = n) (hmore : endings rid more = []) :
    Renewed step.before (step :: trace) w' (news ++ more) rid reply ∨
      ∃ reason, Dropped (step :: trace) w' (news ++ more) rid reply reason := by
  have htold : endings rid (news ++ more) = reasons := by
    rw [endings_append, hnews, hmore, List.append_nil]
  cases hsettles with
  | renewed hrenews =>
    exact .inl ⟨⟨step, List.mem_cons_self, haction, hrenews⟩, hdirect, htold⟩
  | dropped hfails =>
    exact .inr ⟨_, ⟨step, List.mem_cons_self, haction, hfails⟩, hdirect, htold⟩

/-- Replies that come one after another settle their resources, each its own one. -/
theorem settled_of_passes (h : w.cache.Kept extra root) (hfair : w.cache.store.Fair)
    (hpasses : Passes w trace w')
    (hactions : trace.map (·.action) = replies.map fun p => .resubscribed p.1 p.2)
    (hnodup : (replies.map (·.1)).Nodup) (hpos : ∀ p ∈ replies, 0 < w.cache.store.direct p.1)
    (hdisjoint : ∀ p ∈ replies, Cache.RepliesDisjoint p.2) :
    ∃ news, w'.cache.channel = w.cache.channel ++ news ∧
      (∀ p ∈ replies, w'.cache.store.isStale p.1 = false ∧
        (Renewed w trace w' news p.1 p.2 ∨ ∃ reason, Dropped trace w' news p.1 p.2 reason)) ∧
      ∀ x, x ∉ replies.map (·.1) →
        w'.cache.store.tally x = w.cache.store.tally x ∧ endings x news = [] := by
  induction replies generalizing w trace with
  | nil =>
    rw [List.map_nil, List.map_eq_nil_iff] at hactions
    subst hactions
    cases hpasses.eq_of_nil
    exact ⟨[], (List.append_nil _).symm, fun p hp => (by cases hp), fun x _ => ⟨rfl, rfl⟩⟩
  | cons p rest ih =>
    obtain ⟨rid, reply⟩ := p
    obtain ⟨step, later, rfl, haction, hlater⟩ := List.map_eq_cons_iff.mp hactions
    obtain ⟨rfl, hstep, hpasses'⟩ := hpasses.uncons
    obtain ⟨hnew, hnodup'⟩ := List.nodup_cons.mp hnodup
    have hreply := hdisjoint _ List.mem_cons_self
    have hafter := cache_of_resubscribed (haction ▸ hstep)
    obtain ⟨n, reasons, hsettles, ⟨told, htold, hreasons⟩, htally⟩ :=
      Cache.resubscribed_settles h hfair (hpos _ List.mem_cons_self) hreply
    have hkept := (Cache.resubscribed_spec h (.inr hreply) rid).kept hreply
    have hfair' := Cache.resubscribed_fair hfair rid reply
    rw [← hafter] at hsettles htold htally hkept hfair'
    have hother {x : String} (hx : x ≠ rid) :
        step.after.cache.store.direct x = step.before.cache.store.direct x ∧
          endings x told = [] :=
      ⟨congrArg Prod.fst (Store.tally_of_ne htally hx), (hreasons x).trans (if_neg (Ne.symm hx))⟩
    have hne {p : String × Outcome Json} (hp : p ∈ rest) : p.1 ≠ rid := fun heq =>
      hnew (List.mem_map.mpr ⟨p, hp, heq⟩)
    obtain ⟨more, hmore, hsettled, hsame⟩ := ih hkept hfair' hpasses' hlater hnodup'
      (fun p hp => (hother (hne hp)).1 ▸ hpos p (List.mem_cons_of_mem _ hp))
      fun p hp => hdisjoint p (List.mem_cons_of_mem _ hp)
    refine ⟨told ++ more, by rw [hmore, htold, List.append_assoc], fun p hp => ?_, fun x hx => ?_⟩
    · rcases List.mem_cons.mp hp with rfl | hp
      · obtain ⟨htally', hmore'⟩ := hsame rid hnew
        have hself := htally'.trans (Store.tally_self htally)
        exact ⟨congrArg Prod.snd hself, settled_of_first hsettles haction
          ((hreasons rid).trans (if_pos rfl)) (congrArg Prod.fst hself) hmore'⟩
      · obtain ⟨hdirect, hnone⟩ := hother (hne hp)
        obtain ⟨hfresh, hrenewed | ⟨reason, hdropped⟩⟩ := hsettled p hp
        · exact ⟨hfresh, .inl (hrenewed.after hdirect hnone step)⟩
        · exact ⟨hfresh, .inr ⟨reason, hdropped.after hnone step⟩⟩
    · obtain ⟨hrid, hrest⟩ := not_or.mp (mt List.mem_cons.mpr hx)
      obtain ⟨htally', hmore'⟩ := hsame x hrest
      refine ⟨htally'.trans (Store.tally_of_ne htally hrid), ?_⟩
      rw [endings_append, (hother hrid).2, hmore', List.append_nil]

/-- Replies may come in any order. -/
theorem exists_passes_resubscribed (h : (replies.map (·.1)).Perm w.resubscribing) :
    ∃ trace w', Passes w trace w' ∧
      trace.map (·.action) = replies.map (fun p => .resubscribed p.1 p.2) ∧
      w'.resubscribing = [] := by
  induction replies generalizing w with
  | nil => exact ⟨[], w, .refl, rfl, h.symm.eq_nil⟩
  | cons p rest ih =>
    obtain ⟨rid, reply⟩ := p
    obtain ⟨hmem, hrest⟩ := List.cons_perm_iff_perm_erase.mp h
    have hstep : w.perform (.resubscribed rid reply) = some (none, { w with
        cache := w.cache.resubscribed rid reply
        resubscribing := w.resubscribing.erase rid }) := if_pos hmem
    obtain ⟨trace, w', hpasses, hactions, hanswered⟩ := @ih { w with
      cache := w.cache.resubscribed rid reply, resubscribing := w.resubscribing.erase rid } hrest
    exact ⟨_, w', (Passes.step .refl hstep).trans hpasses, congrArg _ hactions, hanswered⟩

/-- Whichever replies come for the stale resources and in whichever order: when they have all come,
nothing is stale. Each resource that was stale has been made up to date and is subscribed as often
as before, or its resubscription has failed, it is not subscribed any more, and this has been told
once, with the reason. The subscriptions to all other resources are as before. -/
theorem resubscribes_settles (hquiet : registry.Quiet) (htrace : Trace registry past w)
    (htame : Tame registry past) (hidle : w.resubscribing = [])
    (hreplies : (replies.map (·.1)).Perm w.cache.store.staleRids)
    (hdisjoint : ∀ p ∈ replies, Cache.RepliesDisjoint p.2) :
    (∃ trace w', w.Resubscribes replies trace w') ∧
    ∀ trace w', w.Resubscribes replies trace w' →
      ∃ news, w'.cache.channel = w.cache.channel ++ news ∧
        (∀ rid, w.cache.store.isStale rid = true → w'.cache.store.isStale rid = false ∧
          ∃ reply, (rid, reply) ∈ replies ∧ (Renewed w trace w' news rid reply ∨
            ∃ reason, Dropped trace w' news rid reply reason)) ∧
        ∀ rid, w.cache.store.isStale rid = false → w'.cache.store.isStale rid = false ∧
          w'.cache.store.direct rid = w.cache.store.direct rid ∧ endings rid news = [] := by
  have hstale (rid : String) : rid ∈ replies.map (·.1) ↔ w.cache.store.isStale rid = true :=
    hreplies.mem_iff.trans Store.mem_staleRids_iff
  refine ⟨?_, fun trace w' hrun => ?_⟩
  · have hstep : w.perform .subscribeStale = some (none, { w with
        resubscribing := w.resubscribing ++ w.cache.store.staleRids }) := rfl
    rw [hidle, List.nil_append] at hstep
    obtain ⟨trace, w', hpasses, hactions, hanswered⟩ := @exists_passes_resubscribed
      { w with resubscribing := w.cache.store.staleRids } replies hreplies
    exact ⟨_, w', (Passes.step .refl hstep).trans hpasses, congrArg _ hactions, hanswered⟩
  · obtain ⟨hpasses, hactions, -⟩ := hrun
    obtain ⟨step, later, rfl, haction, hlater⟩ := List.map_eq_cons_iff.mp hactions
    obtain ⟨rfl, hstep, hpasses'⟩ := hpasses.uncons
    have hafter := cache_of_subscribeStale (haction ▸ hstep)
    obtain ⟨extra, hkept⟩ := kept_of_trace hquiet htame htrace
    have hfair := htrace.fair
    have hnodup := hreplies.nodup_iff.mpr step.before.cache.store.nodup_staleRids
    have hpos (p) (hp : p ∈ replies) : 0 < step.before.cache.store.direct p.1 :=
      hfair.direct_pos ((hstale p.1).mp (List.mem_map_of_mem hp))
    rw [← hafter] at hkept hfair hpos
    obtain ⟨news, hnews, hsettled, hsame⟩ :=
      settled_of_passes hkept hfair hpasses' hlater hnodup hpos hdisjoint
    refine ⟨news, hafter ▸ hnews, fun rid hrid => ?_, fun rid hrid => ?_⟩
    · obtain ⟨p, hp, rfl⟩ := List.mem_map.mp ((hstale rid).mpr hrid)
      obtain ⟨hfresh, hrenewed | ⟨reason, hdropped⟩⟩ := hsettled p hp
      · have hrenewed' : Renewed step.before (step :: later) w' ([] ++ news) p.1 p.2 :=
          hrenewed.after (by rw [hafter]) rfl step
        exact ⟨hfresh, p.2, hp, .inl hrenewed'⟩
      · have hdropped' : Dropped (step :: later) w' ([] ++ news) p.1 p.2 reason :=
          hdropped.after rfl step
        exact ⟨hfresh, p.2, hp, .inr ⟨reason, hdropped'⟩⟩
    · have hnot : rid ∉ replies.map (·.1) := fun hmem => by
        rw [(hstale rid).mp hmem] at hrid
        cases hrid
      obtain ⟨htally, htold⟩ := hsame rid hnot
      rw [hafter] at htally
      exact ⟨(congrArg Prod.snd htally).trans hrid, congrArg Prod.fst htally, htold⟩

/-- The connection is lost when two models are subscribed, one of which refers to the other. -/
def staleBoth : World := { linked with cache := linked.cache.setAllStale.2 }

def detached : Json := .obj [("models", .obj [("p", .obj [("n", .num (.int 1))])])]

def staleOne : World := { staleBoth with
  cache := staleBoth.cache.resubscribed "p" (.ok detached), resubscribing := ["m"] }

def staleNone : World := { staleOne with
  cache := staleOne.cache.resubscribed "m" (.error refusal), resubscribing := [] }

def lateReplies : List (String × Outcome Json) := [("p", .ok detached), ("m", .error refusal)]

theorem resubscribes_settles_linked :
    ∃ news, staleNone.cache.channel = staleBoth.cache.channel ++ news ∧
      staleNone.cache.store.isStale "p" = false ∧ staleNone.cache.store.direct "p" = 1 ∧
      endings "p" news = [] ∧ staleNone.cache.store.isStale "m" = false ∧
      staleNone.cache.store.direct "m" = 0 ∧ endings "m" news = [refusal] := by
  have htrace : Trace .empty _ staleBoth :=
    ((Trace.next .refl (.add lone "m") rfl).next (.add linking "p") rfl).next .setAllStale rfl
  have hreplies : (lateReplies.map (·.1)).Perm staleBoth.cache.store.staleRids := .swap "m" "p" []
  have hdisjoint (p) (hp : p ∈ lateReplies) : Cache.RepliesDisjoint p.2 := by
    intro snapshot batch hreply hbatch
    rcases List.mem_pair.mp hp with rfl | rfl <;> cases hreply
    cases hbatch
    exact Batch.disjoint_of_models rfl rfl
  have hasked : staleBoth.perform .subscribeStale =
      some (none, { staleBoth with resubscribing := ["m", "p"] }) := rfl
  have hpasses : Passes staleBoth _ staleNone := .step (.step (.step .refl hasked)
    (rfl : perform _ (.resubscribed "p" (.ok detached)) = some (none, staleOne)))
    (rfl : perform _ (.resubscribed "m" (.error refusal)) = some (none, staleNone))
  obtain ⟨_, hsettles⟩ := resubscribes_settles Registry.quiet_empty htrace
    (.inl Registry.bare_empty) rfl hreplies hdisjoint
  obtain ⟨news, hnews, hstale, _⟩ := hsettles _ staleNone ⟨hpasses, rfl, rfl⟩
  obtain ⟨hp, reply, hreply, hrenewed | ⟨reason, hdropped⟩⟩ := hstale "p" rfl
  · obtain ⟨hm, reply', hreply', hrenewed' | ⟨reason', hdropped'⟩⟩ := hstale "m" rfl
    · obtain rfl : reply' = .error refusal := by simpa [lateReplies] using hreply'
      obtain ⟨_, _, _, _, ⟨_, _, hok, _⟩, _⟩ := hrenewed'.turn
      cases hok
    · obtain rfl : reply' = .error refusal := by simpa [lateReplies] using hreply'
      obtain ⟨_, _, _, hfails⟩ := hdropped'.turn
      cases hfails
      exact ⟨news, hnews, hp, hrenewed.kept, hrenewed.untold, hm, hdropped'.lost, hdropped'.told⟩
  · obtain rfl : reply = .ok detached := by simpa [lateReplies] using hreply
    obtain ⟨step, hstep, haction, hfails⟩ := hdropped.turn
    simp only [List.nil_append, List.cons_append, List.mem_cons, List.not_mem_nil,
      or_false] at hstep
    rcases hstep with rfl | rfl | rfl
    · cases haction
    · cases hfails with
      | malformed hflaw => cases hflaw
      | unmerged hbatch herr =>
        cases hbatch
        cases herr
    · exact absurd (Action.resubscribed.inj haction).1 (by decide)

end World

end LiveResource
