import LiveResource.Proofs.Replay
import LiveResource.Proofs.Subscriptions

set_option autoImplicit false

/-!
# Updates of a replica

A snapshot that is merged is what the replica shows afterwards. An event that is taken makes of the
contents what it says, and an event that is refused leaves them alone.
-/

namespace LiveResource

namespace Store

variable {touched lost : String → Prop} {s s' : Store} {rid : String} {content : Content}

theorem Holds.content? (h : s.Holds lost touched s') (hcontent : s.content? rid = some content)
    (hpos : 0 < s.direct rid) (hpos' : 0 < s'.direct rid) (hrid : ¬ touched rid) :
    s'.content? rid = some content := by
  obtain ⟨e, r, he, hr, rfl⟩ := get?_of_content? hcontent
  rw [direct_of_get? he] at hpos
  obtain ⟨e', he', hreplica, _⟩ := h.held he hpos hpos' hrid
  exact content?_of_get? he' (hreplica.trans hr)

theorem Keeps.content? (h : s.Keeps touched s') (hcontent : s.content? rid = some content)
    (hpos : 0 < s.direct rid) (hrid : ¬ touched rid) : s'.content? rid = some content :=
  @Holds.content? touched (fun _ => False) _ _ _ _ h.holds hcontent hpos
    (by rw [h.direct]; exact hpos) hrid

theorem Agrees.content? (h : s.Agrees s') (rid : String) : s'.content? rid = s.content? rid := by
  unfold Store.content?
  cases he : s.get? rid with
  | some e =>
    obtain ⟨e', he', _, hreplica, _⟩ := h.get?' he
    simp only [he', Option.bind_some, hreplica]
  | none =>
    have hcore := h.core rid
    rw [he, Option.map_none, Option.map_eq_none_iff] at hcore
    rw [hcore]

end Store

namespace Op

variable {extra : String → Nat} {root : String → Prop} {w : Work} {registry : Registry}
  {rid name : String}
  {data : Option Json} {content : Content}

def Updates (rid name : String) (data : Option Json) (content : Content) :
    EStateM.Result CacheError Work Unit → Prop
  | .ok _ w => ∃ content', w.store.content? rid = some content' ∧ content.Follows name data content'
  | .error _ w => w.store.content? rid = some content

theorem updates_need {α : Type} {flaw : EventFlaw} {part : Option α} {f : α → Op Unit}
    (hcontent : w.store.content? rid = some content)
    (hf : ∀ a, part = some a → Updates rid name data content (f a w)) :
    Updates rid name data content ((need rid name flaw part >>= f) w) := by
  cases part with
  | none => exact hcontent
  | some a => exact hf a rfl

theorem updates_read {α : Type} {read : Store → Except CacheError α} {f : α → Op Unit}
    (hcontent : w.store.content? rid = some content)
    (hf : ∀ a, read w.store = .ok a → Updates rid name data content (f a w)) :
    Updates rid name data content ((liftStore read >>= f) w) := by
  cases ha : read w.store with
  | error err =>
    rw [bind_of_error _ (liftStore_of_error ha)]
    exact hcontent
  | ok a =>
    rw [bind_of_ok _ (liftStore_of_ok ha)]
    exact hf a ha

theorem updates_custom (h : w.store.Sturdy) (hloaded : w.store.isLoaded rid = true)
    (hcontent : w.store.content? rid = some content)
    (hself : content.Follows name data content) (event : Option Json) :
    Updates rid name data content (applyCustom rid name event w) := by
  obtain ⟨w', hrun, _, hsame⟩ := applyCustom_spec h hloaded name event
  rw [hrun]
  exact ⟨content, hsame.trans hcontent, hself⟩

theorem updates_model {fields : Fields} (h : w.store.Sturdy) (hloaded : w.store.isLoaded rid = true)
    (hcontent : w.store.content? rid = some (.model fields))
    (hclean : (Content.model fields).Clean) :
    Updates rid name data (.model fields) (applyNamed rid (some .model) name data w) := by
  change Updates rid name data (.model fields) ((if name = "change" then _ else _ : Op Unit) w)
  by_cases hname : name = "change"
  · subst hname
    rw [if_pos rfl]
    refine updates_need hcontent fun tokens htokens => updates_read hcontent
      fun changes hchanges => ?_
    obtain ⟨w', hrun, _, hchanged⟩ := applyChange_spec h hloaded hcontent
      (Store.reads_of_parseChanges hchanges)
    rw [hrun]
    exact ⟨_, hchanged, Content.follows_change htokens hchanges hclean⟩
  · rw [if_neg hname]
    refine updates_custom h hloaded hcontent (Content.follows_self (fun _ _ => hname) ?_) data
    intro values heq
    cases heq

theorem updates_collection {values : List Value} (h : w.store.Sturdy)
    (hloaded : w.store.isLoaded rid = true)
    (hcontent : w.store.content? rid = some (.collection values)) :
    Updates rid name data (.collection values)
      (applyNamed rid (some .collection) name data w) := by
  change Updates rid name data (.collection values) ((if name = "add" then _ else _ : Op Unit) w)
  by_cases hadd : name = "add"
  · subst hadd
    rw [if_pos rfl]
    refine updates_need hcontent fun index hindex => updates_need hcontent fun token htoken =>
      updates_read hcontent fun value hvalue => ?_
    by_cases hrange : index ≤ values.length
    · obtain ⟨w', hrun, _, hadded⟩ := applyAdd_spec h hloaded hcontent hrange
        (Store.reads_of_parseStored hvalue)
      rw [hrun]
      exact ⟨_, hadded, Content.follows_add hindex htoken hvalue hrange⟩
    · rw [applyAdd_refused hcontent (by omega)]
      exact hcontent
  · rw [if_neg hadd]
    by_cases hremove : name = "remove"
    · subst hremove
      rw [if_pos rfl]
      refine updates_need hcontent fun index hindex => ?_
      by_cases hrange : index < values.length
      · obtain ⟨w', hrun, _, hremoved⟩ := applyRemove_spec h hloaded hcontent hrange
        rw [hrun]
        exact ⟨_, hremoved, Content.follows_remove hindex hrange⟩
      · rw [applyRemove_refused hcontent (by omega)]
        exact hcontent
    · rw [if_neg hremove]
      refine updates_custom h hloaded hcontent (Content.follows_self ?_ fun _ _ => ⟨hadd, hremove⟩)
        data
      intro fields heq
      cases heq

theorem updates_named (h : w.Steady extra root) {e : Entry} (he : w.store.get? rid = some e)
    (hcontent : w.store.content? rid = some content) :
    Updates rid name data content (applyNamed rid e.kind name data w) := by
  obtain ⟨e', r, he', hr, rfl⟩ := Store.get?_of_content? hcontent
  rw [he] at he'
  cases he'
  have hl : e.loaded = true := h.rest.settled rid e he (by rw [hr]; rfl)
  have hloaded : w.store.isLoaded rid = true := Store.isLoaded_iff.mpr ⟨e, he, hl⟩
  have hclean := (h.rest.sound.entry he).clean r hr hl
  have hkind : e.kind = some r.content.kind := by
    rw [(h.rest.sound.entry he).kind, hr]
    rfl
  rw [hkind]
  cases hc : r.content with
  | model fields =>
    rw [hc] at hcontent hclean
    exact updates_model h.rest.sound.sturdy hloaded hcontent hclean
  | collection values =>
    rw [hc] at hcontent
    exact updates_collection h.rest.sound.sturdy hloaded hcontent
  | error fault =>
    rw [hc] at hcontent
    refine ⟨_, hcontent, Content.follows_self ?_ ?_⟩
    · intro fields heq
      cases heq
    · intro values heq
      cases heq

theorem updates_event (hregistry : registry.Quiet) (hdisjoint : EmbedsDisjoint data)
    (h : w.Steady extra root) {e : Entry} (he : w.store.get? rid = some e)
    (hcontent : w.store.content? rid = some content) (hpos : 0 < w.store.direct rid)
    (hembeds : ¬ Embeds data rid) :
    Updates rid name data content (applyEvent registry rid e.kind name data w) := by
  cases hbatch : hasBatch (membersOf data) with
  | false =>
    rw [applyEvent_of_not_hasBatch hbatch]
    exact updates_named h he hcontent
  | true =>
    rw [applyEvent_of_hasBatch hbatch]
    have hmerge : (mergeEmbedded registry rid name (.obj (membersOf data))).Keeps (Embeds data) :=
      keeps_mergeEmbedded registry rid name fun batch hof x hx => ⟨batch, hof, hx⟩
    have hkeeps := hmerge w
    unfold left at hkeeps
    cases hof : Batch.ofJson (.obj (membersOf data)) with
    | error flaw =>
      rw [bind_of_error _ (mergeEmbedded_of_malformed hof)]
      exact hcontent
    | ok batch =>
      rcases @mergeEmbedded_spec root w registry rid name batch extra _ hregistry hof
        (.inr (embedded_disjoint hbatch hdisjoint hof)) h with
        ⟨err, _, hrun, _⟩ | ⟨created, w₁, w', _, hrun, hsteady, hkept⟩
      · rw [bind_of_error _ hrun]
        exact hcontent
      · rw [hrun] at hkeeps
        rw [bind_of_ok _ hrun]
        have hcontent' := hkeeps.content? hcontent hpos hembeds
        obtain ⟨e₀, r, he₀, hr, _⟩ := Store.get?_of_content? hcontent
        rw [he] at he₀
        cases he₀
        have hl : e.loaded = true := h.rest.settled rid e he (by rw [hr]; rfl)
        obtain ⟨e', he', _, hkind⟩ := hkept rid e he hl
        rw [← hkind]
        exact updates_named hsteady he' hcontent'

end Op

namespace Cache

variable {root : String → Prop} {extra : String → Nat} {c c' : Cache} {rid name : String}
  {data : Option Json} {content snapshot : Content} {batch : Batch} {kind : Kind}
  {reply : Outcome Json} {handle : Handle}

/-- If an event leaves its resource subscribed, then it was subscribed before, and what the
operation has made of the contents survives the collection after it. -/
theorem event_left {e : Entry} {w : Work} {out : Output}
    (hleft : (eventOp c.registry e rid name data).left ⟨c.store, {}⟩ = w)
    (hflush : (⟨c.registry, w.store, c.channel⟩ : Cache).flush out = (.ok (), c'))
    (hpos : 0 < c'.store.direct rid) : name ≠ "unsubscribe" ∧ 0 < c.store.direct rid ∧
      ∀ content, w.store.content? rid = some content → c'.store.content? rid = some content := by
  have hkeeps := @flush_keeps (fun _ => False) ⟨c.registry, w.store, c.channel⟩ out
  rw [hflush] at hkeeps
  rw [hkeeps.direct rid] at hpos
  have hname : name ≠ "unsubscribe" := by
    rintro rfl
    have hend : eventOp c.registry e rid "unsubscribe" data =
        Op.endSubscription rid (reasonOf data) := if_pos rfl
    have hzero := (@Op.endSubscription_holds (fun _ => False) rid (reasonOf data) ⟨c.store, {}⟩).2
    rw [← hend, hleft] at hzero
    exact absurd hzero (Nat.ne_of_gt hpos)
  refine ⟨hname, ?_, fun content hcontent => hkeeps.content? hcontent hpos id⟩
  have happly : eventOp c.registry e rid name data =
      Op.applyEvent c.registry rid e.kind name data := if_neg hname
  have hevent := @Op.keeps_applyEvent (fun _ => True) rid data c.registry trivial
    (fun _ _ => trivial) e.kind name ⟨c.store, {}⟩
  rw [← happly, hleft] at hevent
  rw [hevent.direct rid] at hpos
  exact hpos

/-- An event either is taken or changes nothing, as long as its resource stays subscribed. -/
theorem handleEvent_follows (h : c.Tidy root) (hdisjoint : EmbedsDisjoint data)
    (hcontent : c.store.content? rid = some content) (hembeds : ¬ Embeds data rid)
    (hpos : 0 < (c.handleEvent rid name data).2.store.direct rid) :
    ∃ content', (c.handleEvent rid name data).2.store.content? rid = some content' ∧
      ((c.handleEvent rid name data).1.isOk = true → content.Follows name data content') ∧
      ((c.handleEvent rid name data).1.isOk = false → content' = content) := by
  obtain ⟨e, r, he, hr, _⟩ := Store.get?_of_content? hcontent
  have hloaded : e.loaded = true := h.rest.settled rid e he (by rw [hr]; rfl)
  have hupdates (hname : name ≠ "unsubscribe") (hbefore : 0 < c.store.direct rid) :
      Op.Updates rid name data content (eventOp c.registry e rid name data ⟨c.store, {}⟩) := by
    unfold eventOp
    rw [if_neg hname]
    exact Op.updates_event h.registry hdisjoint h.steady he hcontent hbefore hembeds
  rcases handleEvent_run h hdisjoint he hloaded name with
    ⟨w, c', delivered, hrun, hhandled, _, hflush⟩ | ⟨err, w, c', hrun, _, hhandled, _, hflush⟩
  · rw [hhandled] at hpos ⊢
    obtain ⟨hname, hbefore, hafter⟩ := event_left (Op.left_of_ok hrun) hflush hpos
    have hupdate := hupdates hname hbefore
    rw [hrun] at hupdate
    obtain ⟨content', hcontent', hfollows⟩ := hupdate
    exact ⟨content', hafter content' hcontent', fun _ => hfollows, fun heq => (by cases heq)⟩
  · rw [hhandled] at hpos ⊢
    obtain ⟨hname, hbefore, hafter⟩ := event_left (Op.left_of_error hrun) hflush hpos
    have hupdate := hupdates hname hbefore
    rw [hrun] at hupdate
    exact ⟨content, hafter content hupdate, fun heq => (by cases heq), fun _ => rfl⟩

theorem lists_of_content? (h : batch.content? rid = some snapshot) :
    ∃ kind, batch.Lists rid kind := by
  unfold Batch.content? at h
  split at h
  · rename_i tokens hmodel
    exact ⟨.model, Dict.contains_iff.mpr ⟨tokens, hmodel⟩⟩
  · rename_i tokens _ hcollection
    exact ⟨.collection, Dict.contains_iff.mpr ⟨tokens, hcollection⟩⟩
  · cases h

theorem merge_shows {subscriptions : Nat} (h : c.Kept extra root) (hdisjoint : batch.Disjoint)
    (hsnapshot : batch.content? rid = some snapshot)
    (hok : (c.merge batch rid subscriptions).1 = .ok handle)
    (hpos : 0 < (c.merge batch rid subscriptions).2.store.direct rid) :
    ∃ shown, (c.merge batch rid subscriptions).2.store.content? rid = some shown ∧
      shown.normal = snapshot.normal := by
  obtain ⟨kind, hlists⟩ := lists_of_content? hsnapshot
  rcases @Op.addResources_spec ⟨c.store, {}⟩ c.registry batch h.registry hdisjoint
    h.rest.sound.sturdy with
    ⟨err, hrun, _⟩ | ⟨created, w, hrun, hmerges⟩
  · have hmerge : c.merge batch rid subscriptions = (.error err, c) := by
      simp only [merge, run, hrun]
    rw [hmerge] at hok
    cases hok
  · obtain ⟨shown, content, hshown, hread, hsame⟩ := hmerges.shows rid kind hlists
    have hnormal : shown.normal = snapshot.normal :=
      ((Content.beq_iff_normal shown content).mp hsame).trans
        (Store.normal_snapshot hdisjoint hlists hsnapshot hread)
    have hagrees := Store.announces_settleLoaded.agrees_foldl w.store created
    obtain ⟨hclaim, _⟩ :=
      Store.claim_spec (created.foldl Store.settleLoaded w.store) rid subscriptions
    generalize hresult : (created.foldl Store.settleLoaded w.store).claim rid subscriptions =
      claimed at hclaim
    obtain ⟨result, s⟩ := claimed
    have hcontent : s.content? rid = some shown := by
      rw [(hagrees.trans hclaim).content?, hshown]
    have hkeeps := @flush_keeps (fun _ => False) ⟨c.registry, s, c.channel⟩
      { w.out with orphans := w.out.orphans ++ created }
    generalize hflush : (⟨c.registry, s, c.channel⟩ : Cache).flush
      { w.out with orphans := w.out.orphans ++ created } = flushed at hkeeps
    obtain ⟨flushed, c'⟩ := flushed
    have hstore : (c.merge batch rid subscriptions).2 = c' := by
      simp only [merge, run, hrun, hresult, hflush]
      cases flushed <;> rfl
    rw [hstore] at hpos ⊢
    have hdirect := hkeeps.direct rid
    exact ⟨shown, hkeeps.content? hcontent (by rw [← hdirect]; exact hpos) id, hnormal⟩

def Carries (reply : Outcome Json) (rid : String) (snapshot : Content) : Prop :=
  ∃ result batch, reply = .ok result ∧ Batch.ofJson result = .ok batch ∧
    batch.content? rid = some snapshot

theorem mergeReply_shows {subscriptions : Nat} (h : c.Kept extra root)
    (hdisjoint : RepliesDisjoint reply) (hcarries : Carries reply rid snapshot)
    (hok : (c.mergeReply rid subscriptions reply).1 = .ok handle)
    (hpos : 0 < (c.mergeReply rid subscriptions reply).2.store.direct rid) :
    ∃ shown, (c.mergeReply rid subscriptions reply).2.store.content? rid = some shown ∧
      shown.normal = snapshot.normal := by
  obtain ⟨result, batch, rfl, hbatch, hsnapshot⟩ := hcarries
  have hshows := @merge_shows root extra c rid snapshot batch handle subscriptions h
    (hdisjoint result batch rfl hbatch) hsnapshot
  unfold mergeReply at hok hpos ⊢
  simp only [hbatch] at hok hpos ⊢
  generalize c.merge batch rid subscriptions = merged at hok hpos hshows ⊢
  obtain ⟨merged, c'⟩ := merged
  cases merged with
  | error err => cases hok
  | ok handle' =>
    cases hok
    exact hshows rfl hpos

theorem fetched_shows {shared : Ticket} (h : c.Kept extra root) (hdisjoint : RepliesDisjoint reply)
    (hcarries : Carries reply rid snapshot) (hok : (c.mergeReply rid 1 reply).1 = .ok handle)
    (hpos : 0 < (c.fetched rid shared reply).2.store.direct rid) :
    ∃ shown, (c.fetched rid shared reply).2.store.content? rid = some shown ∧
      shown.normal = snapshot.normal := by
  have hkeeps : (c.mergeReply rid 1 reply).2.store.Keeps (fun _ => False)
      (c.fetched rid shared reply).2.store :=
    (closeFetch_keeps _ rid _).trans (Store.keeps_settle _ _ _)
  rw [hkeeps.direct] at hpos
  obtain ⟨shown, hshown, hnormal⟩ := mergeReply_shows h hdisjoint hcarries hok hpos
  exact ⟨shown, hkeeps.content? hshown hpos id, hnormal⟩

theorem resubscribed_shows (h : c.Kept extra root) (hdisjoint : RepliesDisjoint reply)
    (hcarries : Carries reply rid snapshot) (hok : (c.mergeReply rid 0 reply).1 = .ok handle)
    (hpos : 0 < (c.resubscribed rid reply).store.direct rid) :
    ∃ shown, (c.resubscribed rid reply).store.content? rid = some shown ∧
      shown.normal = snapshot.normal := by
  have hshows := @mergeReply_shows root extra c rid snapshot reply handle 0 h hdisjoint hcarries hok
  unfold resubscribed at hpos ⊢
  generalize c.mergeReply rid 0 reply = merged at hok hpos hshows
  obtain ⟨merged, c'⟩ := merged
  cases hok
  exact hshows hpos

end Cache

end LiveResource
