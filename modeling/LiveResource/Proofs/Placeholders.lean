import LiveResource.Proofs.Contradictions
import LiveResource.Proofs.Courses

set_option autoImplicit false

/-!
# Entries without contents

An entry is made before its resource has contents, so that callers can share one network subscribe.
Such a placeholder must count nothing, and goes with its network subscribe if that fails. Only two
things count a subscription without looking whether the resource is loaded: a network unsubscribe
that fails, and a caller whose joined network subscribe has succeeded. If the resource has been
evicted and is wanted again in between, they count it on a placeholder. Then this stays when its
network subscribe fails, and whoever wants the resource from then on waits forever.
-/

namespace LiveResource

/-- An entry without contents counts no subscription, and if `watched`, a network subscribe for its
resource is in flight. -/
def Entry.Vacant (watched : Prop) (e : Entry) : Prop :=
  e.loaded = false → e.direct = 0 ∧ (watched → e.subscribing.isSome = true)

namespace Store

def Vacant (watched : Prop) (s : Store) : Prop := ∀ x e, s.get? x = some e → e.Vacant watched

variable {watched : Prop} {s s' : Store} {x rid : String} {e e' : Entry}

namespace Vacant

theorem isLoaded (h : s.Vacant watched) (he : s.get? x = some e) (hpos : 0 < e.direct) :
    e.loaded = true := by
  by_contra hl
  have hzero := (h x e he (by simpa using hl)).1
  omega

theorem of_get? (h : s.Vacant watched) (hback : ∀ x e, s'.get? x = some e → s.get? x = some e) :
    s'.Vacant watched := fun x e he => h x e (hback x e he)

theorem put_of_others (h : ∀ x e, rid ≠ x → s.get? x = some e → e.Vacant watched)
    (he' : e'.Vacant watched) : (s.put rid e').Vacant watched := by
  intro x e he
  rw [get?_put] at he
  split at he
  · cases he
    exact he'
  · rename_i hx
    exact h x e hx he

theorem put (h : s.Vacant watched) (he' : e'.Vacant watched) : (s.put rid e').Vacant watched :=
  put_of_others (fun x e _ => h x e) he'

theorem modify (h : s.Vacant watched) {f : Entry → Entry}
    (hf : ∀ e, s.get? rid = some e → (f e).Vacant watched) : (s.modify rid f).Vacant watched := by
  cases he : s.get? rid with
  | none =>
    rw [modify_of_none he]
    exact h
  | some e =>
    rw [modify_eq_put he]
    exact h.put (hf e he)

theorem purge (watched : Prop) : Purge fun s s' => s.Vacant watched → s'.Vacant watched where
  refl _ := id
  trans h h' hs := h' (h hs)
  recount _ rid _ hs := hs.modify fun e => hs rid e
  evict {s gone} _ hs := hs.of_get? fun x e he => by
    rw [get?_foldl_remove] at he
    split at he
    · cases he
    · exact he

/-- An entry that is made for a batch counts nothing until it is loaded, however the merge ends. -/
theorem upkeep : Upkeep (fun _ => True) fun s s' => s.Vacant False → s'.Vacant False where
  toPurge := purge False
  edit {s rid e r r'} _ he _ _ hs := hs.put fun hl => hs rid e he hl
  obtain s rid hs := by
    cases he : s.get? rid with
    | some e =>
      rw [obtain_of_get? he]
      exact hs
    | none =>
      rw [obtain_of_none he]
      exact put (s := s.issued) hs fun _ => ⟨rfl, False.elim⟩
  create {s rid} _ _ _ _ _ hs := hs.modify fun e he => hs rid e he
  load _ _ _ hs := hs.modify fun e _ hl => nomatch hl
  tell _ _ _ hs := hs

end Vacant

end Store

theorem Work.Merged.vacant {surplus : List String} {batch : Batch} {created : List String}
    {w w' : Work} {watched : Prop} (h : w.Merged surplus batch created w')
    (hs : w.store.Vacant watched) : w'.store.Vacant watched := by
  intro x e' he' hl
  -- what is listed is loaded, and the others are what they were
  have hunlisted : ¬ batch.contains x = true := fun hx => by
    obtain ⟨e, he, hloaded⟩ := Store.isLoaded_iff.mp (h.loaded x hx)
    cases he'.symm.trans he
    rw [hl] at hloaded
    cases hloaded
  cases he : w.store.get? x with
  | none => exact absurd (h.fresh he he').1 hunlisted
  | some e =>
    obtain ⟨e₁, he₁, hdirect, _, hmarker, _, _, hframe⟩ := h.kept he
    cases he'.symm.trans he₁
    rw [hdirect, hmarker]
    exact hs x e he ((hframe.resolve_left hunlisted).2.symm.trans hl)

theorem Work.Alters.vacant {touched : String → Prop} {w w' : Work} {watched : Prop}
    (h : w.Alters touched w') (hs : w.store.Vacant watched) : w'.store.Vacant watched := by
  intro x e' he' hl
  obtain ⟨e, he⟩ := h.back he'
  obtain ⟨e₁, he₁, hedited, _⟩ := h.kept he
  cases he'.symm.trans he₁
  rw [hedited.direct, hedited.subscribing]
  refine hs x e he ?_
  by_contra hloaded
  rw [hedited.loaded (by simpa using hloaded)] at hl
  cases hl

namespace Store

theorem Vacant.course {registry : Registry} (hregistry : registry.Quiet) (watched : Prop) :
    Course registry (fun s s' => s.Vacant watched → s'.Vacant watched)
      fun s s' => s.Vacant watched → s'.Vacant watched where
  toPurge := purge watched
  begins _ := id
  goes h h' hs := h' (h hs)
  add {w batch extra} hbare hrest hs := by
    rcases Op.addResources_merged hregistry hbare hrest.sound.sturdy with
      ⟨err, hrun, _⟩ | ⟨created, w', hrun, hmerged⟩
    · rw [Op.left_of_error hrun]
      exact hs
    · rw [Op.left_of_ok hrun]
      exact hmerged.vacant hs
  edit h := h.vacant
  tell _ hget hs := hs.of_get? fun x e he => by rw [← hget]; exact he
  claim {s rid e} _ _ hl hs := hs.put fun hunloaded => nomatch hl.symm.trans hunloaded
  drop {s rid e} _ hl hs := hs.put fun hunloaded => nomatch hl.symm.trans hunloaded

end Store

namespace Cache

variable {c : Cache} {watched : Prop} {rid name : String} {batch : Batch} {data : Option Json}
  {reply : Outcome Json}

/-- If network subscribes are watched the cache is in order, and what comes is as it should be. -/
def Minds (watched fitting : Prop) (c : Cache) : Prop :=
  watched → (∃ extra root, c.Kept extra root) ∧ (c.registry.Bare ∨ fitting)

theorem merge_vacant (hs : c.store.Vacant watched) (h : c.Minds watched batch.Disjoint)
    (rid : String) (subscriptions : Nat) :
    (c.merge batch rid subscriptions).2.store.Vacant watched := by
  by_cases hwatched : watched
  · obtain ⟨⟨extra, root, hkept⟩, hbare⟩ := h hwatched
    obtain ⟨m, hbefore, hafter⟩ :=
      (Store.Vacant.course hkept.registry watched).merge hkept hbare rid subscriptions
    exact hafter (hbefore hs)
  · cases eq_false hwatched
    rcases Store.Vacant.upkeep.merge c batch (fun _ _ => trivial) rid subscriptions with
      ⟨hafter, _⟩ | ⟨s, e, hbefore, _, hl, _, hafter, _⟩
    · exact hafter hs
    · exact hafter ((hbefore hs).put fun hunloaded => nomatch hl.symm.trans hunloaded)

theorem mergeReply_vacant (hs : c.store.Vacant watched)
    (h : c.Minds watched (RepliesDisjoint reply)) (rid : String) (subscriptions : Nat) :
    (c.mergeReply rid subscriptions reply).2.store.Vacant watched := by
  unfold mergeReply
  cases reply with
  | error fault => exact hs
  | ok snapshot =>
    dsimp only
    cases hbatch : Batch.ofJson snapshot with
    | error err => exact hs
    | ok batch =>
      have hfits : c.Minds watched batch.Disjoint := fun hwatched =>
        (h hwatched).imp_right (Or.imp_right fun hdisjoint => hdisjoint snapshot batch rfl hbatch)
      have hmerged := merge_vacant hs hfits rid subscriptions
      dsimp only
      cases hmerge : c.merge batch rid subscriptions with
      | mk result c' =>
        rw [hmerge] at hmerged
        cases result <;> exact hmerged

theorem handleEvent_vacant (hs : c.store.Vacant watched)
    (h : c.Minds watched (EmbedsDisjoint data)) (rid name : String) :
    (c.handleEvent rid name data).2.store.Vacant watched := by
  by_cases hwatched : watched
  · obtain ⟨⟨extra, root, hkept⟩, hbare⟩ := h hwatched
    obtain ⟨m, hbefore, hafter⟩ :=
      (Store.Vacant.course hkept.registry watched).handleEvent hkept hbare rid name
    exact hafter (hbefore hs)
  · cases eq_false hwatched
    rcases Store.Vacant.upkeep.handleEvent c rid name data trivial fun _ _ => trivial with
      hsame | ⟨_, hafter⟩ | ⟨_, hafter⟩
    · rw [hsame]
      exact hs
    · exact hafter (hs.modify fun e _ _ => ⟨rfl, False.elim⟩)
    · exact hafter hs

theorem setAllStale_vacant (hs : c.store.Vacant watched) :
    c.setAllStale.2.store.Vacant watched := by
  intro x e' he'
  rw [get?_setAllStale] at he'
  obtain ⟨e, he, rfl⟩ := Option.map_eq_some_iff.mp he'
  have hvacant := hs x e he
  split <;> exact hvacant

theorem subscribe_vacant (hs : c.store.Vacant watched) (rid : String) :
    (c.subscribe rid).2.store.Vacant watched := by
  obtain ⟨e, s, hobtain, hget, _, hcases⟩ := c.subscribe_cases rid
  cases hrid : c.store.get? rid with
  | some e₀ =>
    cases (Store.obtain_of_get? hrid).symm.trans hobtain
    rcases hcases with ⟨hpos, heq⟩ | ⟨_, _, _, heq⟩ | ⟨hzero, _, heq⟩
    · rw [heq]
      exact hs.put fun hl => nomatch (hs.isLoaded hrid hpos).symm.trans hl
    · rw [heq]
      exact hs
    · rw [heq]
      exact Store.Vacant.put (s := c.store.issued) hs fun _ => ⟨hzero, fun _ => rfl⟩
  | none =>
    -- the fresh entry has its marker before anybody sees it
    cases (Store.obtain_of_none hrid).symm.trans hobtain
    rcases hcases with ⟨hpos, _⟩ | ⟨_, _, hmarker, _⟩ | ⟨hzero, _, heq⟩
    · exact absurd hpos (Nat.lt_irrefl 0)
    · cases hmarker
    · rw [heq]
      refine Store.Vacant.put_of_others (fun x e hx he => ?_) fun _ => ⟨hzero, fun _ => rfl⟩
      exact hs x e ((Store.get?_put _ _ _ _).trans (if_neg hx) ▸ he)

theorem closeFetch_vacant {s : Store} {result : Outcome Handle} (hs : s.Vacant watched)
    (hok : ∀ handle, result = .ok handle → s.isLoaded rid = true)
    (hnone : watched → ∀ e, s.get? rid = some e → e.loaded = false → e.indirect = 0) :
    (closeFetch s rid result).Vacant watched := by
  unfold closeFetch
  cases he : s.get? rid with
  | none => exact hs
  | some e =>
    dsimp only
    cases result with
    | ok handle =>
      obtain ⟨e', he', hl⟩ := Store.isLoaded_iff.mp (hok handle rfl)
      cases he.symm.trans he'
      exact hs.put fun hunloaded => nomatch hl.symm.trans hunloaded
    | error fault =>
      dsimp only
      split
      · intro x ex hx
        obtain ⟨hold, hne⟩ := Store.get?_of_remove hx
        exact hs x ex ((Store.get?_put _ _ _ _).trans (if_neg hne) ▸ hold)
      · rename_i hneeded
        refine hs.put fun hl => ⟨(hs rid e he hl).1, fun hwatched => ?_⟩
        simp [show e.loaded = false from hl, (hs rid e he hl).1, hnone hwatched e he hl] at hneeded

theorem fetched_vacant (hs : c.store.Vacant watched)
    (h : c.Minds watched (RepliesDisjoint reply)) (rid : String) (shared : Ticket) :
    (c.fetched rid shared reply).2.store.Vacant watched := by
  have hclosed : (closeFetch (c.mergeReply rid 1 reply).2.store rid
      (c.mergeReply rid 1 reply).1).Vacant watched := by
    refine closeFetch_vacant (mergeReply_vacant hs h rid 1) (fun handle hok => ?_)
      fun hwatched e he hl => ?_
    · obtain ⟨e, he, hl, _⟩ := get?_mergeReply hok Nat.one_pos
      exact Store.isLoaded_iff.mpr ⟨e, he, hl⟩
    · obtain ⟨⟨extra, root, hkept⟩, hbare⟩ := h hwatched
      obtain ⟨surplus, _, hmerged⟩ := mergeReply_spec hkept hbare rid 1
      exact hmerged.rest.indirect_eq_zero he hl
  exact hclosed

theorem leave_vacant (hs : c.store.Vacant watched) (rid : String) :
    (c.leave rid).2.store.Vacant watched := by
  rcases (Store.Vacant.purge watched).leave c rid with ⟨_, hsame⟩ | ⟨e, he, _, hafter⟩
  · rw [hsame]
    exact hs
  · exact hafter (hs.put (hs rid e he : e.left.Vacant watched))

theorem dropSubscription_vacant (hs : c.store.Vacant watched) (rid : String) (reason : Fault) :
    (c.dropSubscription rid reason).store.Vacant watched :=
  (Store.Vacant.purge watched).dropSubscription c rid reason
    (hs.modify fun e he hl => ⟨rfl, ((hs rid e he) hl).2⟩)

theorem resubscribed_vacant (hs : c.store.Vacant watched)
    (h : c.Minds watched (RepliesDisjoint reply)) (rid : String) :
    (c.resubscribed rid reply).store.Vacant watched := by
  have hmerged := mergeReply_vacant hs h rid 0
  unfold resubscribed
  split
  · rename_i handle c' hreply
    rw [hreply] at hmerged
    exact hmerged
  · rename_i reason c' hreply
    rw [hreply] at hmerged
    exact dropSubscription_vacant hmerged rid reason

theorem unsubscribe_vacant (hs : c.store.Vacant watched) (rid : String) :
    (c.unsubscribe rid).2.store.Vacant watched := by
  rcases c.unsubscribe_cases rid with ⟨_, heq⟩ | ⟨e, he, hpos, hcases⟩
  · rw [heq]
    exact hs
  · have hput : (c.store.put rid e.unsubscribed).Vacant watched :=
      hs.put fun hl => nomatch (hs.isLoaded he hpos).symm.trans hl
    rcases hcases with ⟨_, heq⟩ | ⟨_, _, heq⟩ | ⟨_, _, left, hleave, heq⟩
    · rw [heq]
      exact hput
    · rw [heq]
      exact hput
    · rw [heq, ← hleave]
      exact leave_vacant hput rid

end Cache

namespace World

variable {registry : Registry} {trace : List Step} {w w' : World} {action : Action}
  {err : Option CacheError} {watched : Prop}

/-- A subscription is counted on an entry without contents: a failed network unsubscribe gives it
back there, or a caller counts it after the network subscribe that it has joined. -/
def Step.Strands (step : Step) : Prop :=
  ∃ rid e, step.before.cache.store.get? rid = some e ∧ e.loaded = false ∧
    ((∃ fault, step.action = .released rid (.error fault)) ∨
      ∃ t, step.action = .join rid t ∧
        step.before.cache.store.ledger.outcome? t = some (.ok ()))

/-- Whatever counts for something is loaded and announced, everything else has a network subscribe
in flight, and everybody who waits has been told or waits for a network subscribe in flight. -/
structure Attended (w : World) : Prop where
  counted : ∀ {x e}, w.cache.store.get? x = some e →
    0 < e.direct ∨ 0 < e.indirect ∨ e.stale = true →
    e.loaded = true ∧ e.replica.isSome = true ∧ w.cache.store.ledger.isSettled e.pending = true
  awaited : ∀ {x e}, w.cache.store.get? x = some e → e.loaded = false →
    ∃ t, .fetching x t ∈ w.callers
  told : ∀ {x p}, .loading x p ∈ w.callers → w.cache.store.ledger.isSettled p = true
  shared : ∀ {x t}, .joined x t ∈ w.callers →
    w.cache.store.ledger.isSettled t = true ∨ .fetching x t ∈ w.callers

theorem Step.Strands.counts (h : Step.Strands ⟨w, action, err, w'⟩)
    (hstep : w.perform action = some (err, w')) :
    ∃ x e, w'.cache.store.get? x = some e ∧ e.loaded = false ∧ 0 < e.direct := by
  obtain ⟨rid, e, he, hl, ⟨fault, haction⟩ | ⟨t, haction, houtcome⟩⟩ := h
  · dsimp only at haction
    subst haction
    cases acts_of_perform hstep with
    | released _ _ =>
      refine ⟨rid, e.subscribed, ?_, hl, Nat.succ_pos _⟩
      exact (Store.get?_modify _ _ _ _).trans (by rw [if_pos rfl, he]; rfl)
  · dsimp only at haction
    subst haction
    have hcounted : (w.cache.join rid (.ok ())).2.store = w.cache.store.put rid e.subscribed ∧
        (w.cache.join rid (.ok ())).1 = .ok e.pending := by
      unfold Cache.join
      rw [he]
      exact ⟨rfl, rfl⟩
    cases acts_of_perform hstep with
    | join _ houtcome' _ =>
      cases houtcome.symm.trans houtcome'
      refine ⟨rid, e.subscribed, ?_, hl, Nat.succ_pos _⟩
      rw [hcounted.1, Store.get?_put, if_pos rfl]
    | refuse _ houtcome' hrefused =>
      cases houtcome.symm.trans houtcome'
      cases hrefused.symm.trans hcounted.2

theorem Acts.vacant (hacts : w.Acts action err w') (hs : w.cache.store.Vacant watched)
    (h : w.cache.Minds watched action.Legal) (hnot : ¬ Step.Strands ⟨w, action, err, w'⟩) :
    w'.cache.store.Vacant watched := by
  cases hacts with
  | add batch rid => exact Cache.merge_vacant hs h rid 1
  | resubscribe batch rid => exact Cache.merge_vacant hs h rid 0
  | event rid name data => exact Cache.handleEvent_vacant hs h rid name
  | setAllStale => exact Cache.setAllStale_vacant hs
  | subscribe rid => exact Cache.subscribe_vacant hs rid
  | fetched reply _ => exact Cache.fetched_vacant hs h _ _
  | @join rid t pending outcome _ houtcome _ =>
    rcases w.cache.join_cases rid outcome with ⟨_, _, heq⟩ | ⟨_, _, heq⟩ | ⟨e, hok, he, heq⟩
    · rw [heq]
      exact hs
    · rw [heq]
      exact hs
    · rw [heq]
      refine hs.put fun hl => absurd ⟨rid, e, he, hl, .inr ⟨t, rfl, ?_⟩⟩ hnot
      rw [houtcome, hok]
  | @refuse rid t outcome fault _ _ hrefused =>
    rcases w.cache.join_cases rid outcome with ⟨_, _, heq⟩ | ⟨_, _, heq⟩ | ⟨e, _, _, heq⟩
    · rw [heq]
      exact hs
    · rw [heq]
      exact hs
    · rw [heq] at hrefused
      cases hrefused
  | loaded _ _ => exact hs
  | @ask rid _ => exact Cache.unsubscribe_vacant hs rid
  | @unsubscribe rid _ => exact Cache.unsubscribe_vacant hs rid
  | @released rid reply _ =>
    cases reply with
    | ok _ => exact Cache.leave_vacant hs rid
    | error fault =>
      exact hs.modify fun e he hl => absurd ⟨rid, e, he, hl, .inl ⟨fault, rfl⟩⟩ hnot
  | subscribeStale => exact hs
  | resubscribed reply _ => exact Cache.resubscribed_vacant hs h _

/-- Nobody is sent to wait for contents that are not there. -/
theorem Acts.told (hacts : w.Acts action err w') (hs : w.cache.store.Vacant watched)
    (hannounced : ∀ x e, w.cache.store.get? x = some e → e.loaded = true →
      w.cache.store.ledger.isSettled e.pending = true)
    (hnot : ¬ Step.Strands ⟨w, action, err, w'⟩) {x : String} {p : Ticket}
    (h : .loading x p ∈ w'.callers) :
    .loading x p ∈ w.callers ∨ w.cache.store.ledger.isSettled p = true := by
  cases hacts with
  | subscribe rid =>
    refine (List.mem_append.mp h).imp_right fun hnew => ?_
    obtain ⟨e, s, hobtain, _, hdirect, hcases⟩ := w.cache.subscribe_cases rid
    rcases hcases with ⟨hpos, heq⟩ | ⟨_, _, _, heq⟩ | ⟨_, _, heq⟩
    · rw [heq] at hnew
      cases List.mem_singleton.mp hnew
      cases hrid : w.cache.store.get? x with
      | none =>
        cases (Store.obtain_of_none hrid).symm.trans hobtain
        exact absurd hpos (Nat.lt_irrefl 0)
      | some e₀ =>
        cases (Store.obtain_of_get? hrid).symm.trans hobtain
        exact hannounced x e hrid (hs.isLoaded hrid hpos)
    · rw [heq] at hnew
      cases List.mem_singleton.mp hnew
    · rw [heq] at hnew
      cases List.mem_singleton.mp hnew
  | @join rid t pending outcome _ houtcome hok =>
    refine (List.mem_append.mp h).imp List.mem_of_mem_erase fun hnew => ?_
    cases List.mem_singleton.mp hnew
    rcases w.cache.join_cases x outcome with ⟨_, _, heq⟩ | ⟨_, _, heq⟩ | ⟨e, hjoined, he, heq⟩
    · rw [heq] at hok
      cases hok
    · rw [heq] at hok
      cases hok
    · rw [heq] at hok
      cases hok
      refine hannounced x e he ?_
      by_contra hl
      exact hnot ⟨x, e, he, by simpa using hl, .inr ⟨t, rfl, by rw [houtcome, hjoined]⟩⟩
  | fetched _ _ => exact .inl (List.mem_of_mem_erase h)
  | refuse _ _ _ => exact .inl (List.mem_of_mem_erase h)
  | loaded _ _ => exact .inl (List.mem_of_mem_erase h)
  | _ => exact .inl h

theorem Trace.vacant (h : Trace registry trace w)
    (hwatched : watched → registry.Quiet ∧ Tame registry trace)
    (hnot : ∀ step ∈ trace, ¬ step.Strands) : w.cache.store.Vacant watched := by
  unfold Trace at h
  induction h with
  | refl =>
    intro x e he
    cases he
  | @step past w₁ w₂ action err hpast hstep ih =>
    have hs := ih (fun hw => (hwatched hw).imp_right fun htame => htame.append.1)
      fun step hmem => hnot step (List.mem_append_left _ hmem)
    refine (acts_of_perform hstep).vacant hs (fun hw => ?_)
      (hnot _ (List.mem_append_right _ List.mem_cons_self))
    obtain ⟨hquiet, htame⟩ := hwatched hw
    obtain ⟨extra, hkept⟩ := kept_of_trace hquiet htame.append.1 hpast
    exact ⟨⟨extra, _, hkept⟩, registry_of_trace hquiet htame.append.1 hpast ▸ htame.last⟩

theorem Trace.told (h : Trace registry trace w) (hquiet : registry.Quiet)
    (htame : Tame registry trace) (hnot : ∀ step ∈ trace, ¬ step.Strands) {x : String} {p : Ticket}
    (hmem : .loading x p ∈ w.callers) : w.cache.store.ledger.isSettled p = true := by
  unfold Trace at h
  induction h with
  | refl => cases hmem
  | @step past w₁ w₂ action err hpast hstep ih =>
    have hnot' : ∀ step ∈ past, ¬ step.Strands :=
      fun step hin => hnot step (List.mem_append_left _ hin)
    have hs : w₁.cache.store.Vacant True :=
      Trace.vacant hpast (fun _ => ⟨hquiet, htame.append.1⟩) hnot'
    obtain ⟨extra, hkept⟩ := kept_of_trace hquiet htame.append.1 hpast
    have hacts := acts_of_perform hstep
    have hbefore : w₁.cache.store.ledger.isSettled p = true := by
      rcases hacts.told hs (fun x e => hkept.rest.announced)
        (hnot _ (List.mem_append_right _ List.mem_cons_self)) hmem with hold | hsettled
      · exact ih htame.append.1 hnot' hold
      · exact hsettled
    obtain ⟨outcome, houtcome⟩ := Option.isSome_iff_exists.mp hbefore
    exact Option.isSome_iff_exists.mpr ⟨outcome, hacts.descends.outcome houtcome⟩

theorem Trace.attended (h : Trace registry trace w) (hquiet : registry.Quiet)
    (htame : Tame registry trace) (hnot : ∀ step ∈ trace, ¬ step.Strands) : w.Attended := by
  obtain ⟨extra, hkept⟩ := kept_of_trace hquiet htame h
  have hs : w.cache.store.Vacant True := Trace.vacant h (fun _ => ⟨hquiet, htame⟩) hnot
  refine ⟨fun {x e} he hcounts => ?_, fun {x e} he hl => ?_, fun hmem => ?_, fun {x t} hmem => ?_⟩
  · have hl : e.loaded = true := by
      by_contra hunloaded
      have hl : e.loaded = false := by simpa using hunloaded
      have hdirect := (hs x e he hl).1
      have hindirect := hkept.rest.indirect_eq_zero he hl
      have hstale : e.stale = false := by
        have hfair := h.fair x ((Store.direct_of_get? he).trans hdirect)
        rw [Store.isStale, he] at hfair
        exact hfair
      simp [hdirect, hindirect, hstale] at hcounts
    exact ⟨hl, (hkept.rest.sound.entry he).filled hl, hkept.rest.announced he hl⟩
  · obtain ⟨t, ht⟩ := Option.isSome_iff_exists.mp ((hs x e he hl).2 trivial)
    exact ⟨t, h.ticketed.marker he ht⟩
  · exact Trace.told h hquiet htame hnot hmem
  · cases houtcome : w.cache.store.ledger.outcome? t with
    | some outcome => exact .inl (Option.isSome_iff_exists.mpr ⟨outcome, houtcome⟩)
    | none => exact .inr (h.ticketed.joined hmem houtcome)

/-- Every moment of a trace is the end of a trace that has the same steps until then. -/
theorem Trace.until (h : Trace registry trace w) {step : Step} (hmem : step ∈ trace) :
    ∃ past later, trace = past ++ later ∧ Trace registry past step.after := by
  obtain ⟨past, later, rfl⟩ := List.append_of_mem hmem
  obtain ⟨hpast, hstep, _⟩ := Passes.at_step h
  exact ⟨past ++ [step], later, by simp, .step hpast hstep⟩

/-- Over every trace no entry without contents ever counts a subscription or is stale, if and only
if no step counts one there, which only a failed network unsubscribe and a caller who has joined a
network subscribe can do. If hooks leave contents alone, and batches list a resource once or new
collections refer to nothing, the same condition decides all that is to be said of those who wait:
whatever is subscribed, referenced or stale is loaded and announced, every other entry has a network
subscribe in flight, and nobody waits for anything that no network subscribe will tell. -/
theorem attended_iff (h : Trace registry trace w) :
    ((∀ step ∈ trace, ∀ x e, step.after.cache.store.get? x = some e → e.loaded = false →
        e.direct = 0 ∧ e.stale = false) ↔ ∀ step ∈ trace, ¬ step.Strands) ∧
    (registry.Quiet → Tame registry trace →
      ((∀ step ∈ trace, step.after.Attended) ↔ ∀ step ∈ trace, ¬ step.Strands)) := by
  have hcounts : ∀ step ∈ trace, step.Strands →
      ∃ x e, step.after.cache.store.get? x = some e ∧ e.loaded = false ∧ 0 < e.direct := by
    intro step hmem hstrands
    obtain ⟨past, later, rfl⟩ := List.append_of_mem hmem
    obtain ⟨_, hstep, _⟩ := Passes.at_step h
    exact Step.Strands.counts hstrands hstep
  refine ⟨⟨fun hall step hmem hstrands => ?_, fun hnot step hmem x e he hl => ?_⟩,
    fun hquiet htame => ⟨fun hall step hmem hstrands => ?_, fun hnot step hmem => ?_⟩⟩
  · obtain ⟨x, e, he, hl, hpos⟩ := hcounts step hmem hstrands
    have hzero := (hall step hmem x e he hl).1
    omega
  · obtain ⟨past, later, rfl, hpast⟩ := h.until hmem
    have hs : step.after.cache.store.Vacant False := Trace.vacant hpast False.elim
      fun step hmem => hnot step (List.mem_append_left _ hmem)
    have hdirect := (hs x e he hl).1
    have hfair := hpast.fair x ((Store.direct_of_get? he).trans hdirect)
    rw [Store.isStale, he] at hfair
    exact ⟨hdirect, hfair⟩
  · obtain ⟨x, e, he, hl, hpos⟩ := hcounts step hmem hstrands
    have hloaded := ((hall step hmem).counted he (.inl hpos)).1
    rw [hl] at hloaded
    cases hloaded
  · obtain ⟨past, later, rfl, hpast⟩ := h.until hmem
    exact hpast.attended hquiet htame.append.1
      fun step hmem => hnot step (List.mem_append_left _ hmem)

def beforeRestored : List Step :=
  [⟨start .empty, .add lone "m", none, taken⟩, ⟨taken, .unsubscribe "m", none, quitting⟩,
    ⟨quitting, .add lone "m", none, retaken⟩, ⟨retaken, .unsubscribe "m", none, requitting⟩,
    ⟨requitting, .released "m" (.ok ()), none, quitted⟩, ⟨quitted, .subscribe "m", none, sought⟩]

def restoredStep : Step := ⟨sought, .released "m" (.error refusal), none, restored⟩

theorem trace_sought : Trace .empty beforeRestored sought := by
  have htaken : Trace .empty _ taken := .next .refl (.add lone "m") rfl
  have hquitting : Trace .empty _ quitting := .next htaken (.unsubscribe "m") rfl
  have hretaken : Trace .empty _ retaken := .next hquitting (.add lone "m") rfl
  have hrequitting : Trace .empty _ requitting := .next hretaken (.unsubscribe "m") rfl
  have hquitted : Trace .empty _ quitted := .next hrequitting (.released "m" (.ok ())) rfl
  exact .next hquitted (.subscribe "m") rfl

theorem not_strands_beforeRestored : ∀ step ∈ beforeRestored, ¬ step.Strands := by
  rintro step hmem ⟨rid, e, _, _, hcounts⟩
  have haction := List.mem_map_of_mem (f := Step.action) hmem
  rcases hcounts with ⟨fault, heq⟩ | ⟨t, heq, _⟩ <;> simp [heq, beforeRestored] at haction

theorem strands_restoredStep : restoredStep.Strands := by
  obtain ⟨shared, hcall⟩ := Cache.subscribe_of_none get?_quitted
  obtain ⟨e, hbegins⟩ := Cache.begins_of_subscribe hcall
  obtain ⟨_, ticket, rfl⟩ := hbegins.entry.resolve_left (by simp [get?_quitted])
  have hsought : sought.cache.store.get? "m" = some ((Entry.fresh ticket).fetching shared) :=
    (hbegins.get? "m").trans (if_pos rfl)
  exact ⟨"m", _, hsought, rfl, .inl ⟨refusal, rfl⟩⟩

/-- Everybody is attended until the first network unsubscribe fails. -/
theorem attended_iff_restored : (∀ step ∈ beforeRestored, step.after.Attended) ∧
    ¬ ∀ step ∈ beforeRestored ++ [restoredStep], step.after.Attended := by
  have htame {trace : List Step} : Tame .empty trace := .inl Registry.bare_empty
  refine ⟨((attended_iff trace_sought).2 Registry.quiet_empty htame).mpr
    not_strands_beforeRestored, fun hall => ?_⟩
  have hrestored : Trace .empty (beforeRestored ++ [restoredStep]) restored :=
    .next trace_sought (.released "m" (.error refusal)) rfl
  exact ((attended_iff hrestored).2 Registry.quiet_empty htame).mp hall restoredStep (by simp)
    strands_restoredStep

end World

end LiveResource
