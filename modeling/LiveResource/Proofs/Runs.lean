import LiveResource.Proofs.Stages

set_option autoImplicit false

/-!
# Runs of a cache

Any number of calls may be under way while batches are merged and events arrive. After every step
each entry counts exactly the references to its resource, and what is loaded is what can be reached
from subscriptions and from resources that are being left. Only a batch that lists a resource in
several sections can make an entry count too much.
-/

namespace LiveResource

/-- A cache with the calls that are under way. -/
structure World where
  cache : Cache
  /-- Those who want a resource and wait. -/
  callers : List Call
  /-- The resources whose network unsubscribe is unanswered. -/
  leaving : List String
  /-- The stale resources whose network subscribe is unanswered. -/
  resubscribing : List String

/-- What can happen to a cache next. It is assumed that callers take turns only where they wait. So a
caller who gets the reply to a network subscribe merges it, takes the mark off the entry and wakes
those who have joined, and nothing else happens in between. -/
inductive Action
  | add (batch : Batch) (rid : String)
  | resubscribe (batch : Batch) (rid : String)
  | event (rid name : String) (data : Option Json)
  | setAllStale
  | subscribe (rid : String)
  /-- The reply to a network subscribe. -/
  | fetched (rid : String) (shared : Ticket) (reply : Outcome Json)
  /-- A caller who joined another one goes on. -/
  | join (rid : String) (shared : Ticket)
  /-- A caller who waited for the first contents goes on. -/
  | loaded (rid : String) (pending : Ticket)
  | unsubscribe (rid : String)
  /-- The reply to a network unsubscribe. -/
  | released (rid : String) (reply : Outcome Unit)
  /-- All stale resources are to be subscribed again. -/
  | subscribeStale
  /-- The reply to the network subscribe of a stale resource. -/
  | resubscribed (rid : String) (reply : Outcome Json)

namespace Action

/-- Every batch that comes with an action lists a resource in one section only. -/
def Legal : Action → Prop
  | add batch _ => batch.Disjoint
  | resubscribe batch _ => batch.Disjoint
  | event _ _ data => EmbedsDisjoint data
  | fetched _ _ reply => Cache.RepliesDisjoint reply
  | resubscribed _ reply => Cache.RepliesDisjoint reply
  | _ => True

end Action

namespace World

def start (registry : Registry) : World :=
  ⟨{ Cache.empty with registry := registry }, [], [], []⟩

def told {α : Type} : Except CacheError α → Option CacheError
  | .ok _ => none
  | .error err => some err

theorem eq_error_of_told {α : Type} {result : Except CacheError α} {err : CacheError}
    (h : told result = some err) : result = .error err := by
  cases result with
  | ok a => cases h
  | error e =>
    cases h
    rfl

/-- Do what comes next, if it can be done now. Gives the error that is returned to the caller. -/
def perform (w : World) : Action → Option (Option CacheError × World)
  | .add batch rid =>
    let (result, cache) := w.cache.add batch rid
    some (told result, { w with cache := cache })
  | .resubscribe batch rid =>
    let (result, cache) := w.cache.resubscribe batch rid
    some (told result, { w with cache := cache })
  | .event rid name data =>
    let (result, cache) := w.cache.handleEvent rid name data
    some (told result, { w with cache := cache })
  | .setAllStale => some (none, { w with cache := w.cache.setAllStale.2 })
  | .subscribe rid =>
    let (call, cache) := w.cache.subscribe rid
    some (none, { w with cache := cache, callers := w.callers ++ [call] })
  | .fetched rid shared reply =>
    if .fetching rid shared ∈ w.callers then
      some (none, { w with
        cache := (w.cache.fetched rid shared reply).2
        callers := w.callers.erase (.fetching rid shared) })
    else none
  | .join rid shared =>
    if .joined rid shared ∈ w.callers then
      (w.cache.store.ledger.outcome? shared).map fun outcome =>
        let rest := w.callers.erase (.joined rid shared)
        match w.cache.join rid outcome with
        | (.ok pending, cache) =>
          (none, { w with cache := cache, callers := rest ++ [.loading rid pending] })
        | (.error _, cache) => (none, { w with cache := cache, callers := rest })
    else none
  | .loaded rid pending =>
    if .loading rid pending ∈ w.callers ∧ w.cache.store.ledger.isSettled pending then
      some (none, { w with callers := w.callers.erase (.loading rid pending) })
    else none
  | .unsubscribe rid =>
    match w.cache.unsubscribe rid with
    | (.ok .asking, cache) =>
      some (none, { w with cache := cache, leaving := rid :: w.leaving })
    | (_, cache) => some (none, { w with cache := cache })
  | .released rid reply =>
    if rid ∈ w.leaving then
      some (none, { w with
        cache := (w.cache.released rid reply).2
        leaving := w.leaving.erase rid })
    else none
  | .subscribeStale =>
    some (none, { w with resubscribing := w.resubscribing ++ w.cache.store.staleRids })
  | .resubscribed rid reply =>
    if rid ∈ w.resubscribing then
      some (none, { w with
        cache := w.cache.resubscribed rid reply
        resubscribing := w.resubscribing.erase rid })
    else none

/-- What a cache and its calls can get to, beginning with nothing. -/
inductive Run (registry : Registry) : World → Prop
  | start : Run registry (start registry)
  | step {w w' : World} {action : Action} {err : Option CacheError} : Run registry w →
    action.Legal → w.perform action = some (err, w') → Run registry w'

variable {w w' : World} {action : Action} {err : Option CacheError} {registry : Registry}

theorem Run.next (h : Run registry w) (action : Action) (hlegal : action.Legal)
    (hstep : w.perform action = some (err, w')) : Run registry w' := .step h hlegal hstep

/-- Everything that is loaded is kept by subscriptions and by what is being left. -/
def Tidy (w : World) : Prop := w.cache.Tidy (· ∈ w.leaving)

/-- Whatever comes next leaves the cache in order, and returns no error about counts. -/
theorem kept_perform {extra : String → Nat} (hbare : w.cache.registry.Bare ∨ action.Legal)
    (h : w.cache.Kept extra (· ∈ w.leaving)) (hstep : w.perform action = some (err, w')) :
    w'.cache.KeptUnless action.Legal extra (· ∈ w'.leaving) ∧
      ∀ e, err = some e → Cache.Harmless e := by
  cases action with
  | add batch rid =>
    cases hstep
    obtain ⟨hkept, herr⟩ := Cache.merge_kept h hbare rid 1
    exact ⟨hkept, fun e he => herr e (eq_error_of_told he)⟩
  | resubscribe batch rid =>
    cases hstep
    obtain ⟨hkept, herr⟩ := Cache.merge_kept h hbare rid 0
    exact ⟨hkept, fun e he => herr e (eq_error_of_told he)⟩
  | event rid name data =>
    cases hstep
    obtain ⟨hkept, herr⟩ := Cache.handleEvent_kept h hbare rid name
    exact ⟨hkept, fun e he => herr e (eq_error_of_told he)⟩
  | setAllStale =>
    cases hstep
    exact ⟨.of_kept (Cache.setAllStale_spec h), fun e he => by cases he⟩
  | subscribe rid =>
    cases hstep
    exact ⟨.of_kept (Cache.subscribe_spec h rid), fun e he => by cases he⟩
  | fetched rid shared reply =>
    simp only [perform] at hstep
    split at hstep
    · cases hstep
      exact ⟨Cache.fetched_spec h hbare rid shared, fun e he => by cases he⟩
    · cases hstep
  | join rid shared =>
    simp only [perform] at hstep
    split at hstep
    · obtain ⟨outcome, _, heq⟩ := Option.map_eq_some_iff.mp hstep
      have hjoin := Cache.join_spec h rid outcome
      split at heq
      · rename_i pending cache hresult
        rw [hresult] at hjoin
        cases heq
        exact ⟨.of_kept hjoin, fun e he => by cases he⟩
      · rename_i fault cache hresult
        rw [hresult] at hjoin
        cases heq
        exact ⟨.of_kept hjoin, fun e he => by cases he⟩
    · cases hstep
  | loaded rid pending =>
    simp only [perform] at hstep
    split at hstep
    · cases hstep
      exact ⟨.of_kept h, fun e he => by cases he⟩
    · cases hstep
  | unsubscribe rid =>
    have hleaving := Cache.unsubscribe_spec h rid
    simp only [perform] at hstep
    split at hstep
    · rename_i cache hresult
      rw [hresult] at hleaving
      cases hstep
      refine ⟨.of_kept (hleaving.weaken fun r hr => ?_), fun e he => by cases he⟩
      rcases hr with hr | ⟨_, rfl⟩
      · exact List.mem_cons_of_mem _ hr
      · exact List.mem_cons_self
    · rename_i result cache hnot hresult
      rw [hresult] at hleaving
      cases hstep
      refine ⟨.of_kept (hleaving.weaken fun r hr => hr.resolve_right fun hasking => ?_),
        fun e he => by cases he⟩
      exact hnot hasking.1
  | released rid reply =>
    simp only [perform] at hstep
    split at hstep
    · cases hstep
      refine ⟨.of_kept (Cache.released_spec (h.weaken fun r hr => ?_) reply),
        fun e he => by cases he⟩
      by_cases hrid : r = rid
      · exact .inr hrid
      · exact .inl ((List.mem_erase_of_ne hrid).mpr hr)
    · cases hstep
  | subscribeStale =>
    cases hstep
    exact ⟨.of_kept h, fun e he => by cases he⟩
  | resubscribed rid reply =>
    simp only [perform] at hstep
    split at hstep
    · cases hstep
      exact ⟨Cache.resubscribed_spec h hbare rid, fun e he => by cases he⟩
    · cases hstep

theorem tidy_perform (h : w.Tidy) (hlegal : action.Legal)
    (hstep : w.perform action = some (err, w')) :
    w'.Tidy ∧ ∀ e, err = some e → Cache.Harmless e :=
  (kept_perform (.inr hlegal) h hstep).imp_left fun hkept => hkept.kept hlegal

theorem tidy_of_run (hregistry : registry.Quiet) (h : Run registry w) : w.Tidy := by
  induction h with
  | start => exact Cache.tidy_empty hregistry
  | step _ hlegal hstep ih => exact (tidy_perform ih hlegal hstep).1

theorem isLoaded_of_reaches {s : Store} (h : s.AtRest) {a x : String}
    (ha : s.isLoaded a = true) (hreach : s.Reaches a x) : s.isLoaded x = true := by
  induction hreach with
  | refl => exact ha
  | @tail b x _ hbx _ =>
    obtain ⟨e, he, hmem⟩ := Store.get?_of_mem_refs hbx
    exact h.accounted.closed he hmem

/-- What leads somewhere else is loaded. -/
theorem eq_or_isLoaded_of_reaches {s : Store} (h : s.AtRest) {a x : String}
    (hreach : s.Reaches a x) : a = x ∨ s.isLoaded a = true := by
  rcases Relation.ReflTransGen.cases_head hreach with heq | ⟨b, hab, _⟩
  · exact .inl heq
  · exact .inr (h.settled.isLoaded_of_mem_refs hab)

/-- After any run, all that a loaded subscribed resource leads to is loaded, and all that is loaded
    is led to from a subscribed resource or from one that is being left. A resource that is not
    loaded leads to nothing else. So once nothing is being left, the loaded resources are those that
    the loaded subscribed ones lead to, and they are those that the subscribed ones lead to if and
    only if every subscribed resource is loaded. -/
theorem loaded_iff_reachable (hregistry : registry.Quiet) (h : Run registry w) :
    (∀ d x, w.cache.store.isLoaded d = true → 0 < w.cache.store.direct d →
      w.cache.store.Reaches d x → w.cache.store.isLoaded x = true) ∧
    (∀ x, w.cache.store.isLoaded x = true →
      ∃ r, (0 < w.cache.store.direct r ∨ r ∈ w.leaving) ∧ w.cache.store.Reaches r x) ∧
    (∀ d x, w.cache.store.isLoaded d = false → w.cache.store.Reaches d x → d = x) ∧
    (w.leaving = [] → (∀ x, w.cache.store.isLoaded x = true ↔
      ∃ d, w.cache.store.isLoaded d = true ∧ 0 < w.cache.store.direct d ∧
        w.cache.store.Reaches d x) ∧
      ((∀ x, w.cache.store.isLoaded x = true ↔
        ∃ d, 0 < w.cache.store.direct d ∧ w.cache.store.Reaches d x) ↔
        ∀ d, 0 < w.cache.store.direct d → w.cache.store.isLoaded d = true)) := by
  have htidy := tidy_of_run hregistry h
  have hrooted : ∀ x, w.cache.store.isLoaded x = true →
      ∃ r, (0 < w.cache.store.direct r ∨ r ∈ w.leaving) ∧ w.cache.store.Reaches r x := by
    intro x hx
    obtain ⟨r, hr, hlead⟩ := htidy.rooted x hx
    rw [htidy.rest.settled.links_eq_refs] at hlead
    exact ⟨r, hr, hlead⟩
  have hloading (d x : String) (hd : w.cache.store.isLoaded d = false)
      (hreach : w.cache.store.Reaches d x) : d = x := by
    rcases eq_or_isLoaded_of_reaches htidy.rest hreach with heq | hloaded
    · exact heq
    · rw [hd] at hloaded
      cases hloaded
  have hleads (d x : String) (hd : w.cache.store.isLoaded d = true)
      (hreach : w.cache.store.Reaches d x) : w.cache.store.isLoaded x = true :=
    isLoaded_of_reaches htidy.rest hd hreach
  refine ⟨fun d x hd _ hreach => hleads d x hd hreach, hrooted, hloading, fun hnone => ?_⟩
  have hholder : ∀ x, w.cache.store.isLoaded x = true →
      ∃ d, w.cache.store.isLoaded d = true ∧ 0 < w.cache.store.direct d ∧
        w.cache.store.Reaches d x := by
    intro x hx
    obtain ⟨r, hr, hreach⟩ := hrooted x hx
    have hpos : 0 < w.cache.store.direct r := hr.resolve_right (by simp [hnone])
    have hloaded : w.cache.store.isLoaded r = true := by
      rcases eq_or_isLoaded_of_reaches htidy.rest hreach with rfl | hloaded
      · exact hx
      · exact hloaded
    exact ⟨r, hloaded, hpos, hreach⟩
  refine ⟨fun x => ⟨hholder x, fun ⟨d, hd, _, hreach⟩ => hleads d x hd hreach⟩,
    fun hall d hd => (hall d).mpr ⟨d, hd, .refl⟩,
    fun hall x => ⟨fun hx => ?_, fun ⟨d, hd, hreach⟩ => hleads d x (hall d hd) hreach⟩⟩
  obtain ⟨d, _, hpos, hreach⟩ := hholder x hx
  exact ⟨d, hpos, hreach⟩

def selfBatch : Batch :=
  ⟨Dict.ofList [("a", Dict.ofList [("next", .obj [("rid", .str "a")])])], ∅, ∅⟩

theorem selfBatch_disjoint : selfBatch.Disjoint := Batch.disjoint_of_models rfl rfl

def selfWorld : World :=
  { start .empty with cache := ((start .empty).cache.add selfBatch "a").2 }

theorem run_selfWorld : Run .empty selfWorld := by
  have hlegal : (Action.add selfBatch "a").Legal := selfBatch_disjoint
  have hstep : (start .empty).perform (.add selfBatch "a") =
      some (told ((start .empty).cache.add selfBatch "a").1, selfWorld) := rfl
  exact .step .start hlegal hstep

theorem loaded_selfWorld : selfWorld.cache.store.isLoaded "a" = true := by rfl

def leafBatch : Batch := ⟨Dict.ofList [("m", ∅)], ∅, ∅⟩

def toLeaf : Json := .obj [("rid", .str "m")]

def twiceBatch : Batch :=
  ⟨Dict.ofList [("a", Dict.ofList [("last", toLeaf), ("next", toLeaf)])], ∅, ∅⟩

def ringData : Json := .obj [("values", .obj [("back", .obj [("rid", .str "a")])])]

def leafWorld : World :=
  { start .empty with cache := ((start .empty).cache.add leafBatch "m").2 }

def twiceWorld : World := { leafWorld with cache := (leafWorld.cache.add twiceBatch "a").2 }

def ringWorld : World :=
  { twiceWorld with cache := (twiceWorld.cache.handleEvent "m" "change" (some ringData)).2 }

/-- The server is asked to end the subscription to the first one. -/
def leavingWorld : World :=
  { ringWorld with cache := (ringWorld.cache.unsubscribe "m").2, leaving := ["m"] }

/-- It has ended the subscription. -/
def leftWorld : World :=
  { leavingWorld with cache := (leavingWorld.cache.released "m" (.ok ())).2, leaving := [] }

theorem run_leavingWorld : Run .empty leavingWorld := by
  have hleaf : Run .empty leafWorld :=
    .next .start (.add leafBatch "m") (Batch.disjoint_of_models rfl rfl) rfl
  have htwice : Run .empty twiceWorld :=
    .next hleaf (.add twiceBatch "a") (Batch.disjoint_of_models rfl rfl) rfl
  have hring : (Action.event "m" "change" (some ringData)).Legal := by
    intro members batch hmembers hbatch
    cases hmembers
    cases hbatch
    exact Batch.disjoint_of_models rfl rfl
  exact .next (.next htwice (.event "m" "change" (some ringData)) hring rfl) (.unsubscribe "m")
    trivial rfl

theorem run_leftWorld : Run .empty leftWorld :=
  .next run_leavingWorld (.released "m" (.ok ())) trivial rfl

theorem purged_leftWorld : ∃ e, leavingWorld.cache.store.get? "m" = some e ∧
    (leavingWorld.cache.store.put "m" e.left).Purged leftWorld.cache.store := by
  rcases Store.Purged.purge.leave leavingWorld.cache "m" with ⟨hheld, _⟩ | ⟨e, he, _, hpurged⟩
  · exact absurd (hheld _ rfl) (by decide +kernel)
  · exact ⟨e, he, hpurged⟩

theorem direct_leftWorld (x : String) :
    leftWorld.cache.store.direct x = leavingWorld.cache.store.direct x := by
  obtain ⟨e, he, hpurged⟩ := purged_leftWorld
  rw [hpurged.direct, Store.direct_put]
  split
  · subst x
    exact (Store.direct_of_get? he).symm
  · rfl

/-- The first model stays, because the other one is subscribed and refers to it. -/
theorem reaches_leftWorld : 0 < leftWorld.cache.store.direct "a" ∧
    leftWorld.cache.store.direct "m" = 0 ∧ leftWorld.cache.store.Reaches "a" "m" := by
  obtain ⟨e, he, hpurged⟩ := purged_leftWorld
  have hpos : 0 < (leavingWorld.cache.store.put "m" e.left).direct "a" := by
    rw [Store.direct_put, if_neg (by decide)]
    decide +kernel
  have hlink : "m" ∈ leftWorld.cache.store.refs "a" := by
    rw [hpurged.refs hpos, Store.refs, Store.get?_put, if_neg (by decide)]
    decide +kernel
  rw [direct_leftWorld, direct_leftWorld]
  exact ⟨by decide +kernel, by decide +kernel, .single hlink⟩

theorem eq_of_direct_leftWorld {d : String} (hd : 0 < leftWorld.cache.store.direct d) :
    d = "a" := by
  rw [direct_leftWorld] at hd
  obtain ⟨e, he, hpos⟩ := Store.get?_of_direct_pos hd
  have hkeys : leavingWorld.cache.store.entries.keys = ["a", "m"] := by decide +kernel
  have hmem := Dict.mem_keys_iff.mpr ⟨e, he⟩
  rw [hkeys] at hmem
  rcases List.mem_pair.mp hmem with rfl | rfl
  · rfl
  · exact absurd hd (by decide +kernel)

theorem loaded_leftWorld :
    leftWorld.cache.store.isLoaded "a" = true ∧ leftWorld.cache.store.isLoaded "m" = true := by
  have hrest := (tidy_of_run Registry.quiet_empty run_leftWorld).rest
  obtain ⟨_, _, hreach⟩ := reaches_leftWorld
  have ha := (eq_or_isLoaded_of_reaches hrest hreach).resolve_left (by decide)
  exact ⟨ha, isLoaded_of_reaches hrest ha hreach⟩

theorem loaded_iff_reachable_ring : leftWorld.leaving = [] ∧
    leftWorld.cache.store.direct "m" = 0 ∧ leftWorld.cache.store.isLoaded "m" = true ∧
    ∀ x, leftWorld.cache.store.isLoaded x = true ↔
      ∃ d, 0 < leftWorld.cache.store.direct d ∧ leftWorld.cache.store.Reaches d x := by
  obtain ⟨hleads, _, _, hleft⟩ := loaded_iff_reachable Registry.quiet_empty run_leftWorld
  obtain ⟨hpos, hzero, hreach⟩ := reaches_leftWorld
  refine ⟨rfl, hzero, hleads "a" "m" loaded_leftWorld.1 hpos hreach,
    (hleft rfl).2.mpr fun d hd => ?_⟩
  obtain rfl := eq_of_direct_leftWorld hd
  exact loaded_leftWorld.1

/-- After any run every entry counts the hard references to its resource, and no count has ever
    become negative or can become so next. -/
theorem indirect_eq_references (hregistry : registry.Quiet) (h : Run registry w) :
    (∀ rid e, w.cache.store.get? rid = some e → e.indirect = w.cache.store.references rid) ∧
    (∀ x, Notice.cacheError (.negativeReferences x) ∉ w.cache.channel) ∧
    ∀ action err w', action.Legal → w.perform action = some (err, w') →
      ∀ x, err ≠ some (.negativeReferences x) := by
  have htidy := tidy_of_run hregistry h
  refine ⟨fun rid e he => htidy.rest.accounted.exact he, htidy.silent,
    fun action err w' hlegal hstep x heq => ?_⟩
  exact (tidy_perform htidy hlegal hstep).2 _ heq x rfl

/-- While the first model is being left, both references to it are counted, and the one back. -/
theorem indirect_eq_references_ring : ∃ m a, leavingWorld.cache.store.get? "m" = some m ∧
    leavingWorld.cache.store.get? "a" = some a ∧ m.direct = 0 ∧
    m.indirect = 2 ∧ leavingWorld.cache.store.references "m" = 2 ∧
    a.indirect = 1 ∧ leavingWorld.cache.store.references "a" = 1 := by
  obtain ⟨hexact, _, _⟩ := indirect_eq_references Registry.quiet_empty run_leavingWorld
  obtain ⟨m, hm⟩ : ∃ m, leavingWorld.cache.store.get? "m" = some m :=
    Option.isSome_iff_exists.mp (by decide +kernel)
  obtain ⟨a, ha⟩ : ∃ a, leavingWorld.cache.store.get? "a" = some a :=
    Option.isSome_iff_exists.mp (by decide +kernel)
  have hcounts : (leavingWorld.cache.store.get? "m").map (fun e => (e.direct, e.indirect)) =
      some (0, 2) := by decide +kernel
  have hback : (leavingWorld.cache.store.get? "a").map (·.indirect) = some 1 := by decide +kernel
  rw [hm, Option.map_some, Option.some_inj, Prod.mk.injEq] at hcounts
  rw [ha, Option.map_some, Option.some_inj] at hback
  exact ⟨m, a, hm, ha, hcounts.1, hcounts.2, (hexact "m" m hm).symm.trans hcounts.2, hback,
    (hexact "a" a ha).symm.trans hback⟩

end World

end LiveResource
