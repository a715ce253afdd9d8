import LiveResource.Proofs.SideBySide

set_option autoImplicit false

/-!
# Faulty and suppressing hooks

Whatever hooks answer, a cache does the same: what is cached and counted, who waits, which requests
are under way and what callers are given does not depend on it. Hooks have a say in what observers
are told, and in that only. First one step is compared in both caches, and then all that follow.
-/

namespace LiveResource

theorem Store.staleRids_plain (s : Store) : s.plain.staleRids = s.staleRids := by
  change ((s.entries.map Entry.plain).filter _).keys = _
  rw [Dict.filter_map]
  exact List.map_map

inductive Verdict
  | merged (result : Except CacheError Handle)
  | held (outcome : Outcome Handle)
  | released (outcome : Outcome Unit)
  | counted (resources : Nat)

namespace World

variable {r r' : Registry} {w w' v v' : World} {action : Action} {err : Option CacheError}

def verdict? (w : World) : Action → Option Verdict
  | .add batch rid => some (.merged (w.cache.add batch rid).1)
  | .resubscribe batch rid => some (.merged (w.cache.resubscribe batch rid).1)
  | .fetched rid shared reply => some (.held (w.cache.fetched rid shared reply).1)
  | .join rid shared =>
    match (w.cache.store.ledger.outcome? shared).map fun outcome => (w.cache.join rid outcome).1 with
    | some (.error fault) => some (.held (.error fault))
    | _ => none
  | .loaded rid pending =>
    (w.cache.store.ledger.outcome? pending).map fun outcome => .held (w.cache.loaded rid outcome)
  | .unsubscribe rid =>
    match (w.cache.unsubscribe rid).1 with
    | .ok .asking => none
    | .ok .done => some (.released (.ok ()))
    | .error fault => some (.released (.error fault))
  | .released rid reply => some (.released (w.cache.released rid reply).1)
  | .setAllStale => some (.counted w.cache.setAllStale.1)
  | .event _ _ _ | .subscribe _ | .subscribeStale | .resubscribed _ _ => none

/-- Two worlds that differ in their hooks and in what has been sent: the same calls wait, and the
same requests are under way. -/
structure Alike (r r' : Registry) (w w' : World) : Prop
    extends Cache.Alike r r' w.cache w'.cache where
  callers : w.callers = w'.callers
  leaving : w.leaving = w'.leaving
  resubscribing : w.resubscribing = w'.resubscribing

theorem alike_start (r r' : Registry) : Alike r r' (start r) (start r') := by
  have hdressed (registry : Registry) : Store.empty.Dressed registry := by
    have hnone {place : Option String} {q : Replica} : ¬ Store.empty.Has place q := by
      intro hq
      cases place <;> cases hq
    exact ⟨fun {x q} hq => absurd (a := Store.empty.Has (some x) q) hq hnone,
      fun hq => absurd hq hnone, fun hq => absurd hq hnone⟩
  exact ⟨⟨rfl, rfl, rfl, hdressed r, hdressed r'⟩, rfl, rfl, rfl⟩

theorem perform_of_acts (h : w.Acts action err v) : w.perform action = some (err, v) := by
  cases h with
  | fetched _ hmem => simp only [perform, if_pos hmem]
  | join hmem htold hjoined =>
    simp only [perform, if_pos hmem, htold, Option.map_some]
    split
    · rename_i hresult
      cases (congrArg Prod.fst hresult).symm.trans hjoined
      rw [hresult]
    · rename_i hresult
      cases (congrArg Prod.fst hresult).symm.trans hjoined
  | refuse hmem htold hrefused =>
    simp only [perform, if_pos hmem, htold, Option.map_some]
    split
    · rename_i hresult
      cases (congrArg Prod.fst hresult).symm.trans hrefused
    · rename_i hresult
      rw [hresult]
  | loaded hmem htold =>
    have hsettled : w.cache.store.ledger.isSettled _ = true := Option.isSome_iff_exists.mpr ⟨_, htold⟩
    simp only [perform, if_pos (And.intro hmem hsettled)]
  | ask hask =>
    simp only [perform]
    split
    · rename_i hresult
      rw [hresult]
    · rename_i hnot hresult
      exact absurd ((congrArg Prod.fst hresult).symm.trans hask) hnot
  | unsubscribe hnot =>
    simp only [perform]
  | released reply hmem => simp only [perform, if_pos hmem]
  | resubscribed reply hmem => simp only [perform, if_pos hmem]
  | _ => rfl

/-- Whatever can be done next in one of two worlds can be done in the other one, and comes to the
same. -/
theorem both_perform (hquiet : r.Quiet) (htransparent : r'.Transparent) (htwins : r.Twins r')
    (h : Alike r r' w w') (hfit : w'.cache.store.Fit) (hbare : r'.Bare ∨ action.Legal)
    (hstep : w.perform action = some (err, v)) :
    ∃ v', w'.perform action = some (err, v') ∧ Alike r r' v v' ∧
      w.verdict? action = w'.verdict? action ∧
      ∃ calls, Cache.Since r r' w.cache w'.cache calls v.cache v'.cache := by
  obtain ⟨c, callers, leaving, resubscribing⟩ := w
  obtain ⟨c', callers', leaving', resubscribing'⟩ := w'
  obtain ⟨h, hcallers, hleaving, hresubscribing⟩ := h
  dsimp only at h hcallers hleaving hresubscribing hfit
  subst hcallers hleaving hresubscribing
  have hledger : c.store.ledger = c'.store.ledger := (congrArg Store.ledger h.plain :)
  have hstale : c.store.staleRids = c'.store.staleRids :=
    Store.congr_plain Store.staleRids Store.staleRids_plain h.plain
  -- what has become of the caches is all that can differ
  have hdone {d' : Cache} {calls : List HookCall}
      (hsince : Cache.Since r r' c c' calls v.cache d')
      (hacts : Acts ⟨c', callers, leaving, resubscribing⟩ action err { v with cache := d' })
      (hverdict : verdict? ⟨c, callers, leaving, resubscribing⟩ action =
        verdict? ⟨c', callers, leaving, resubscribing⟩ action) :
      ∃ v', World.perform ⟨c', callers, leaving, resubscribing⟩ action = some (err, v') ∧
        Alike r r' v v' ∧ verdict? ⟨c, callers, leaving, resubscribing⟩ action =
          verdict? ⟨c', callers, leaving, resubscribing⟩ action ∧
        ∃ calls, Cache.Since r r' c c' calls v.cache v'.cache :=
    ⟨_, perform_of_acts hacts, ⟨hsince.alike, rfl, rfl, rfl⟩, hverdict, calls, hsince⟩
  cases acts_of_perform hstep with
  | add batch rid =>
    obtain ⟨⟨hresult, calls, hsince⟩, _⟩ :=
      Cache.merge_both hquiet htransparent htwins h hfit hbare rid 1
    refine hdone hsince ?_ (congrArg (some ∘ Verdict.merged) hresult)
    dsimp only [Cache.add]
    rw [hresult]
    exact .add batch rid
  | resubscribe batch rid =>
    obtain ⟨⟨hresult, calls, hsince⟩, _⟩ :=
      Cache.merge_both hquiet htransparent htwins h hfit hbare rid 0
    refine hdone hsince ?_ (congrArg (some ∘ Verdict.merged) hresult)
    dsimp only [Cache.resubscribe]
    rw [hresult]
    exact .resubscribe batch rid
  | event rid name data =>
    obtain ⟨hresult, calls, hsince⟩ :=
      Cache.handleEvent_both hquiet htransparent htwins h hfit hbare rid name
    refine hdone hsince ?_ rfl
    dsimp only at hresult
    rw [hresult]
    exact .event rid name data
  | setAllStale =>
    obtain ⟨hresult, calls, hsince⟩ := Cache.setAllStale_both h
    exact hdone hsince .setAllStale (congrArg (some ∘ Verdict.counted) hresult)
  | subscribe rid =>
    obtain ⟨hresult, calls, hsince⟩ := Cache.subscribe_both h rid
    refine hdone hsince ?_ rfl
    dsimp only
    rw [hresult]
    exact .subscribe rid
  | @fetched rid shared reply hmem =>
    obtain ⟨hresult, calls, hsince⟩ :=
      Cache.fetched_both hquiet htransparent htwins h hfit hbare rid shared
    exact hdone hsince (.fetched reply hmem) (congrArg (some ∘ Verdict.held) hresult)
  | @join rid shared pending outcome hmem htold hjoined =>
    obtain ⟨hresult, calls, hsince⟩ := Cache.join_both h rid outcome
    refine hdone hsince (.join hmem (hledger ▸ htold) (hresult ▸ hjoined)) ?_
    simp only [verdict?, ← hledger, htold, Option.map_some, hresult]
  | @refuse rid shared outcome fault hmem htold hrefused =>
    obtain ⟨hresult, calls, hsince⟩ := Cache.join_both h rid outcome
    refine hdone hsince (.refuse hmem (hledger ▸ htold) (hresult ▸ hrefused)) ?_
    simp only [verdict?, ← hledger, htold, Option.map_some, hresult]
  | @loaded rid pending outcome hmem htold =>
    refine hdone h.since (.loaded hmem (hledger ▸ htold)) ?_
    simp only [verdict?, ← hledger, htold, Option.map_some, Cache.loaded_both h]
  | @ask rid hask =>
    obtain ⟨hresult, calls, hsince⟩ := Cache.unsubscribe_both h hfit rid
    refine hdone hsince (.ask (hresult ▸ hask)) ?_
    simp only [verdict?, hresult]
  | @unsubscribe rid hnot =>
    obtain ⟨hresult, calls, hsince⟩ := Cache.unsubscribe_both h hfit rid
    refine hdone hsince (.unsubscribe (hresult ▸ hnot)) ?_
    simp only [verdict?, hresult]
  | @released rid reply hmem =>
    obtain ⟨hresult, calls, hsince⟩ := Cache.released_both h hfit rid reply
    exact hdone hsince (.released reply hmem) (congrArg (some ∘ Verdict.released) hresult)
  | subscribeStale =>
    refine hdone h.since ?_ rfl
    dsimp only
    rw [hstale]
    exact .subscribeStale
  | @resubscribed rid reply hmem =>
    obtain ⟨calls, hsince⟩ :=
      Cache.resubscribed_both hquiet htransparent htwins h hfit hbare rid
    exact hdone hsince (.resubscribed reply hmem) rfl

/-- What observers are told in a step: each hook call leaves what it was answered, a failure one
error of its resource. -/
structure Step.Answers (registry : Registry) (step : Step) (calls : List HookCall)
    (news : List Notice) : Prop where
  served : step.after.cache.store.Served registry step.before.cache.store calls
  sent : step.after.cache.channel = step.before.cache.channel ++ news
  relays : Relays registry calls news

/-- Two steps that differ in the answers of hooks only. -/
structure Step.Alike (r r' : Registry) (step step' : Step) : Prop where
  before : World.Alike r r' step.before step'.before
  action : step.action = step'.action
  told : step.told = step'.told
  verdict : step.before.verdict? step.action = step'.before.verdict? step'.action
  after : World.Alike r r' step.after step'.after
  answers : ∃ calls news news', step.Answers r calls news ∧ step'.Answers r' calls news' ∧
    news.filter (·.isOther) = news'.filter (·.isOther)

theorem Step.Alike.map_action {later later' : List Step}
    (h : List.Forall₂ (Step.Alike r r') later later') :
    later'.map (·.action) = later.map (·.action) := by
  induction h with
  | nil => rfl
  | cons hstep _ ih => rw [List.map_cons, List.map_cons, ih, hstep.action]

theorem Passes.unique {later later' : List Step} (h : Passes w later v)
    (h' : Passes w later' v') (hactions : later'.map (·.action) = later.map (·.action)) :
    later' = later ∧ v' = v := by
  induction h generalizing later' v' with
  | refl =>
    rw [List.map_nil, List.map_eq_nil_iff] at hactions
    subst hactions
    exact ⟨rfl, h'.eq_of_nil.symm⟩
  | @step trace w₁ w₂ action err htrace hstep ih =>
    cases h' with
    | refl => simp at hactions
    | @step trace' w₁' w₂' action' err' htrace' hstep' =>
      rw [List.map_append, List.map_append] at hactions
      obtain ⟨hrest, hlast⟩ := List.append_inj' hactions rfl
      obtain ⟨rfl, rfl⟩ := ih htrace' hrest
      obtain rfl : action' = action := (List.cons.inj hlast).1
      cases hstep.symm.trans hstep'
      exact ⟨rfl, rfl⟩

/-- What happens to one of two worlds can happen to the other one, step by step. -/
theorem both_passes {later : List Step} (hquiet : r.Quiet) (htransparent : r'.Transparent)
    (htwins : r.Twins r') (htame : Tame r later) (h : Alike r r' w w')
    (hfit : w'.cache.store.Fit) (hpasses : Passes w later v) :
    ∃ later' v', Passes w' later' v' ∧ List.Forall₂ (Step.Alike r r') later later' ∧
      Alike r r' v v' ∧ v'.cache.store.Fit := by
  induction hpasses with
  | refl => exact ⟨[], w', .refl, .nil, h, hfit⟩
  | @step trace w₁ w₂ action err htrace hstep ih =>
    obtain ⟨later', w₁', hpasses', halikes, halike, hfit'⟩ := ih htame.append.1
    have hbare : r'.Bare ∨ action.Legal := htame.last.imp_left htwins.bare
    obtain ⟨w₂', hstep', halike', hverdict, calls, hsince⟩ :=
      both_perform hquiet htransparent htwins halike hfit' hbare hstep
    have hregistry := halike.registry'
    have hfeeds := feeds_perform (hregistry ▸ htransparent) (hregistry ▸ hbare) hfit' hstep'
    obtain ⟨news, news', hnews, hnews', hrelays, hrelays', hothers⟩ := hsince.sent
    refine ⟨later' ++ [⟨w₁', action, err, w₂'⟩], w₂', .step hpasses' hstep', ?_, halike',
      hfeeds.fit⟩
    refine List.rel_append halikes (.cons ⟨halike, rfl, rfl, hverdict, halike', calls, news, news',
      ⟨hsince.served, hnews, hrelays⟩, ⟨?_, hnews', hrelays'⟩, hothers⟩ .nil)
    exact hsince.served'.of_start halike.plain

theorem fit_of_alike {past : List Step} (hquiet : r.Quiet) (htransparent : r'.Transparent)
    (htwins : r.Twins r') (htame : Tame r past) (htrace : Trace r past w) (h : Alike r r' w w') :
    w'.cache.store.Fit := by
  obtain ⟨_, v, _, _, halike, hfit⟩ :=
    both_passes hquiet htransparent htwins htame (alike_start r r') (fit_start r') htrace
  exact hfit.of_plain (h.plain.symm.trans halike.plain) htransparent h.dressed'

/-- Beside every world that can be reached there is one in which hooks let everything pass. -/
theorem exists_passing {past : List Step} (hquiet : r.Quiet) (htame : Tame r past)
    (htrace : Trace r past w) : ∃ v, Alike r r.passing w v ∧ v.cache.store.Fit := by
  obtain ⟨_, v, _, _, halike, hfit⟩ := both_passes hquiet r.passing_passing.transparent
    r.twins_passing htame (alike_start r r.passing) (fit_start r.passing) htrace
  exact ⟨v, halike, hfit⟩

theorem registry_of_trace {past : List Step} (hquiet : r.Quiet) (htame : Tame r past)
    (htrace : Trace r past w) : w.cache.registry = r := by
  obtain ⟨_, halike, _⟩ := exists_passing hquiet htame htrace
  exact halike.registry

/-- Hooks that only answer, whatever that is, do not bring a cache out of order. -/
theorem firm_of_trace {past : List Step} (hquiet : r.Quiet) (htame : Tame r past)
    (htrace : Trace r past w) : w.cache.store.Sturdy ∧ w.cache.store.Settled := by
  obtain ⟨v, halike, hfit⟩ := exists_passing hquiet htame htrace
  exact ⟨hfit.sturdy.of_plain halike.plain hquiet halike.dressed,
    hfit.settled.of_plain halike.plain⟩

/-- Faulty and suppressing hooks have no influence on a cache. From two worlds that are the same but
for their hooks, those of the second one letting everything pass, all that can be done in the first
one can be done in the second one. After every step both cache the same, wait for the same and have
asked the server for the same, every call has come to the same, and the same has been sent, save for
the answers of the hooks: in the first world those that its hooks have given, in the second one all
the events that hooks were asked about and no errors. -/
theorem hooks_have_no_influence {past later : List Step} (hquiet : r.Quiet) (hpassing : r'.Passing)
    (htwins : r.Twins r') (htame : Tame r (past ++ later)) (htrace : Trace r past w)
    (halike : Alike r r' w w') (hpasses : Passes w later v) :
    (∃ later' v', Passes w' later' v' ∧ later'.map (·.action) = later.map (·.action)) ∧
    (∀ later' v', Passes w' later' v' → later'.map (·.action) = later.map (·.action) →
      List.Forall₂ (Step.Alike r r') later later' ∧ Alike r r' v v') ∧
    ∀ call : HookCall, call.failed r' = [] ∧
      call.passed r' = (call.question.event? call.rid).toList := by
  have hfit := fit_of_alike hquiet hpassing.transparent htwins htame.append.1 htrace halike
  obtain ⟨later', v', hpasses', hsteps, halike', _⟩ :=
    both_passes hquiet hpassing.transparent htwins htame.append.2 halike hfit hpasses
  have hactions := Step.Alike.map_action hsteps
  refine ⟨⟨later', v', hpasses', hactions⟩, fun other u hother hsame => ?_, fun call => ?_⟩
  · obtain ⟨rfl, rfl⟩ := hpasses'.unique hother (hsame.trans hactions.symm)
    exact ⟨hsteps, halike'⟩
  · have hanswer : r'.answer call = .ok (call.question.event? call.rid) :=
      hpassing.pass call.rid call.question.kind call.turn call.question
    refine ⟨by simp only [HookCall.failed, hanswer], ?_⟩
    rw [HookCall.passed, hanswer]
    cases call.question.event? call.rid <;> rfl

/-- Models whose hooks fail on the first contents, and suppress every change. -/
def faulty : Registry :=
  ⟨.empty, .empty, fun _ => (∅, {
    initModel := fun _ fields => (fields, .error (.internal "init"))
    change := fun _ fields _ => (fields, .ok none) }), fun _ => ([], .pass)⟩

theorem quiet_faulty : faulty.Quiet := by
  refine ⟨fun rid => ?_, fun rid => ?_⟩
  · rw [Registry.createModel, faulty, PatternMap.get?_empty]
    exact ⟨fun _ _ => rfl, fun _ _ => rfl, fun _ _ _ => rfl, fun _ _ _ _ => rfl,
      fun _ _ _ _ => rfl, fun _ _ _ _ => rfl, fun _ _ _ _ => rfl⟩
  · rw [Registry.createCollection, faulty, PatternMap.get?_empty]
    exact Hooks.quiet_pass

theorem bare_faulty : faulty.Bare := fun rid => by
  rw [Registry.createCollection, faulty, PatternMap.get?_empty]
  rfl

def clearing : Json := .obj [("values", .obj [("next", .null)])]

def mergedWorld (registry : Registry) : World :=
  { start registry with cache := ((start registry).cache.add selfBatch "a").2 }

def changedWorld (registry : Registry) : World := { mergedWorld registry with
  cache := ((mergedWorld registry).cache.handleEvent "a" "change" (some clearing)).2 }

def changedSteps (registry : Registry) : List Step :=
  [⟨start registry, .add selfBatch "a", none, mergedWorld registry⟩,
    ⟨mergedWorld registry, .event "a" "change" (some clearing), none, changedWorld registry⟩]

theorem hooks_have_no_influence_faulty :
    (changedWorld faulty).cache.channel = [.cacheError (.handler "a" (.internal "init"))] ∧
    (changedWorld faulty.passing).cache.channel.length = 1 ∧
    Alike faulty faulty.passing (changedWorld faulty) (changedWorld faulty.passing) := by
  refine ⟨rfl, rfl, ?_⟩
  have hpasses : Passes (start faulty) (changedSteps faulty) (changedWorld faulty) :=
    .step (.step .refl rfl) rfl
  have hpasses' : Passes (start faulty.passing) (changedSteps faulty.passing)
      (changedWorld faulty.passing) := .step (.step .refl rfl) rfl
  have htame : Tame faulty ([] ++ changedSteps faulty) := .inl bare_faulty
  have hactions (registry : Registry) : (changedSteps registry).map (·.action) =
      [.add selfBatch "a", .event "a" "change" (some clearing)] := rfl
  obtain ⟨_, hsame, _⟩ := hooks_have_no_influence quiet_faulty faulty.passing_passing
    faulty.twins_passing htame .refl (alike_start faulty faulty.passing) hpasses
  exact (hsame _ _ hpasses' ((hactions _).trans (hactions _).symm)).2

def failingHooks : Hooks where
  initModel _ fields := (fields, .error (.internal "hook"))
  initCollection _ values := (values, .error (.internal "hook"))
  change _ fields _ := (fields, .error (.internal "hook"))
  add _ values _ _ := (values, .error (.internal "hook"))
  remove _ values _ _ := (values, .error (.internal "hook"))
  customModel _ fields _ _ := (fields, .error (.internal "hook"))
  customCollection _ values _ _ := (values, .error (.internal "hook"))

/-- Collections that refer to a model before they are filled, and hooks that always fail. -/
def failing : Registry := planting failingHooks failingHooks

theorem quiet_failing : failing.Quiet := by
  have hquiet : failingHooks.Quiet :=
    ⟨fun _ _ => rfl, fun _ _ => rfl, fun _ _ _ => rfl, fun _ _ _ _ => rfl, fun _ _ _ _ => rfl,
      fun _ _ _ _ => rfl, fun _ _ _ _ => rfl⟩
  refine ⟨fun rid => ?_, fun rid => ?_⟩
  · rw [Registry.createModel, failing, planting, PatternMap.get?_empty]
    exact hquiet
  · rw [Registry.createCollection, failing, planting, PatternMap.get?_empty]
    exact hquiet

theorem failed_failing (call : HookCall) :
    call.failed failing = [.handler call.rid (.internal "hook")] := by
  have hmodel : failing.hooks call.rid .model = failingHooks := by
    rw [Registry.hooks, Registry.createModel, failing, planting, PatternMap.get?_empty]
    rfl
  have hcollection : failing.hooks call.rid .collection = failingHooks := by
    rw [Registry.hooks, Registry.createCollection, failing, planting, PatternMap.get?_empty]
    rfl
  have hanswer : failing.answer call = .error (.internal "hook") := by
    rw [Registry.answer]
    cases call.question <;> simp only [Question.kind, hmodel, hcollection] <;> rfl
  rw [HookCall.failed, hanswer]

theorem turn_before_uprooting {q : Replica} (hid : q.id = 1) {place : Option String}
    (hq : (uprootingStep failing).before.cache.store.Has place q) : q.turn = 1 := by
  have hall : (uprootingStep failing).before.cache.store.entries.entries.all (fun p =>
      p.2.replica.all fun q => q.id ≠ 1 ∨ q.turn = 1) = true := by decide +kernel
  have hretired : (uprootingStep failing).before.cache.store.retired.length = 0 := by
    decide +kernel
  cases place with
  | none =>
    have hmem : q ∈ (uprootingStep failing).before.cache.store.retired := hq
    rw [List.length_eq_zero_iff.mp hretired] at hmem
    cases hmem
  | some x =>
    obtain ⟨e, he, hreplica⟩ := Option.bind_eq_some_iff.mp hq
    have hone := List.all_eq_true.mp hall _ (Dict.mem_entries_iff.mpr he)
    simp only [hreplica, Option.all_some, decide_eq_true_eq] at hone
    exact hone.resolve_left (absurd hid)

/-- In a merge that fails half way the hook of a model is called and fails, and nothing is sent. So
the hooks that have been called are not answered for. -/
theorem failure_untold : ∃ later v, failing.Quiet ∧ Passes (start failing) later v ∧
    ¬ ∀ later' v', Passes (start failing.passing) later' v' →
      later'.map (·.action) = later.map (·.action) →
      List.Forall₂ (Step.Alike failing failing.passing) later later' ∧
        Alike failing failing.passing v v' := by
  refine ⟨plantedSteps failing, _, quiet_failing, passes_plantedSteps failing, fun hall => ?_⟩
  obtain ⟨halikes, _⟩ := hall _ _ (passes_plantedSteps failing.passing)
    ((actions_plantedSteps _).trans (actions_plantedSteps _).symm)
  have hrest := (List.forall₂_cons.mp (List.forall₂_cons.mp (List.forall₂_cons.mp halikes).2).2).2
  have hlast : Step.Alike failing failing.passing (uprootingStep failing)
      (uprootingStep failing.passing) := (List.forall₂_cons.mp hrest).1
  obtain ⟨calls, news, _, ⟨hserved, hsent, hrelays⟩, _⟩ := hlast.answers
  have hsilent : (uprootingStep failing).after.cache.channel.length = 2 := by decide +kernel
  have hbefore : (uprootingStep failing).before.cache.channel.length = 2 := by decide +kernel
  have hnews : news = [] := by
    rw [hsent, List.length_append] at hsilent
    exact List.length_eq_zero_iff.mp (by omega)
  -- every call would have left an error
  have hcalls : calls = [] := by
    have hnone := hrelays.failures
    rw [hnews, List.filterMap_nil] at hnone
    cases hcalls : calls with
    | nil => rfl
    | cons call rest =>
      rw [hcalls, List.flatMap_cons, failed_failing] at hnone
      cases hnone
  have hcalled : ((uprootingStep failing).after.cache.store.replicaOf? "a").map
      (fun q => (q.id, q.turn)) = some (1, 2) := by decide +kernel
  obtain ⟨q, hq, hturn⟩ := Option.map_eq_some_iff.mp hcalled
  obtain ⟨hid, hturn⟩ := Prod.mk.inj hturn
  obtain ⟨before, hstart, hrange⟩ := hserved.turns (show Store.Has _ (some "a") q from hq)
  have hone : before = 1 := by
    rcases hstart with ⟨place, q', hq', hid', hturn'⟩ | ⟨hnext, _⟩
    · exact hturn' ▸ turn_before_uprooting (hid'.trans hid) hq'
    · have hmade : (uprootingStep failing).before.cache.store.nextReplica = 4 := by decide +kernel
      omega
  rw [hcalls, hone, hturn] at hrange
  have hlength := congrArg List.length hrange
  simp [HookCall.turns] at hlength

end World

end LiveResource
