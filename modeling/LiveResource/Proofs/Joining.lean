import LiveResource.Proofs.Fetches
import LiveResource.Proofs.Tallies

set_option autoImplicit false

/-!
# Subscribers who join

Those who have joined a network subscribe are told its outcome, and count their subscriptions only
when they go on. In between the first subscriber may be done and gone already. Then the resource has
been evicted, and those who joined find nothing, or what was cached in its place.
-/

namespace LiveResource

/-- The resource is there, and whoever waits for its first contents has been told so. -/
def Store.Announced (s : Store) (rid : String) : Prop :=
  ∃ e, s.get? rid = some e ∧ s.ledger.outcome? e.pending = some (.ok ())

namespace World

variable {registry : Registry} {w w' : World} {action : Action} {err : Option CacheError}
  {rid : String} {t : Ticket} {trace past between later : List Step} {reply : Outcome Json}

theorem Acts.joined (hacts : w.Acts action err w') (hw : w.Ticketed)
    (hmem : .joined rid t ∈ w'.callers) :
    .joined rid t ∈ w.callers ∨ .fetching rid t ∈ w.callers := by
  rcases hacts.mem_callers hmem with hold | ⟨x, _, hcall⟩ | ⟨_, _, heq⟩
  · exact .inl hold
  · rcases w.cache.subscribe_call x with ⟨_, _, heq⟩ | ⟨_, e, shared, he, hmarker, heq⟩ |
      ⟨_, _, _, _, heq, _⟩
    · cases hcall.trans heq
    · cases hcall.trans heq
      exact .inr (hw.marker he hmarker)
    · cases hcall.trans heq
  · cases heq

/-- What others have joined is still in flight, or its reply has come. -/
theorem Trace.joined (h : Trace registry trace w) (hmem : .joined rid t ∈ w.callers) :
    .fetching rid t ∈ w.callers ∨ ∃ step ∈ trace, ∃ reply, step.action = .fetched rid t reply := by
  unfold Trace at h
  induction h with
  | refl => cases hmem
  | @step trace w' w'' action err htrace hstep ih =>
    have hacts := acts_of_perform hstep
    have hticketed : w'.Ticketed := Trace.ticketed htrace
    have hnow (hfetching : .fetching rid t ∈ w'.callers) : .fetching rid t ∈ w''.callers ∨
        ∃ step ∈ trace ++ [⟨w', action, err, w''⟩], ∃ reply, step.action = .fetched rid t reply := by
      rcases hacts.waits hfetching with hstill | hserves
      · exact .inl hstill
      · refine .inr ⟨_, List.mem_append_right _ List.mem_cons_self, ?_⟩
        cases action <;> cases hserves
        exact ⟨_, rfl⟩
    rcases hacts.joined hticketed hmem with hold | hfetching
    · rcases ih hold with hfetching | ⟨step, hbefore, hreply⟩
      · exact hnow hfetching
      · exact .inr ⟨step, List.mem_append_left _ hbefore, hreply⟩
    · exact hnow hfetching

theorem Ticketed.outcome_fetched (h : w.Ticketed) (hmem : .fetching rid t ∈ w.callers) :
    (w.cache.fetched rid t reply).2.store.ledger.outcome? t =
      some ((w.cache.fetched rid t reply).1.map fun _ => ()) := by
  have hline : w.cache.store.Lineage (· = rid) (w.closed rid reply) :=
    w.cache.fetched_lineage rid reply
  have hnone := hline.unanswered (h.shared (.inl hmem)) (h.unanswered hmem)
  rw [w.store_fetched]
  change ((w.closed rid reply).ledger.settle t _).outcome? t = _
  rw [Ledger.outcome?_settle, hnone, if_pos rfl]
  rfl

/-- Who has joined a network subscribe is refused with its fault, or because the resource is not
cached, or it is counted. -/
theorem Acts.join_cases (hacts : w.Acts (.join rid t) err w') :
    .joined rid t ∈ w.callers ∧ ∃ outcome, w.cache.store.ledger.outcome? t = some outcome ∧
      ((∃ fault, outcome = .error fault ∧ w.answer? (.join rid t) = some (.error fault) ∧
          w'.cache = w.cache) ∨
        (outcome = .ok () ∧ w.cache.store.get? rid = none ∧
          w.answer? (.join rid t) = some (.error (CacheError.notFound rid).toFault) ∧
          w'.cache = w.cache) ∨
        ∃ e, outcome = .ok () ∧ w.cache.store.get? rid = some e ∧ w.answer? (.join rid t) = none ∧
          w'.cache.store = w.cache.store.put rid e.subscribed ∧
          w'.callers = w.callers.erase (.joined rid t) ++ [.loading rid e.pending]) := by
  cases hacts with
  | @join _ _ pending outcome hmem houtcome hjoin =>
    refine ⟨hmem, outcome, houtcome, .inr (.inr ?_)⟩
    rcases w.cache.join_cases rid outcome with ⟨fault, _, heq⟩ | ⟨_, _, heq⟩ | ⟨e, hok, he, heq⟩
    · rw [heq] at hjoin
      cases hjoin
    · rw [heq] at hjoin
      cases hjoin
    · rw [answer_join houtcome]
      rw [heq] at hjoin ⊢
      cases hjoin
      exact ⟨e, hok, he, rfl, rfl, rfl⟩
  | @refuse _ _ outcome fault hmem houtcome hjoin =>
    refine ⟨hmem, outcome, houtcome, ?_⟩
    rw [answer_join houtcome]
    rcases w.cache.join_cases rid outcome with
      ⟨fault, herr, heq⟩ | ⟨hok, hnone, heq⟩ | ⟨_, _, _, heq⟩
    · rw [heq]
      exact .inl ⟨fault, herr, rfl, rfl⟩
    · rw [heq]
      exact .inr (.inl ⟨hok, hnone, rfl, rfl⟩)
    · rw [heq] at hjoin
      cases hjoin

def Step.Counts (step : Step) (rid : String) : Prop :=
  step.after.cache.store.direct =
    Function.update step.before.cache.store.direct rid (step.before.cache.store.direct rid + 1)

/-- A caller who has joined a network subscribe is counted, and is then served with the handle. -/
def Step.Shares (step : Step) (rid : String) (t : Ticket) (handle : Handle) : Prop :=
  step.Counts rid ∧ step.answer? = none ∧ ∃ pending,
    step.after.callers = step.before.callers.erase (.joined rid t) ++ [.loading rid pending] ∧
    step.after.answer? (.loaded rid pending) = some (.ok handle)

/-- A caller who has joined a network subscribe is told why it is not served. -/
def Step.Refuses (step : Step) (fault : Fault) : Prop :=
  step.answer? = some (.error fault) ∧ step.after.cache = step.before.cache

end World

namespace Store

variable {s s' : Store} {rid : String} {e e' : Entry} {handle : Handle}

/-- The handle of a resource shows that its entry is still there. -/
theorem Descends.handle_iff {marked : String → Prop} (h : s.Descends marked s') (hs : s.Numbered)
    (he : s.get? rid = some e) (hhandle : e.handle? rid = some handle)
    (he' : s'.get? rid = some e') :
    e'.handle? rid = some handle ↔ e'.pending = e.pending := by
  constructor
  · intro hhandle'
    obtain ⟨_, r, _, hr, _, rfl⟩ := Entry.handle?_eq_some hhandle
    obtain ⟨_, r', _, hr', _, heq⟩ := Entry.handle?_eq_some hhandle'
    have hid : r'.id < s.nextReplica := by
      have hsame : r.id = r'.id := congrArg Handle.replica heq
      rw [← hsame]
      exact hs.replica he hr
    obtain ⟨e₀, hancestor, hgrows, _⟩ := h.entry he'
    rcases hgrows.replica hr' with ⟨r₀, hr₀, _⟩ | hnew
    · rcases hancestor with he₀ | ⟨_, _, rfl⟩
      · cases he.symm.trans he₀
        exact hgrows.pending
      · cases hr₀
    · exact absurd hid (Nat.not_lt.mpr hnew)
  · intro hpending
    obtain ⟨e₀, he₀, hgrows, _⟩ := h.old he' (hpending ▸ hs.pending he)
    cases he.symm.trans he₀
    exact hgrows.handle hhandle

end Store

namespace World

variable {registry : Registry} {w w₁ w' : World} {err : Option CacheError} {rid : String}
  {t : Ticket} {trace : List Step} {handle : Handle} {e : Entry}

theorem answer_loaded_iff {pending : Ticket} : w.answer? (.loaded rid pending) = some (.ok handle) ↔
    w.cache.store.ledger.outcome? pending = some (.ok ()) ∧
      w.cache.store.handle? rid = some handle := by
  simp only [answer?]
  cases w.cache.store.ledger.outcome? pending with
  | none => exact iff_of_false (fun h => by cases h) fun h => by cases h.1
  | some outcome =>
    rw [Option.map_some]
    unfold Cache.loaded
    cases outcome with
    | error fault => exact iff_of_false (fun h => by cases h) fun h => by cases h.1
    | ok _ =>
      cases w.cache.store.handle? rid with
      | none => exact iff_of_false (fun h => by cases h) fun h => by cases h.2
      | some handle' =>
        dsimp only
        constructor
        · intro heq
          cases heq
          exact ⟨rfl, rfl⟩
        · rintro ⟨_, heq⟩
          cases heq
          rfl

/-- Who is counted is served exactly if the first contents are there and the resource still has the
entry that it was loaded with. -/
theorem shares_iff (hdescends : w₁.cache.store.Descends (fun _ => True) w.cache.store)
    (hnumbered : w₁.cache.store.Numbered) (he₁ : w₁.cache.store.get? rid = some e)
    (hhandle : e.handle? rid = some handle) (hacts : w.Acts (.join rid t) err w')
    (houtcome : w.cache.store.ledger.outcome? t = some (.ok ())) :
    Step.Shares ⟨w, .join rid t, err, w'⟩ rid t handle ↔
      ¬ w₁.cache.store.Evicted w.cache.store rid ∧ w.cache.store.Announced rid := by
  obtain ⟨_, outcome, houtcome', hcases⟩ := hacts.join_cases
  cases houtcome.symm.trans houtcome'
  rcases hcases with
    ⟨_, herr, _⟩ | ⟨_, hnone, hrefused, _⟩ | ⟨e₂, _, he₂, hanswer, hstore, hcallers⟩
  · cases herr
  · refine iff_of_false (fun hshares => ?_) fun hkept => ?_
    · cases hrefused.symm.trans hshares.2.1
    · obtain ⟨_, he₂, _⟩ := hkept.2
      cases hnone.symm.trans he₂
  · have hiff := hdescends.handle_iff hnumbered he₁ hhandle he₂
    have hevicted : ¬ w₁.cache.store.Evicted w.cache.store rid ↔ e₂.pending = e.pending := by
      constructor
      · intro hkept
        by_contra hother
        refine hkept ⟨e, he₁, fun e' he' => ?_⟩
        cases he₂.symm.trans he'
        exact hother
      · rintro hsame ⟨e', he', hgone⟩
        cases he₁.symm.trans he'
        exact hgone e₂ he₂ hsame
    have hannounced : w.cache.store.Announced rid ↔
        w.cache.store.ledger.outcome? e₂.pending = some (.ok ()) := by
      constructor
      · rintro ⟨e', he', hsettled⟩
        cases he₂.symm.trans he'
        exact hsettled
      · exact fun hsettled => ⟨e₂, he₂, hsettled⟩
    have hserved : w'.answer? (.loaded rid e₂.pending) = some (.ok handle) ↔
        w.cache.store.ledger.outcome? e₂.pending = some (.ok ()) ∧
          e₂.handle? rid = some handle := by
      rw [answer_loaded_iff, hstore]
      unfold Store.handle?
      rw [Store.get?_put, if_pos rfl, Option.bind_some]
      exact Iff.rfl
    rw [hevicted, hannounced, ← hiff]
    constructor
    · rintro ⟨_, _, pending, hcallers', hshown⟩
      have hsame := List.append_cancel_left (hcallers.symm.trans hcallers')
      cases hsame
      exact (hserved.mp hshown).symm
    · intro hkept
      refine ⟨?_, hanswer, e₂.pending, hcallers, hserved.mpr hkept.symm⟩
      exact (congrArg Store.direct hstore).trans
        (Store.direct_of_update (Cache.subscribed_tally he₂))

theorem Acts.fetched_counts {reply : Outcome Json} (hacts : w.Acts (.fetched rid t reply) err w')
    (hfair : w.cache.store.Fair) (hok : w.answer? (.fetched rid t reply) = some (.ok handle)) :
    Step.Counts ⟨w, .fetched rid t reply, err, w'⟩ rid := by
  have hresult : (w.cache.fetched rid t reply).1 = .ok handle := Option.some_inj.mp hok
  cases hacts
  rcases Cache.fetched_tally hfair rid t reply with ⟨_, fault, herr⟩ | htally
  · rw [hresult] at herr
    cases herr
  · exact Store.direct_of_update htally

theorem Acts.fetched_outcome {reply : Outcome Json} (hacts : w.Acts (.fetched rid t reply) err w')
    (hw : w.Ticketed) : w'.cache = (w.cache.fetched rid t reply).2 ∧
      w'.cache.store.ledger.outcome? t =
        some ((w.cache.fetched rid t reply).1.map fun _ => ()) := by
  cases hacts with
  | fetched _ hmem => exact ⟨rfl, hw.outcome_fetched hmem⟩

/-- Nobody goes on before the reply to what they have joined has come. -/
theorem Trace.reply_of_join (h : Trace registry trace w) (hacts : w.Acts (.join rid t) err w') :
    ∃ fetch ∈ trace, ∃ reply, fetch.action = .fetched rid t reply := by
  obtain ⟨hmem, outcome, houtcome, _⟩ := hacts.join_cases
  rcases h.joined hmem with hfetching | hfetched
  · cases (h.ticketed.unanswered hfetching).symm.trans houtcome
  · exact hfetched

theorem Acts.join_of_error {fault : Fault} (hacts : w.Acts (.join rid t) err w')
    (houtcome : w.cache.store.ledger.outcome? t = some (.error fault)) :
    Step.Refuses ⟨w, .join rid t, err, w'⟩ fault := by
  obtain ⟨_, outcome, houtcome', hcases⟩ := hacts.join_cases
  cases houtcome.symm.trans houtcome'
  rcases hcases with ⟨fault', heq, hanswer, hcache⟩ | ⟨heq, _⟩ | ⟨_, heq, _⟩
  · cases heq
    exact ⟨hanswer, hcache⟩
  · cases heq
  · cases heq

theorem Acts.join_of_uncached (hacts : w.Acts (.join rid t) err w')
    (houtcome : w.cache.store.ledger.outcome? t = some (.ok ()))
    (hnone : w.cache.store.get? rid = none) :
    Step.Refuses ⟨w, .join rid t, err, w'⟩ (CacheError.notFound rid).toFault := by
  obtain ⟨_, outcome, houtcome', hcases⟩ := hacts.join_cases
  cases houtcome.symm.trans houtcome'
  rcases hcases with ⟨_, heq, _⟩ | ⟨_, _, hanswer, hcache⟩ | ⟨_, _, hget, _⟩
  · cases heq
  · exact ⟨hanswer, hcache⟩
  · cases hnone.symm.trans hget

theorem Acts.join_of_cached (hacts : w.Acts (.join rid t) err w')
    (houtcome : w.cache.store.ledger.outcome? t = some (.ok ()))
    (hsome : w.cache.store.get? rid ≠ none) : Step.Counts ⟨w, .join rid t, err, w'⟩ rid := by
  obtain ⟨_, outcome, houtcome', hcases⟩ := hacts.join_cases
  cases houtcome.symm.trans houtcome'
  rcases hcases with ⟨_, heq, _⟩ | ⟨_, hnone, _⟩ | ⟨e', _, hget, _, hput, _⟩
  · cases heq
  · exact absurd hnone hsome
  · exact (congrArg Store.direct hput).trans (Store.direct_of_update (Cache.subscribed_tally hget))

/-- Whatever a legal run has loaded has been announced. -/
theorem announced_of_kept (hquiet : registry.Quiet) (hrun : Run registry w₁)
    (hnumbered : w₁.cache.store.Numbered)
    (hdescends : w₁.cache.store.Descends (fun _ => True) w.cache.store)
    (he₁ : w₁.cache.store.get? rid = some e) (hloaded : e.loaded = true) (hfault : e.fault? = none)
    (hkept : ¬ w₁.cache.store.Evicted w.cache.store rid) : w.cache.store.Announced rid := by
  have hsettled := (tidy_of_run hquiet hrun).rest.announced he₁ hloaded
  have hthere : ∃ e', w.cache.store.get? rid = some e' ∧ e'.pending = e.pending := by
    by_contra hgone
    exact hkept ⟨e, he₁, fun e' he' hsame => hgone ⟨e', he', hsame⟩⟩
  obtain ⟨e', he', hsame⟩ := hthere
  refine ⟨e', he', ?_⟩
  rw [hsame]
  obtain ⟨outcome, houtcome⟩ := Option.isSome_iff_exists.mp hsettled
  cases outcome with
  | ok _ => exact hdescends.outcome houtcome
  | error fault =>
    have hfailed := (hnumbered.failed he₁ houtcome).2
    rw [hfault] at hfailed
    cases hfailed

/-- Whoever has joined a network subscribe goes on after its reply has come. If it has failed, they
all are told its fault, and nothing changes. If it has succeeded, its caller has been counted, and
each of them is counted and served with the same handle exactly if the resource has not been evicted
in between, and its first contents have been announced. They always have been if every batch lists a
resource once and hooks do not edit values. After an eviction they are refused, or counted for what
is cached in its place. -/
theorem joined_share_iff (h : Trace registry trace w) (rid : String) (t : Ticket) :
    (∀ past join later, trace = past ++ join :: later → join.action = .join rid t →
      ∃ fetch ∈ past, ∃ reply, fetch.action = .fetched rid t reply) ∧
    ∀ past fetch between join later reply, trace = past ++ fetch :: (between ++ join :: later) →
      fetch.action = .fetched rid t reply → join.action = .join rid t →
      (∀ fault, fetch.answer? = some (.error fault) → join.Refuses fault) ∧
      ∀ handle, fetch.answer? = some (.ok handle) → fetch.Counts rid ∧
        (join.Shares rid t handle ↔
          ¬ fetch.after.cache.store.Evicted join.before.cache.store rid ∧
            join.before.cache.store.Announced rid) ∧
        (registry.Quiet → (∀ step ∈ trace, step.action.Legal) →
          (join.Shares rid t handle ↔
            ¬ fetch.after.cache.store.Evicted join.before.cache.store rid)) ∧
        (join.before.cache.store.get? rid = none →
          join.Refuses (CacheError.notFound rid).toFault) ∧
        (join.before.cache.store.get? rid ≠ none → join.Counts rid) := by
  constructor
  · rintro past ⟨before, action, told, after⟩ later rfl haction
    cases haction
    obtain ⟨hpast, hperform, _⟩ := Passes.at_step h
    exact Trace.reply_of_join hpast (acts_of_perform hperform)
  · rintro past ⟨before, action, told, after⟩ between ⟨before', action', told', after'⟩ later reply
      rfl haction haction'
    cases haction
    cases haction'
    obtain ⟨hpast, hperform, hrest⟩ := Passes.at_step h
    obtain ⟨hbetween, hperform', _⟩ := hrest.at_step
    have htrace : Trace registry past before := hpast
    have hacts : before.Acts (.fetched rid t reply) told after := acts_of_perform hperform
    have hacts' : before'.Acts (.join rid t) told' after' := acts_of_perform hperform'
    have hnumbered := (htrace.ticketed.acts hacts).numbered
    have hdescends := hbetween.descends
    obtain ⟨hcache, houtcome⟩ := hacts.fetched_outcome htrace.ticketed
    have htold := hdescends.outcome houtcome
    refine ⟨fun fault hfailed => ?_, fun handle hok => ?_⟩
    · have hresult : (before.cache.fetched rid t reply).1 = .error fault :=
        Option.some_inj.mp hfailed
      rw [hresult] at htold
      exact hacts'.join_of_error htold
    · have hresult : (before.cache.fetched rid t reply).1 = .ok handle := Option.some_inj.mp hok
      obtain ⟨e, he, hloaded, hfault, hhandle, _⟩ := Cache.get?_fetched hresult
      rw [← hcache] at he
      rw [hresult] at htold
      have hiff := shares_iff hdescends hnumbered he hhandle hacts' htold
      refine ⟨hacts.fetched_counts htrace.fair hok, hiff, fun hquiet hlegal => ?_,
        hacts'.join_of_uncached htold, hacts'.join_of_cached htold⟩
      have hlonger : Trace registry (past ++ [⟨before, .fetched rid t reply, told, after⟩]) after :=
        .step hpast hperform
      rw [List.append_cons] at hlegal
      have hrun := hlonger.run fun step hmem => hlegal step (List.mem_append_left _ hmem)
      rw [hiff]
      exact ⟨And.left, fun hkept =>
        ⟨hkept, announced_of_kept hquiet hrun hnumbered hdescends he hloaded hfault hkept⟩⟩

def loneSnapshot : Json := .obj [("models", .obj [("m", .obj [])])]

def accompanied : World :=
  let subscribed := awaiting.cache.subscribe "m"
  { awaiting with cache := subscribed.2, callers := awaiting.callers ++ [subscribed.1] }

def served : World := { accompanied with
  cache := (accompanied.cache.fetched "m" 1 (.ok loneSnapshot)).2
  callers := accompanied.callers.erase (.fetching "m" 1) }

def deserting : World :=
  { served with cache := (served.cache.unsubscribe "m").2, leaving := ["m"] }

def deserted : World :=
  { deserting with cache := (deserting.cache.released "m" (.ok ())).2, leaving := [] }

def disappointed : World := { deserted with callers := deserted.callers.erase (.joined "m" 1) }

def servedStep : Step := ⟨accompanied, .fetched "m" 1 (.ok loneSnapshot), none, served⟩

def disappointedStep : Step := ⟨deserted, .join "m" 1, none, disappointed⟩

def beforeServed : List Step :=
  [awaitingStep, ⟨awaiting, .subscribe "m", none, accompanied⟩]

def beforeDisappointed : List Step :=
  [⟨served, .unsubscribe "m", none, deserting⟩, ⟨deserting, .released "m" (.ok ()), none, deserted⟩]

theorem run_deserting : Run .empty deserting := by
  have hawaiting : Run .empty awaiting := .next .start (.subscribe "m") trivial rfl
  have haccompanied : Run .empty accompanied :=
    .next hawaiting (.subscribe "m") trivial rfl
  have hlegal : (Action.fetched "m" 1 (.ok loneSnapshot)).Legal := by
    intro result batch hresult hbatch
    cases hresult
    cases hbatch
    exact Batch.disjoint_of_models rfl rfl
  have hserved : Run .empty served :=
    .next haccompanied (.fetched "m" 1 (.ok loneSnapshot)) hlegal rfl
  exact .next hserved (.unsubscribe "m") trivial rfl

theorem get?_deserted : deserted.cache.store.get? "m" = none :=
  get?_released Registry.quiet_empty run_deserting (by rfl) (by rfl)

theorem perform_disappointed : deserted.perform (.join "m" 1) = some (none, disappointed) := by
  have hledger : deserted.cache.store.ledger = deserting.cache.store.ledger :=
    deserting.cache.ledger_leave "m"
  have houtcome : deserting.cache.store.ledger.outcome? 1 = some (.ok ()) := by rfl
  have hmem : Call.joined "m" 1 ∈ deserted.callers := List.mem_cons_self
  simp only [perform, if_pos hmem, hledger, houtcome, Option.map_some, Cache.join, get?_deserted]
  rfl

theorem trace_disappointed : Trace .empty
    (beforeServed ++ servedStep :: (beforeDisappointed ++ [disappointedStep])) disappointed := by
  have hawaiting : Trace .empty _ awaiting := .next .refl (.subscribe "m") rfl
  have haccompanied : Trace .empty _ accompanied :=
    .next hawaiting (.subscribe "m") rfl
  have hserved : Trace .empty _ served :=
    .next haccompanied (.fetched "m" 1 (.ok loneSnapshot)) rfl
  have hdeserting : Trace .empty _ deserting := .next hserved (.unsubscribe "m") rfl
  have hdeserted : Trace .empty _ deserted :=
    .next hdeserting (.released "m" (.ok ())) rfl
  exact .step hdeserted perform_disappointed

/-- The first caller is given a handle, and the one who has joined it is refused. -/
theorem joined_share_iff_disappointed :
    servedStep.answer? = some (.ok ⟨"m", .model, 0⟩) ∧
    disappointedStep.Refuses (CacheError.notFound "m").toFault ∧
    ¬ disappointedStep.Shares "m" 1 ⟨"m", .model, 0⟩ := by
  have hserved : servedStep.answer? = some (.ok ⟨"m", .model, 0⟩) := by rfl
  obtain ⟨_, hshare⟩ := joined_share_iff trace_disappointed "m" 1
  obtain ⟨_, hshare⟩ := hshare beforeServed servedStep beforeDisappointed disappointedStep []
    (.ok loneSnapshot) rfl rfl rfl
  obtain ⟨_, hiff, _, hrefused, _⟩ := hshare _ hserved
  refine ⟨hserved, hrefused get?_deserted, fun hshares => ?_⟩
  obtain ⟨e, he, _⟩ := (hiff.mp hshares).2
  cases get?_deserted.symm.trans he

end World

end LiveResource
