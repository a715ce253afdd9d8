import LiveResource.Proofs.Lineage
import LiveResource.Proofs.Runs
import LiveResource.Proofs.Tallies

set_option autoImplicit false

/-!
# What a cache has been through

A trace lists the steps of a cache and its calls, one after the other. Nothing is assumed of it:
batches may list a resource twice, hooks may edit what a replica holds, and counts of references may
be wrong. The tickets are still in order: who waits under a ticket waits for one thing only.
-/

namespace LiveResource

def Call.fetch? : Call → Option Ticket
  | .fetching _ shared => some shared
  | _ => none

def Action.serves? : Action → Option Call
  | .fetched rid shared _ => some (.fetching rid shared)
  | .join rid shared => some (.joined rid shared)
  | .loaded rid pending => some (.loading rid pending)
  | _ => none

namespace World

variable {registry : Registry} {w w' w'' : World} {action : Action} {err : Option CacheError}
  {rid : String}

/-- All that can be done next, case by case. -/
inductive Acts (w : World) : Action → Option CacheError → World → Prop
  | add (batch : Batch) (rid : String) : Acts w (.add batch rid)
    (told (w.cache.add batch rid).1) { w with cache := (w.cache.add batch rid).2 }
  | resubscribe (batch : Batch) (rid : String) : Acts w (.resubscribe batch rid)
    (told (w.cache.resubscribe batch rid).1) { w with cache := (w.cache.resubscribe batch rid).2 }
  | event (rid name : String) (data : Option Json) : Acts w (.event rid name data)
    (told (w.cache.handleEvent rid name data).1)
    { w with cache := (w.cache.handleEvent rid name data).2 }
  | setAllStale : Acts w .setAllStale none { w with cache := w.cache.setAllStale.2 }
  | subscribe (rid : String) : Acts w (.subscribe rid) none { w with
      cache := (w.cache.subscribe rid).2, callers := w.callers ++ [(w.cache.subscribe rid).1] }
  | fetched {rid : String} {shared : Ticket} (reply : Outcome Json) :
    .fetching rid shared ∈ w.callers → Acts w (.fetched rid shared reply) none { w with
      cache := (w.cache.fetched rid shared reply).2
      callers := w.callers.erase (.fetching rid shared) }
  | join {rid : String} {shared pending : Ticket} {outcome : Outcome Unit} :
    .joined rid shared ∈ w.callers → w.cache.store.ledger.outcome? shared = some outcome →
    (w.cache.join rid outcome).1 = .ok pending → Acts w (.join rid shared) none { w with
      cache := (w.cache.join rid outcome).2
      callers := w.callers.erase (.joined rid shared) ++ [.loading rid pending] }
  | refuse {rid : String} {shared : Ticket} {outcome : Outcome Unit} {fault : Fault} :
    .joined rid shared ∈ w.callers → w.cache.store.ledger.outcome? shared = some outcome →
    (w.cache.join rid outcome).1 = .error fault → Acts w (.join rid shared) none { w with
      cache := (w.cache.join rid outcome).2, callers := w.callers.erase (.joined rid shared) }
  | loaded {rid : String} {pending : Ticket} {outcome : Outcome Unit} :
    .loading rid pending ∈ w.callers → w.cache.store.ledger.outcome? pending = some outcome →
    Acts w (.loaded rid pending) none
      { w with callers := w.callers.erase (.loading rid pending) }
  | ask {rid : String} : (w.cache.unsubscribe rid).1 = .ok .asking →
    Acts w (.unsubscribe rid) none
      { w with cache := (w.cache.unsubscribe rid).2, leaving := rid :: w.leaving }
  | unsubscribe {rid : String} : (w.cache.unsubscribe rid).1 ≠ .ok .asking →
    Acts w (.unsubscribe rid) none { w with cache := (w.cache.unsubscribe rid).2 }
  | released {rid : String} (reply : Outcome Unit) : rid ∈ w.leaving →
    Acts w (.released rid reply) none { w with
      cache := (w.cache.released rid reply).2, leaving := w.leaving.erase rid }
  | subscribeStale : Acts w .subscribeStale none
    { w with resubscribing := w.resubscribing ++ w.cache.store.staleRids }
  | resubscribed {rid : String} (reply : Outcome Json) : rid ∈ w.resubscribing →
    Acts w (.resubscribed rid reply) none { w with
      cache := w.cache.resubscribed rid reply, resubscribing := w.resubscribing.erase rid }

theorem acts_of_perform (h : w.perform action = some (err, w')) : w.Acts action err w' := by
  cases action with
  | add batch rid =>
    cases h
    exact .add batch rid
  | resubscribe batch rid =>
    cases h
    exact .resubscribe batch rid
  | event rid name data =>
    cases h
    exact .event rid name data
  | setAllStale =>
    cases h
    exact .setAllStale
  | subscribe rid =>
    cases h
    exact .subscribe rid
  | fetched rid shared reply =>
    simp only [perform] at h
    split at h
    · rename_i hmem
      cases h
      exact .fetched reply hmem
    · cases h
  | join rid shared =>
    simp only [perform] at h
    split at h
    · rename_i hmem
      obtain ⟨outcome, houtcome, heq⟩ := Option.map_eq_some_iff.mp h
      split at heq
      · rename_i pending cache hjoin
        cases heq
        have hacts := @Acts.join w rid shared pending outcome hmem houtcome (by rw [hjoin])
        rw [hjoin] at hacts
        exact hacts
      · rename_i fault cache hjoin
        cases heq
        have hacts := @Acts.refuse w rid shared outcome fault hmem houtcome (by rw [hjoin])
        rw [hjoin] at hacts
        exact hacts
    · cases h
  | loaded rid pending =>
    simp only [perform] at h
    split at h
    · rename_i hloaded
      cases h
      obtain ⟨outcome, houtcome⟩ := Option.isSome_iff_exists.mp hloaded.2
      exact .loaded hloaded.1 houtcome
    · cases h
  | unsubscribe rid =>
    simp only [perform] at h
    split at h
    · rename_i cache hask
      cases h
      have hacts := @Acts.ask w rid (by rw [hask])
      rw [hask] at hacts
      exact hacts
    · rename_i result cache hnot hleft
      cases h
      have hacts := @Acts.unsubscribe w rid (by rw [hleft]; exact fun heq => hnot heq)
      rw [hleft] at hacts
      exact hacts
  | released rid reply =>
    simp only [perform] at h
    split at h
    · rename_i hmem
      cases h
      exact .released reply hmem
    · cases h
  | subscribeStale =>
    cases h
    exact .subscribeStale
  | resubscribed rid reply =>
    simp only [perform] at h
    split at h
    · rename_i hmem
      cases h
      exact .resubscribed reply hmem
    · cases h

/-- Nobody begins to wait and nobody goes on, or a new caller comes, or one of those who wait goes
on, and may then have to wait for first contents. -/
theorem Acts.callers (hacts : w.Acts action err w') :
    (action.serves? = none ∧ (∀ rid, action ≠ .subscribe rid) ∧ w'.callers = w.callers) ∨
    (∃ rid, action = .subscribe rid ∧ w'.callers = w.callers ++ [(w.cache.subscribe rid).1]) ∨
    ∃ call more, action.serves? = some call ∧ call ∈ w.callers ∧
      w'.callers = w.callers.erase call ++ more ∧
      (more = [] ∨ ∃ rid pending, more = [.loading rid pending]) := by
  cases hacts with
  | subscribe rid => exact .inr (.inl ⟨rid, rfl, rfl⟩)
  | fetched _ hmem =>
    exact .inr (.inr ⟨_, [], rfl, hmem, (List.append_nil _).symm, .inl rfl⟩)
  | @join rid _ pending _ hmem _ _ =>
    exact .inr (.inr ⟨_, _, rfl, hmem, rfl, .inr ⟨rid, pending, rfl⟩⟩)
  | refuse hmem _ _ => exact .inr (.inr ⟨_, [], rfl, hmem, (List.append_nil _).symm, .inl rfl⟩)
  | loaded hmem _ => exact .inr (.inr ⟨_, [], rfl, hmem, (List.append_nil _).symm, .inl rfl⟩)
  | _ => exact .inl ⟨rfl, fun _ heq => (by cases heq), rfl⟩

theorem Acts.mem_callers (hacts : w.Acts action err w') {call : Call} (h : call ∈ w'.callers) :
    call ∈ w.callers ∨ (∃ rid, action = .subscribe rid ∧ call = (w.cache.subscribe rid).1) ∨
      ∃ rid pending, call = .loading rid pending := by
  rcases hacts.callers with ⟨_, _, hsame⟩ | ⟨rid, haction, hmore⟩ | ⟨gone, more, _, _, hmore, hnew⟩
  · exact .inl (hsame ▸ h)
  · rw [hmore] at h
    rcases List.mem_append.mp h with hold | hlast
    · exact .inl hold
    · exact .inr (.inl ⟨rid, haction, List.mem_singleton.mp hlast⟩)
  · rw [hmore] at h
    rcases List.mem_append.mp h with hold | hlast
    · exact .inl (List.mem_of_mem_erase hold)
    · rcases hnew with rfl | ⟨rid, pending, rfl⟩
      · cases hlast
      · exact .inr (.inr ⟨rid, pending, List.mem_singleton.mp hlast⟩)

theorem Acts.waits (hacts : w.Acts action err w') {call : Call} (h : call ∈ w.callers) :
    call ∈ w'.callers ∨ action.serves? = some call := by
  rcases hacts.callers with ⟨_, _, hsame⟩ | ⟨rid, _, hmore⟩ | ⟨gone, more, hserves, _, hmore, _⟩
  · exact .inl (hsame ▸ h)
  · exact .inl (hmore ▸ List.mem_append_left _ h)
  · by_cases heq : call = gone
    · exact .inr (heq ▸ hserves)
    · exact .inl (hmore ▸ List.mem_append_left _ ((List.mem_erase_of_ne heq).mpr h))

structure Step where
  before : World
  action : Action
  /-- The error that was returned at once. -/
  told : Option CacheError
  after : World

/-- What a caller who wants a resource is told, if the action is the end of its call. -/
def answer? (w : World) : Action → Option (Outcome Handle)
  | .add batch rid => some ((w.cache.add batch rid).1.mapError CacheError.toFault)
  | .fetched rid shared reply => some (w.cache.fetched rid shared reply).1
  | .join rid shared =>
    match (w.cache.store.ledger.outcome? shared).map fun outcome => (w.cache.join rid outcome).1 with
    | some (.error fault) => some (.error fault)
    | _ => none
  | .loaded rid pending => (w.cache.store.ledger.outcome? pending).map (w.cache.loaded rid)
  | _ => none

theorem answer_join {t : Ticket} {outcome : Outcome Unit}
    (houtcome : w.cache.store.ledger.outcome? t = some outcome) :
    w.answer? (.join rid t) = match (w.cache.join rid outcome).1 with
      | .error fault => some (.error fault)
      | .ok _ => none := by
  simp only [answer?, houtcome, Option.map_some]
  cases (w.cache.join rid outcome).1 <;> rfl

def Step.answer? (step : Step) : Option (Outcome Handle) := step.before.answer? step.action

/-- The steps from one moment to a later one, in order. -/
inductive Passes (w : World) : List Step → World → Prop
  | refl : Passes w [] w
  | step {trace : List Step} {w' w'' : World} {action : Action} {err : Option CacheError} :
    Passes w trace w' → w'.perform action = some (err, w'') →
    Passes w (trace ++ [⟨w', action, err, w''⟩]) w''

/-- All that a cache has been through since it was empty. -/
def Trace (registry : Registry) (trace : List Step) (w : World) : Prop :=
  Passes (start registry) trace w

namespace Passes

variable {trace past later : List Step} {step : Step}

theorem trans (h : Passes w past w') (h' : Passes w' later w'') : Passes w (past ++ later) w'' := by
  induction h' with
  | refl =>
    rw [List.append_nil]
    exact h
  | step _ hstep ih =>
    rw [← List.append_assoc]
    exact .step ih hstep

theorem split (h : Passes w (past ++ later) w'') :
    ∃ w', Passes w past w' ∧ Passes w' later w'' := by
  generalize hall : past ++ later = all at h
  induction h generalizing later with
  | refl =>
    obtain ⟨rfl, rfl⟩ := List.append_eq_nil_iff.mp hall
    exact ⟨w, .refl, .refl⟩
  | @step trace w₁ w₂ action err htrace hstep ih =>
    rcases List.eq_nil_or_concat later with rfl | ⟨rest, last, rfl⟩
    · rw [List.append_nil] at hall
      subst hall
      exact ⟨w₂, .step htrace hstep, .refl⟩
    · rw [List.concat_eq_append, ← List.append_assoc] at hall
      obtain ⟨hrest, hlast⟩ := List.append_inj' hall rfl
      cases hlast
      obtain ⟨w', hpast, hlater⟩ := ih hrest
      rw [List.concat_eq_append]
      exact ⟨w', hpast, .step hlater hstep⟩

theorem eq_of_nil (h : Passes w [] w') : w = w' := by
  generalize hnil : ([] : List Step) = trace at h
  cases h with
  | refl => rfl
  | step _ _ => exact absurd hnil.symm (List.append_ne_nil_of_right_ne_nil _ (List.cons_ne_nil _ _))

theorem uncons (h : Passes w (step :: later) w'') : w = step.before ∧
    step.before.perform step.action = some (step.told, step.after) ∧
      Passes step.after later w'' := by
  have hsplit : Passes w ([step] ++ later) w'' := h
  obtain ⟨w', hfirst, hlater⟩ := hsplit.split
  generalize hone : [step] = one at hfirst
  cases hfirst with
  | refl => cases hone
  | @step trace w₁ w₂ action err hnone hstep =>
    obtain ⟨hnil, hlast⟩ := List.append_inj' ((List.nil_append [step]).trans hone) rfl
    cases hlast
    subst hnil
    cases hnone.eq_of_nil
    exact ⟨rfl, hstep, hlater⟩

/-- Every step was made at the moment that the steps before it led to. -/
theorem at_step (h : Passes w (past ++ step :: later) w'') : Passes w past step.before ∧
    step.before.perform step.action = some (step.told, step.after) ∧
      Passes step.after later w'' := by
  obtain ⟨w', hpast, hrest⟩ := h.split
  obtain ⟨rfl, hstep, hlater⟩ := hrest.uncons
  exact ⟨hpast, hstep, hlater⟩

end Passes

/-- Whoever waits under a ticket waits for one thing: tickets of network subscribes are not those of
first contents, each belongs to one network subscribe, and it has an outcome only when that is
over. -/
structure Ticketed (w : World) : Prop where
  numbered : w.cache.store.Numbered
  shared : ∀ {rid t}, .fetching rid t ∈ w.callers ∨ .joined rid t ∈ w.callers →
    ¬ w.cache.store.Pends t
  unanswered : ∀ {rid t}, .fetching rid t ∈ w.callers → w.cache.store.ledger.outcome? t = none
  single : (w.callers.filterMap Call.fetch?).Nodup
  marker : ∀ {x e t}, w.cache.store.get? x = some e → e.subscribing = some t →
    .fetching x t ∈ w.callers
  joined : ∀ {rid t}, .joined rid t ∈ w.callers → w.cache.store.ledger.outcome? t = none →
    .fetching rid t ∈ w.callers

end World

namespace Store

variable {marked : String → Prop} {s s' : Store} {t : Ticket}

theorem Descends.not_pends (h : s.Descends marked s') (ht : ¬ s.Pends t) : ¬ s'.Pends t := by
  have hlt : t < s.ledger.next := Nat.lt_of_not_le fun hle => ht (.inl hle)
  rintro (hle | ⟨x, e', he', rfl⟩)
  · exact absurd (Nat.lt_of_lt_of_le hlt h.next) (Nat.not_lt.mpr hle)
  · obtain ⟨e, he, hgrows, _⟩ := h.old he' hlt
    exact ht (.inr ⟨x, e, he, hgrows.pending.symm⟩)

theorem Descends.outcome?_eq_none (h : s.Descends marked s')
    (hnone : s'.ledger.outcome? t = none) : s.ledger.outcome? t = none := by
  cases ho : s.ledger.outcome? t with
  | none => rfl
  | some o =>
    rw [h.outcome ho] at hnone
    cases hnone

theorem Lineage.unanswered (h : s.Lineage marked s') (ht : ¬ s.Pends t)
    (hnone : s.ledger.outcome? t = none) : s'.ledger.outcome? t = none := by
  cases ho : s'.ledger.outcome? t with
  | none => rfl
  | some o =>
    rcases h.told ho with hold | hpends
    · rw [hnone] at hold
      cases hold
    · exact absurd hpends ht

theorem Numbered.not_pends_next (h : s.Numbered) : ¬ s.issued.Pends s.ledger.next := by
  rintro (hle | ⟨x, e, he, hpending⟩)
  · exact Nat.not_succ_le_self _ hle
  · exact absurd hpending (Nat.ne_of_lt (h.pending he))

theorem Numbered.outcome?_next (h : s.Numbered) : s.ledger.outcome? s.ledger.next = none := by
  cases ho : s.ledger.outcome? s.ledger.next with
  | none => rfl
  | some o => exact absurd (h.settled ho) (Nat.lt_irrefl _)

theorem Numbered.settle (h : s.Numbered) (ht : ¬ s.Pends t) (outcome : Outcome Unit) :
    (s.settle t outcome).Numbered := by
  have hlt : t < s.ledger.next := Nat.lt_of_not_le fun hle => ht (.inl hle)
  have hnext := (@Descends.settle (fun _ => True) s t outcome).next
  refine ⟨fun he => Nat.lt_of_lt_of_le (h.pending he) hnext, fun {u o} ho => ?_, h.distinct,
    h.replica, fun {x e fault} he ho => ?_⟩
  · refine Nat.lt_of_lt_of_le ?_ hnext
    rcases Ledger.outcome?_of_settle ho with hold | ⟨rfl, _⟩
    · exact h.settled hold
    · exact hlt
  · rcases Ledger.outcome?_of_settle ho with hold | ⟨heq, _⟩
    · exact h.failed he hold
    · exact absurd (.inr ⟨x, e, he, heq⟩) ht

end Store

namespace World

variable {registry : Registry} {w w' : World} {action : Action} {err : Option CacheError}
  {rid : String}

theorem ticketed_start (registry : Registry) : (start registry).Ticketed :=
  ⟨Store.numbered_empty, fun h => h.elim (fun h => by cases h) (fun h => by cases h),
    fun h => (by cases h), List.nodup_nil, fun h => (by cases h), fun h => (by cases h)⟩

namespace Ticketed

variable {x : String} {t shared : Ticket}

theorem of_lineage (h : w.Ticketed)
    (hline : w.cache.store.Lineage (fun _ => False) w'.cache.store)
    (hcallers : ∀ {call}, call ∈ w'.callers → call ∈ w.callers ∨ ∃ rid p, call = .loading rid p)
    (hfetches : w'.callers.filterMap Call.fetch? = w.callers.filterMap Call.fetch?)
    (hkept : ∀ {rid t}, .fetching rid t ∈ w.callers → .fetching rid t ∈ w'.callers) :
    w'.Ticketed := by
  have hfetching {rid : String} {t : Ticket} (ht : .fetching rid t ∈ w'.callers) :
      .fetching rid t ∈ w.callers := by
    rcases hcallers ht with hold | ⟨_, _, heq⟩
    · exact hold
    · cases heq
  have hjoined {rid : String} {t : Ticket} (ht : .joined rid t ∈ w'.callers) :
      .joined rid t ∈ w.callers := by
    rcases hcallers ht with hold | ⟨_, _, heq⟩
    · exact hold
    · cases heq
  refine ⟨hline.numbered h.numbered, fun ht => ?_, fun ht => ?_, by rw [hfetches]; exact h.single,
    fun he ht => ?_, fun ht hnone => ?_⟩
  · exact hline.not_pends (h.shared (ht.imp hfetching hjoined))
  · exact hline.unanswered (h.shared (.inl (hfetching ht))) (h.unanswered (hfetching ht))
  · obtain ⟨e, he, _, ht'⟩ := hline.marker id he ht
    exact hkept (h.marker he ht')
  · exact hkept (h.joined (hjoined ht) (hline.outcome?_eq_none hnone))

theorem fetch?_erase {callers : List Call} {call : Call} (hcall : call.fetch? = none) :
    (callers.erase call).filterMap Call.fetch? = callers.filterMap Call.fetch? := by
  induction callers with
  | nil => rfl
  | cons first rest ih =>
    by_cases heq : first = call
    · subst heq
      rw [List.erase_cons_head, List.filterMap_cons, hcall]
    · rw [List.erase_cons_tail (by simpa using heq), List.filterMap_cons, List.filterMap_cons, ih]

theorem fetch?_append (callers : List Call) {call : Call} (hcall : call.fetch? = none) :
    (callers ++ [call]).filterMap Call.fetch? = callers.filterMap Call.fetch? := by
  rw [List.filterMap_append, List.filterMap_cons, hcall]
  exact List.append_nil _

theorem erase (h : w.Ticketed) {call : Call} (hcall : call.fetch? = none)
    (hline : w.cache.store.Lineage (fun _ => False) w'.cache.store)
    (hcallers : w'.callers = w.callers.erase call) : w'.Ticketed := by
  refine h.of_lineage hline (fun hmem => .inl ?_) ?_ fun {rid t} ht => ?_
  · rw [hcallers] at hmem
    exact List.mem_of_mem_erase hmem
  · rw [hcallers]
    exact fetch?_erase hcall
  · rw [hcallers]
    refine (List.mem_erase_of_ne fun heq => ?_).mpr ht
    rw [← heq] at hcall
    cases hcall

theorem load (h : w.Ticketed) (rid : String) (pending : Ticket) :
    ({ w with callers := w.callers ++ [.loading rid pending] } : World).Ticketed := by
  refine h.of_lineage (.refl _) (fun hmem => ?_) (fetch?_append _ rfl) (List.mem_append_left _)
  rcases List.mem_append.mp hmem with hold | hnew
  · exact .inl hold
  · exact .inr ⟨rid, pending, List.mem_singleton.mp hnew⟩

theorem lt_next (h : w.Ticketed) (ht : .fetching rid t ∈ w.callers ∨ .joined rid t ∈ w.callers) :
    t < w.cache.store.ledger.next := Nat.lt_of_not_le fun hle => h.shared ht (.inl hle)

theorem join (h : w.Ticketed) (hshared : .fetching rid shared ∈ w.callers) :
    ({ w with callers := w.callers ++ [.joined rid shared] } : World).Ticketed := by
  have hjoined {x : String} {t : Ticket} (ht : .joined x t ∈ w.callers ++ [.joined rid shared]) :
      .joined x t ∈ w.callers ∨ x = rid ∧ t = shared := by simpa using ht
  have hfetching {x : String} {t : Ticket}
      (ht : .fetching x t ∈ w.callers ++ [.joined rid shared]) : .fetching x t ∈ w.callers := by
    simpa using ht
  refine ⟨h.numbered, fun ht => ?_, fun ht => h.unanswered (hfetching ht), ?_,
    fun he ht => List.mem_append_left _ (h.marker he ht), fun ht hnone => ?_⟩
  · rcases ht with ht | ht
    · exact h.shared (.inl (hfetching ht))
    · rcases hjoined ht with ht | ⟨rfl, rfl⟩
      · exact h.shared (.inr ht)
      · exact h.shared (.inl hshared)
  · change ((w.callers ++ [Call.joined rid shared]).filterMap Call.fetch?).Nodup
    rw [fetch?_append _ rfl]
    exact h.single
  · rcases hjoined ht with ht | ⟨rfl, rfl⟩
    · exact List.mem_append_left _ (h.joined ht hnone)
    · exact List.mem_append_left _ hshared

theorem single_fetch (h : w.Ticketed) (rid : String) :
    ((w.callers ++ [Call.fetching rid w.cache.store.ledger.next]).filterMap Call.fetch?).Nodup := by
  rw [List.filterMap_append]
  refine List.nodup_append.mpr ⟨h.single, List.pairwise_singleton _ _, fun t ht u hu heq => ?_⟩
  obtain ⟨call, hcall, hfetch⟩ := List.mem_filterMap.mp ht
  cases call with
  | fetching x t' =>
    cases hfetch
    have hless := h.lt_next (.inl hcall)
    rw [heq, List.mem_singleton.mp hu] at hless
    exact absurd hless (Nat.lt_irrefl _)
  | joined x t' => cases hfetch
  | loading x p => cases hfetch

theorem fetch (h : w.Ticketed) {e : Entry} (he : w.cache.store.get? rid = some e) : ({ w with
    cache := { w.cache with
      store := w.cache.store.issued.put rid (e.fetching w.cache.store.ledger.next) }
    callers := w.callers ++ [.fetching rid w.cache.store.ledger.next] } : World).Ticketed := by
  have hsingle := h.single_fetch rid
  generalize hs : w.cache.store = s at he hsingle
  have hnumbered : s.Numbered := hs ▸ h.numbered
  have hget : s.issued.get? rid = some e := he
  have hmarked : s.issued.Lineage (· = rid) (s.issued.put rid (e.fetching s.ledger.next)) :=
    .recounted hget rfl rfl rfl rfl (.inl rfl)
  have hline := Store.Lineage.trans (.issued s) hmarked
  have hfetching {x : String} {t : Ticket}
      (ht : .fetching x t ∈ w.callers ++ [.fetching rid s.ledger.next]) :
      .fetching x t ∈ w.callers ∨ x = rid ∧ t = s.ledger.next := by simpa using ht
  have hjoined {x : String} {t : Ticket}
      (ht : .joined x t ∈ w.callers ++ [.fetching rid s.ledger.next]) :
      .joined x t ∈ w.callers := by simpa using ht
  refine ⟨hline.numbered hnumbered, fun ht => ?_, fun ht => ?_, hsingle, fun {x e' t} he' ht => ?_,
    fun ht hnone => List.mem_append_left _ (h.joined (hjoined ht) (hs ▸ hnone))⟩
  · rcases ht with ht | ht
    · rcases hfetching ht with ht | ⟨rfl, rfl⟩
      · exact hline.not_pends (hs ▸ h.shared (.inl ht))
      · exact hmarked.not_pends hnumbered.not_pends_next
    · exact hline.not_pends (hs ▸ h.shared (.inr (hjoined ht)))
  · rcases hfetching ht with ht | ⟨rfl, rfl⟩
    · exact hs ▸ h.unanswered ht
    · exact hnumbered.outcome?_next
  · change (s.issued.put rid (e.fetching s.ledger.next)).get? x = some e' at he'
    rw [Store.get?_put] at he'
    split at he'
    · rename_i hx
      cases he'
      cases ht
      rw [← hx]
      exact List.mem_append_right _ List.mem_cons_self
    · exact List.mem_append_left _ (h.marker (hs ▸ he') ht)

theorem subscribe (h : w.Ticketed) (rid : String) : ({ w with
    cache := (w.cache.subscribe rid).2, callers := w.callers ++ [(w.cache.subscribe rid).1] } :
      World).Ticketed := by
  obtain ⟨e, s, hobtain, hget, _, hcases⟩ := w.cache.subscribe_cases rid
  have hline : w.cache.store.Lineage (fun _ => False) (w.cache.store.obtain rid).2 :=
    .obtain _ rid
  rw [hobtain] at hline
  have hobtained : ({ w with cache := { w.cache with store := s } } : World).Ticketed :=
    h.of_lineage hline .inl rfl id
  rcases hcases with ⟨_, heq⟩ | ⟨_, shared, hmarker, heq⟩ | ⟨_, hnone, heq⟩
  · rw [heq]
    have hcounted : ({ w with cache := { w.cache with store := s.put rid e.subscribed } } :
        World).Ticketed :=
      hobtained.of_lineage (.recounted hget rfl rfl rfl rfl (.inr rfl)) .inl rfl id
    exact hcounted.load rid e.pending
  · rw [heq]
    exact hobtained.join (hobtained.marker hget hmarker)
  · rw [heq]
    exact hobtained.fetch hget

end Ticketed

theorem subscribing_closeFetch (s : Store) (rid : String) (result : Outcome Handle) {e : Entry}
    (he : (Cache.closeFetch s rid result).get? rid = some e) : e.subscribing = none := by
  unfold Cache.closeFetch at he
  cases hold : s.get? rid with
  | none =>
    simp only [hold] at he
    cases he
  | some e₀ =>
    simp only [hold] at he
    have hput : (s.put rid { e₀ with subscribing := none }).get? rid =
        some { e₀ with subscribing := none } := by rw [Store.get?_put, if_pos rfl]
    split at he
    · rw [hput] at he
      cases he
      rfl
    · split at he
      · rw [Store.get?_remove, if_pos rfl] at he
        cases he
      · rw [hput] at he
        cases he
        rfl

def closed (w : World) (rid : String) (reply : Outcome Json) : Store :=
  Cache.closeFetch (w.cache.mergeReply rid 1 reply).2.store rid (w.cache.mergeReply rid 1 reply).1

theorem store_fetched (w : World) (rid : String) (shared : Ticket) (reply : Outcome Json) :
    (w.cache.fetched rid shared reply).2.store = (w.closed rid reply).settle shared
      ((w.cache.mergeReply rid 1 reply).1.map fun _ => ()) := rfl

namespace Ticketed

variable {x : String} {t shared : Ticket}

/-- No two network subscribes have the same ticket. -/
theorem ne_of_erased (h : w.Ticketed) (hmem : .fetching rid shared ∈ w.callers)
    (ht : .fetching x t ∈ w.callers.erase (.fetching rid shared)) : t ≠ shared := by
  intro heq
  subst heq
  have hfetch : t ∈ (w.callers.erase (.fetching rid t)).filterMap Call.fetch? :=
    List.mem_filterMap.mpr ⟨_, ht, rfl⟩
  have hperm := (List.perm_cons_erase hmem).filterMap Call.fetch?
  exact (List.nodup_cons.mp (hperm.nodup_iff.mp h.single)).1 hfetch

theorem fetched (h : w.Ticketed) (reply : Outcome Json)
    (hmem : .fetching rid shared ∈ w.callers) : ({ w with
      cache := (w.cache.fetched rid shared reply).2
      callers := w.callers.erase (.fetching rid shared) } : World).Ticketed := by
  have hline : w.cache.store.Lineage (· = rid) (w.closed rid reply) :=
    w.cache.fetched_lineage rid reply
  have hstore := w.store_fetched rid shared reply
  have hsettle := @Store.Descends.settle (· = rid) (w.closed rid reply) shared
    ((w.cache.mergeReply rid 1 reply).1.map fun _ => ())
  have hpends := h.shared (.inl hmem)
  refine ⟨?_, fun ht => ?_, fun {x t} ht => ?_, ?_, fun {x e t} he ht => ?_,
    fun {x t} ht hnone => ?_⟩
  · rw [hstore]
    exact (hline.numbered h.numbered).settle (hline.not_pends hpends) _
  · rw [hstore]
    exact hsettle.not_pends (hline.not_pends
      (h.shared (ht.imp List.mem_of_mem_erase List.mem_of_mem_erase)))
  · have hold := List.mem_of_mem_erase ht
    have hnone := hline.unanswered (h.shared (.inl hold)) (h.unanswered hold)
    change ((w.closed rid reply).ledger.settle shared _).outcome? t = none
    rw [Ledger.outcome?_settle, hnone, if_neg (h.ne_of_erased hmem ht)]
    rfl
  · exact List.Nodup.sublist ((List.erase_sublist).filterMap Call.fetch?) h.single
  · have he' : (w.closed rid reply).get? x = some e := he
    have hx : ¬ x = rid := by
      intro heq
      subst heq
      rw [subscribing_closeFetch _ _ _ he'] at ht
      cases ht
    obtain ⟨e₀, he₀, _, ht₀⟩ := hline.marker hx he' ht
    refine (List.mem_erase_of_ne fun heq => hx ?_).mpr (h.marker he₀ ht₀)
    cases heq
    rfl
  · change ((w.closed rid reply).ledger.settle shared _).outcome? t = none at hnone
    rw [Ledger.outcome?_settle] at hnone
    have hne : t ≠ shared := by
      intro heq
      rw [if_pos heq] at hnone
      cases ho : (w.closed rid reply).ledger.outcome? t <;> rw [ho] at hnone <;> cases hnone
    rw [if_neg hne, Option.or_none] at hnone
    refine (List.mem_erase_of_ne fun heq => hne ?_).mpr
      (h.joined (List.mem_of_mem_erase ht) (hline.outcome?_eq_none hnone))
    cases heq
    rfl

theorem acts (h : w.Ticketed) (hacts : w.Acts action err w') : w'.Ticketed := by
  cases hacts with
  | add batch rid => exact h.of_lineage (w.cache.merge_lineage batch rid 1) .inl rfl id
  | resubscribe batch rid => exact h.of_lineage (w.cache.merge_lineage batch rid 0) .inl rfl id
  | event rid name data =>
    exact h.of_lineage (w.cache.handleEvent_lineage rid name data) .inl rfl id
  | setAllStale => exact h.of_lineage w.cache.setAllStale_lineage .inl rfl id
  | subscribe rid => exact h.subscribe rid
  | fetched reply hmem => exact h.fetched reply hmem
  | @join rid shared pending outcome _ _ _ =>
    have herase : ({ w with
        cache := (w.cache.join rid outcome).2
        callers := w.callers.erase (.joined rid shared) } : World).Ticketed :=
      h.erase rfl (w.cache.join_lineage rid outcome) rfl
    exact herase.load rid pending
  | @refuse rid shared outcome fault _ _ _ =>
    exact h.erase rfl (w.cache.join_lineage rid outcome) rfl
  | loaded _ _ => exact h.erase rfl (.refl _) rfl
  | @ask rid _ => exact h.of_lineage (w.cache.unsubscribe_lineage rid) .inl rfl id
  | @unsubscribe rid _ => exact h.of_lineage (w.cache.unsubscribe_lineage rid) .inl rfl id
  | @released rid reply _ => exact h.of_lineage (w.cache.released_lineage rid reply) .inl rfl id
  | subscribeStale => exact h.of_lineage (.refl _) .inl rfl id
  | @resubscribed rid reply _ =>
    exact h.of_lineage (w.cache.resubscribed_lineage rid reply) .inl rfl id

end Ticketed

theorem Passes.ticketed {trace : List Step} (h : Passes w trace w') (hw : w.Ticketed) :
    w'.Ticketed := by
  induction h with
  | refl => exact hw
  | step _ hstep ih => exact ih.acts (acts_of_perform hstep)

/-- A trace in which every batch lists a resource once is a run. -/
theorem Trace.next {trace : List Step} (h : Trace registry trace w) (action : Action)
    (hstep : w.perform action = some (err, w')) :
    Trace registry (trace ++ [⟨w, action, err, w'⟩]) w' := .step h hstep

theorem Trace.run {trace : List Step} (h : Trace registry trace w)
    (hlegal : ∀ step ∈ trace, step.action.Legal) : Run registry w := by
  unfold Trace at h
  induction h with
  | refl => exact .start
  | step _ hstep ih =>
    exact .step (ih fun step hmem => hlegal step (List.mem_append_left _ hmem))
      (hlegal _ (List.mem_append_right _ List.mem_cons_self)) hstep

theorem Trace.ticketed {trace : List Step} (h : Trace registry trace w) : w.Ticketed :=
  Passes.ticketed h (ticketed_start registry)

theorem Acts.fair (hacts : w.Acts action err w') (h : w.cache.store.Fair) :
    w'.cache.store.Fair := by
  cases hacts with
  | add batch rid => exact Cache.merge_fair h batch rid 1
  | resubscribe batch rid => exact Cache.merge_fair h batch rid 0
  | event rid name data => exact Cache.handleEvent_fair h rid name data
  | setAllStale => exact Cache.setAllStale_fair h
  | subscribe rid => exact Cache.subscribe_fair h rid
  | @fetched rid shared reply _ => exact Cache.fetched_fair h rid shared reply
  | @join rid shared pending outcome _ _ _ => exact Cache.join_fair h rid outcome
  | @refuse rid shared outcome fault _ _ _ => exact Cache.join_fair h rid outcome
  | loaded _ _ => exact h
  | @ask rid _ => exact Cache.unsubscribe_fair h rid
  | @unsubscribe rid _ => exact Cache.unsubscribe_fair h rid
  | @released rid reply _ => exact Cache.released_fair h rid reply
  | subscribeStale => exact h
  | @resubscribed rid reply _ => exact Cache.resubscribed_fair h rid reply

theorem Trace.fair {trace : List Step} (h : Trace registry trace w) : w.cache.store.Fair := by
  unfold Trace at h
  induction h with
  | refl => exact Store.fair_empty
  | step _ hstep ih => exact (acts_of_perform hstep).fair ih

end World

def Action.Marks : Action → String → Prop
  | .subscribe rid, x => x = rid
  | .fetched rid _ _, x => x = rid
  | _, _ => False

namespace World

variable {registry : Registry} {w w' : World} {action : Action} {err : Option CacheError}
  {rid : String}

theorem Acts.descends (hacts : w.Acts action err w') :
    w.cache.store.Descends action.Marks w'.cache.store := by
  cases hacts with
  | add batch rid => exact (w.cache.merge_lineage batch rid 1).toDescends
  | resubscribe batch rid => exact (w.cache.merge_lineage batch rid 0).toDescends
  | event rid name data => exact (w.cache.handleEvent_lineage rid name data).toDescends
  | setAllStale => exact w.cache.setAllStale_lineage.toDescends
  | subscribe rid => exact (w.cache.subscribe_lineage rid).toDescends
  | @fetched rid shared reply _ =>
    exact (w.cache.fetched_lineage rid reply).toDescends.trans (.settle _ _ _)
  | @join rid shared pending outcome _ _ _ => exact (w.cache.join_lineage rid outcome).toDescends
  | @refuse rid shared outcome fault _ _ _ => exact (w.cache.join_lineage rid outcome).toDescends
  | loaded _ _ => exact .refl _
  | @ask rid _ => exact (w.cache.unsubscribe_lineage rid).toDescends
  | @unsubscribe rid _ => exact (w.cache.unsubscribe_lineage rid).toDescends
  | @released rid reply _ => exact (w.cache.released_lineage rid reply).toDescends
  | subscribeStale => exact .refl _
  | @resubscribed rid reply _ => exact (w.cache.resubscribed_lineage rid reply).toDescends

/-- However many steps have been made, every entry goes back to one that was there at their
beginning, or that had still to be made. -/
theorem Passes.descends {trace : List Step} (h : Passes w trace w') :
    w.cache.store.Descends (fun _ => True) w'.cache.store := by
  induction h with
  | refl => exact .refl _
  | step _ hstep ih =>
    exact ih.trans ((acts_of_perform hstep).descends.mono fun _ _ => trivial)

end World

end LiveResource
