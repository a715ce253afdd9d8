import LiveResource.Proofs.Traces

set_option autoImplicit false

/-!
# Network subscribes in flight

The marker that a network subscribe is in flight is a part of the entry. While the entry is there,
whoever wants the resource finds the marker and joins. A placeholder has no subscription, and when a
batch fills it and nothing refers to it, it is evicted with its marker; then the next caller begins
another network subscribe beside the first one.
-/

namespace LiveResource

def Call.fetches (rid : String) : Call → Bool
  | .fetching x _ => x == rid
  | _ => false

/-- The entry that was there for a resource is there no longer. -/
def Store.Evicted (s s' : Store) (rid : String) : Prop :=
  ∃ e, s.get? rid = some e ∧ ∀ e', s'.get? rid = some e' → e'.pending ≠ e.pending

namespace Cache

/-- A caller waits for first contents, or finds the marker of a network subscribe and joins it, or
finds none and begins one. -/
theorem subscribe_call (c : Cache) (rid : String) :
    (0 < c.store.direct rid ∧ ∃ pending, (c.subscribe rid).1 = .loading rid pending) ∨
    (c.store.direct rid = 0 ∧ ∃ e shared, c.store.get? rid = some e ∧
      e.subscribing = some shared ∧ (c.subscribe rid).1 = .joined rid shared) ∨
    (c.store.direct rid = 0 ∧ (∀ e, c.store.get? rid = some e → e.subscribing = none) ∧
      ∃ shared, c.store.ledger.next ≤ shared ∧ (c.subscribe rid).1 = .fetching rid shared ∧
        ∃ e, (c.subscribe rid).2.store.get? rid = some e ∧ e.subscribing = some shared) := by
  obtain ⟨e, s, hobtain, hget, hdirect, hcases⟩ := c.subscribe_cases rid
  have hfound {e₀ : Entry} (he₀ : c.store.get? rid = some e₀) : e₀ = e := by
    rw [Store.obtain_of_get? he₀] at hobtain
    exact congrArg Prod.fst hobtain
  have hmade (hnone : c.store.get? rid = none) : e.subscribing = none := by
    rw [Store.obtain_of_none hnone] at hobtain
    have hfresh : Entry.fresh c.store.ledger.next = e := congrArg Prod.fst hobtain
    rw [← hfresh]
    rfl
  rcases hcases with ⟨hpos, heq⟩ | ⟨hzero, shared, hmarker, heq⟩ | ⟨hzero, hmarker, heq⟩
  · exact .inl ⟨hdirect ▸ hpos, e.pending, by rw [heq]⟩
  · refine .inr (.inl ⟨hdirect ▸ hzero, e, shared, ?_, hmarker, by rw [heq]⟩)
    cases he₀ : c.store.get? rid with
    | none =>
      rw [hmade he₀] at hmarker
      cases hmarker
    | some e₀ => rw [hfound he₀]
  · have hnext : c.store.ledger.next ≤ s.ledger.next := by
      have hline := (@Store.Lineage.obtain (fun _ => False) c.store rid).next
      rw [hobtain] at hline
      exact hline
    refine .inr (.inr ⟨hdirect ▸ hzero, fun e₀ he₀ => hfound he₀ ▸ hmarker, s.ledger.next, hnext,
      by rw [heq], e.fetching s.ledger.next, ?_, rfl⟩)
    rw [heq]
    exact (Store.get?_put _ _ _ _).trans (if_pos rfl)

end Cache

namespace World

variable {registry : Registry} {w w₀ w' : World} {action : Action} {err : Option CacheError}
  {rid x : String} {t : Ticket} {trace past later : List Step} {e e' : Entry}

def fetches (w : World) (rid : String) : Nat := w.callers.countP (Call.fetches rid)

theorem eq_of_fetches (h : w.fetches rid ≤ 1) {u : Ticket} (ht : .fetching rid t ∈ w.callers)
    (hu : .fetching rid u ∈ w.callers) : t = u := by
  unfold fetches at h
  rw [List.countP_eq_length_filter] at h
  have hself (u : Ticket) : Call.fetches rid (.fetching rid u) = true := beq_self_eq_true rid
  have ht' := List.mem_filter.mpr ⟨ht, hself t⟩
  have hu' := List.mem_filter.mpr ⟨hu, hself u⟩
  generalize w.callers.filter (Call.fetches rid) = found at h ht' hu'
  match found with
  | [] => cases ht'
  | [one] =>
    have heq := (List.mem_singleton.mp ht').trans (List.mem_singleton.mp hu').symm
    cases heq
    rfl
  | _ :: _ :: _ => exact absurd h (by simp)

/-- Only a caller who finds no marker for the resource begins a network subscribe for it. -/
theorem Acts.fetches_le (hacts : w.Acts action err w') (hother : action ≠ .subscribe rid) :
    w'.fetches rid ≤ w.fetches rid := by
  unfold fetches
  rcases hacts.callers with ⟨_, _, hsame⟩ | ⟨x, haction, hmore⟩ | ⟨gone, more, _, _, hmore, hnew⟩
  · exact Nat.le_of_eq (by rw [hsame])
  · have hx : x ≠ rid := fun heq => hother (heq ▸ haction)
    have hcall : (w.cache.subscribe x).1.fetches rid = false := by
      rcases w.cache.subscribe_call x with ⟨_, _, heq⟩ | ⟨_, _, _, _, _, heq⟩ | ⟨_, _, _, _, heq, _⟩
      · rw [heq]
        rfl
      · rw [heq]
        rfl
      · rw [heq]
        exact beq_false_of_ne hx
    rw [hmore, List.countP_append, List.countP_singleton, hcall]
    exact Nat.le_refl _
  · have hnone : more.countP (Call.fetches rid) = 0 := by
      rcases hnew with rfl | ⟨_, _, rfl⟩ <;> rfl
    rw [hmore, List.countP_append, hnone]
    exact List.erase_sublist.countP_le

theorem Acts.fetching (hacts : w.Acts action err w') (hmem : .fetching rid t ∈ w'.callers) :
    .fetching rid t ∈ w.callers ∨
      action = .subscribe rid ∧ (w.cache.subscribe rid).1 = .fetching rid t := by
  rcases hacts.mem_callers hmem with hold | ⟨x, haction, hcall⟩ | ⟨_, _, heq⟩
  · exact .inl hold
  · rcases w.cache.subscribe_call x with ⟨_, _, heq⟩ | ⟨_, _, _, _, _, heq⟩ | ⟨_, _, _, _, heq, _⟩
    · cases hcall.trans heq
    · cases hcall.trans heq
    · cases hcall.trans heq
      exact .inr ⟨haction, heq⟩
  · cases heq

/-- A marker that is found was found before in the same entry, or its ticket is new. -/
theorem Acts.marker (hacts : w.Acts action err w') (he' : w'.cache.store.get? x = some e')
    (ht : e'.subscribing = some t) : (∃ e, w.cache.store.get? x = some e ∧
      e.pending = e'.pending ∧ e.subscribing = some t) ∨ w.cache.store.ledger.next ≤ t := by
  by_cases hmarks : action.Marks x
  · cases hacts with
    | subscribe rid =>
      cases hmarks
      obtain ⟨e, s, hobtain, hget, _, hcases⟩ := w.cache.subscribe_cases x
      have hline : w.cache.store.Lineage (fun _ => False) s := by
        have hline := @Store.Lineage.obtain (fun _ => False) w.cache.store x
        rw [hobtain] at hline
        exact hline
      rcases hcases with ⟨_, heq⟩ | ⟨_, shared, _, heq⟩ | ⟨_, _, heq⟩
      · rw [heq] at he'
        cases ((Store.get?_put _ _ _ _).trans (if_pos rfl)).symm.trans he'
        exact .inl (hline.marker id hget ht)
      · rw [heq] at he'
        cases hget.symm.trans he'
        exact .inl (hline.marker id hget ht)
      · rw [heq] at he'
        cases ((Store.get?_put _ _ _ _).trans (if_pos rfl)).symm.trans he'
        cases ht
        exact .inr hline.next
    | @fetched rid shared reply _ =>
      cases hmarks
      have hnone := subscribing_closeFetch _ _ _ he'
      rw [hnone] at ht
      cases ht
    | _ => cases hmarks
  · exact .inl (hacts.descends.marker hmarks he' ht)

/-- While one network subscribe is in flight, its marker stays in the entry. -/
theorem Acts.marked (hacts : w.Acts action err w') (hw : w.Ticketed) (hsole : w.fetches rid ≤ 1)
    (hmem : .fetching rid t ∈ w.callers) (hmem' : .fetching rid t ∈ w'.callers)
    (he' : w'.cache.store.get? rid = some e') (hold : e'.pending < w.cache.store.ledger.next) :
    ∃ e, w.cache.store.get? rid = some e ∧ e.pending = e'.pending ∧
      (e.subscribing = some t → e'.subscribing = some t) := by
  obtain ⟨e, he, hgrows, hmark⟩ := hacts.descends.old he' hold
  refine ⟨e, he, hgrows.pending.symm, fun ht => ?_⟩
  rcases hmark with hmarks | hsame
  · cases hacts with
    | subscribe x =>
      cases hmarks
      obtain ⟨e₀, s, hobtain, hget, _, hcases⟩ := w.cache.subscribe_cases rid
      rw [Store.obtain_of_get? he] at hobtain
      cases hobtain
      rcases hcases with ⟨_, heq⟩ | ⟨_, shared, _, heq⟩ | ⟨_, hnone, heq⟩
      · rw [heq] at he'
        cases ((Store.get?_put _ _ _ _).trans (if_pos rfl)).symm.trans he'
        exact ht
      · rw [heq] at he'
        cases hget.symm.trans he'
        exact ht
      · rw [hnone] at ht
        cases ht
    | @fetched x shared reply hshared =>
      cases hmarks
      cases eq_of_fetches hsole hmem hshared
      exact absurd rfl (hw.ne_of_erased hshared hmem')
    | _ => cases hmarks
  · exact hsame.trans ht

def Step.Begins (step : Step) (rid : String) (t : Ticket) : Prop :=
  step.action = .subscribe rid ∧ (step.before.cache.subscribe rid).1 = .fetching rid t

/-- As long as a network subscribe is in flight and is the only one, its marker is in the entry in
which it was set, and in no other one. -/
theorem Passes.marker_iff (h : Passes w₀ later w) (hw₀ : w₀.Ticketed)
    (he : w₀.cache.store.get? rid = some e) (ht : e.subscribing = some t)
    (hsole : ∀ step ∈ later, step.before.fetches rid ≤ 1) (hmem : .fetching rid t ∈ w.callers) :
    ∀ e', w.cache.store.get? rid = some e' →
      (e'.subscribing = some t ↔ e'.pending = e.pending) := by
  have hissued : t < w₀.cache.store.ledger.next := hw₀.lt_next (.inl (hw₀.marker he ht))
  induction h with
  | refl =>
    intro e' he'
    rw [he] at he'
    cases he'
    exact ⟨fun _ => rfl, fun _ => ht⟩
  | @step trace w' w'' action err htrace hstep ih =>
    have hacts := acts_of_perform hstep
    have hnext := htrace.descends.next
    have hbefore : .fetching rid t ∈ w'.callers := by
      rcases hacts.fetching hmem with hold | ⟨_, hcall⟩
      · exact hold
      · rcases w'.cache.subscribe_call rid with ⟨_, _, heq⟩ | ⟨_, _, _, _, _, heq⟩ |
          ⟨_, _, shared, hle, heq, _⟩
        · rw [heq] at hcall
          cases hcall
        · rw [heq] at hcall
          cases hcall
        · rw [heq] at hcall
          cases hcall
          exact absurd (Nat.lt_of_lt_of_le hissued hnext) (Nat.not_lt.mpr hle)
    have hiff := ih (fun step hstep => hsole step (List.mem_append_left _ hstep)) hbefore
    intro e'' he''
    constructor
    · intro ht''
      rcases hacts.marker he'' ht'' with ⟨e', he', hpending, ht'⟩ | hle
      · exact hpending.symm.trans ((hiff e' he').mp ht')
      · exact absurd (Nat.lt_of_lt_of_le hissued hnext) (Nat.not_lt.mpr hle)
    · intro hpending
      have hold : e''.pending < w'.cache.store.ledger.next := by
        rw [hpending]
        exact Nat.lt_of_lt_of_le (hw₀.numbered.pending he) hnext
      obtain ⟨e', he', hpending', hkept⟩ := hacts.marked (htrace.ticketed hw₀)
        (hsole _ (List.mem_append_right _ List.mem_cons_self)) hbefore hmem he'' hold
      exact hkept ((hiff e' he').mpr (hpending'.trans hpending))

theorem Trace.begun (h : Trace registry trace w) (hmem : .fetching rid t ∈ w.callers) :
    ∃ step ∈ trace, step.Begins rid t := by
  unfold Trace at h
  induction h with
  | refl => cases hmem
  | step _ hstep ih =>
    rcases (acts_of_perform hstep).fetching hmem with hold | hbegins
    · obtain ⟨step, hstep, hbegins⟩ := ih hold
      exact ⟨step, List.mem_append_left _ hstep, hbegins⟩
    · exact ⟨_, List.mem_append_right _ List.mem_cons_self, hbegins⟩

theorem Step.Begins.marks {step : Step} (h : step.Begins rid t)
    (hperform : step.before.perform step.action = some (step.told, step.after)) :
    ∃ e, step.after.cache.store.get? rid = some e ∧ e.subscribing = some t := by
  rw [h.1] at hperform
  have hacts := acts_of_perform hperform
  generalize step.told = err at hacts
  generalize hafter : step.after = w' at hacts ⊢
  cases hacts
  rcases step.before.cache.subscribe_call rid with ⟨_, _, heq⟩ | ⟨_, _, _, _, _, heq⟩ |
    ⟨_, _, shared, _, heq, hmarker⟩
  · cases heq.symm.trans h.2
  · cases heq.symm.trans h.2
  · cases heq.symm.trans h.2
    exact hmarker

/-- A caller begins a network subscribe while another one is in flight, whose entry has been evicted
since it was begun. -/
def Step.Repeats (past : List Step) (step : Step) (rid : String) : Prop :=
  step.action = .subscribe rid ∧ step.before.cache.store.direct rid = 0 ∧
    ∃ begun ∈ past, ∃ t, begun.Begins rid t ∧ .fetching rid t ∈ step.before.callers ∧
      begun.after.cache.store.Evicted step.before.cache.store rid

/-- At most one network subscribe is in flight before a step if this is so after every step. -/
theorem Passes.fetches_le (h : Passes w₀ trace w) (hw₀ : w₀.fetches rid ≤ 1)
    (hsole : ∀ step ∈ trace, step.after.fetches rid ≤ 1) :
    w.fetches rid ≤ 1 ∧ ∀ step ∈ trace, step.before.fetches rid ≤ 1 := by
  induction h with
  | refl => exact ⟨hw₀, fun step hmem => by cases hmem⟩
  | step _ _ ih =>
    obtain ⟨hlast, hbefore⟩ := ih fun step hmem => hsole step (List.mem_append_left _ hmem)
    refine ⟨hsole _ (List.mem_append_right _ List.mem_cons_self), fun step hmem => ?_⟩
    rcases List.mem_append.mp hmem with hold | hnew
    · exact hbefore step hold
    · rw [List.mem_singleton.mp hnew]
      exact hlast

/-- When one network subscribe is in flight, its entry has been evicted exactly if the next caller
finds no marker. -/
theorem Trace.evicted_iff (h : Trace registry past w)
    (hsole : ∀ step ∈ past, step.after.fetches rid ≤ 1) (hmem : .fetching rid t ∈ w.callers)
    {begun : Step} (hbegun : begun ∈ past) (hbegins : begun.Begins rid t) :
    begun.after.cache.store.Evicted w.cache.store rid ↔
      ∀ e, w.cache.store.get? rid = some e → e.subscribing = none := by
  obtain ⟨hlast, hbefore⟩ := Passes.fetches_le h (Nat.zero_le 1) hsole
  obtain ⟨earlier, later, rfl⟩ := List.append_of_mem hbegun
  obtain ⟨hearlier, hperform, hlater⟩ := Passes.at_step h
  obtain ⟨e, he, ht⟩ := hbegins.marks hperform
  have hticketed : begun.after.Ticketed :=
    (Trace.ticketed hearlier).acts (acts_of_perform hperform)
  have hiff := hlater.marker_iff hticketed he ht
    (fun step hstep => hbefore step (List.mem_append_right _ (List.mem_cons_of_mem _ hstep))) hmem
  constructor
  · rintro ⟨e₀, he₀, hgone⟩ e' he'
    rw [he] at he₀
    cases he₀
    cases hmarker : e'.subscribing with
    | none => rfl
    | some u =>
      cases eq_of_fetches hlast hmem ((Trace.ticketed h).marker he' hmarker)
      exact absurd ((hiff e' he').mp hmarker) (hgone e' he')
  · intro hnone
    refine ⟨e, he, fun e' he' hpending => ?_⟩
    have hmarker := (hiff e' he').mpr hpending
    rw [hnone e' he'] at hmarker
    cases hmarker

/-- The caller waits for the network subscribe in flight, or for the first contents if the resource
is subscribed. -/
def Step.Waits (step : Step) (rid : String) (t : Ticket) : Prop :=
  (0 < step.before.cache.store.direct rid ∧
    ∃ pending, step.after.callers = step.before.callers ++ [.loading rid pending]) ∨
  (step.before.cache.store.direct rid = 0 ∧
    step.after.callers = step.before.callers ++ [.joined rid t])

theorem Trace.arrives (h : Trace registry past w)
    (hsole : ∀ step ∈ past, step.after.fetches rid ≤ 1) (hmem : .fetching rid t ∈ w.callers)
    (hperform : w.perform (.subscribe rid) = some (err, w')) :
    (Step.Repeats past ⟨w, .subscribe rid, err, w'⟩ rid ∧ w'.fetches rid = 2) ∨
    (¬ Step.Repeats past ⟨w, .subscribe rid, err, w'⟩ rid ∧ w'.fetches rid = 1 ∧
      Step.Waits ⟨w, .subscribe rid, err, w'⟩ rid t) := by
  obtain ⟨hlast, _⟩ := Passes.fetches_le h (Nat.zero_le 1) hsole
  have hone : w.fetches rid = 1 := Nat.le_antisymm hlast
    (List.countP_pos_iff.mpr ⟨_, hmem, beq_self_eq_true rid⟩)
  have hcallers : w'.callers = w.callers ++ [(w.cache.subscribe rid).1] := by
    cases hperform
    rfl
  have hcount : w'.fetches rid =
      1 + if (w.cache.subscribe rid).1.fetches rid then 1 else 0 := by
    unfold fetches at hone ⊢
    rw [hcallers, List.countP_append, hone, List.countP_singleton]
  have hrepeats (hevicted : Step.Repeats past ⟨w, .subscribe rid, err, w'⟩ rid) :
      w.cache.store.direct rid = 0 ∧
        ∀ e, w.cache.store.get? rid = some e → e.subscribing = none := by
    obtain ⟨_, hzero, begun, hbegun, u, hbegins, hmem', hevicted⟩ := hevicted
    exact ⟨hzero, (h.evicted_iff hsole hmem' hbegun hbegins).mp hevicted⟩
  rcases w.cache.subscribe_call rid with ⟨hpos, pending, heq⟩ |
    ⟨hzero, e, shared, he, hmarker, heq⟩ | ⟨hzero, hnone, shared, _, heq, _⟩
  · rw [heq] at hcallers hcount
    refine .inr ⟨fun hevicted => ?_, hcount, .inl ⟨hpos, pending, hcallers⟩⟩
    exact absurd (hrepeats hevicted).1 (Nat.ne_of_gt hpos)
  · rw [heq] at hcallers hcount
    cases eq_of_fetches hlast hmem ((Trace.ticketed h).marker he hmarker)
    refine .inr ⟨fun hevicted => ?_, hcount, .inr ⟨hzero, hcallers⟩⟩
    rw [(hrepeats hevicted).2 e he] at hmarker
    cases hmarker
  · obtain ⟨begun, hbegun, hbegins⟩ := h.begun hmem
    refine .inl ⟨⟨rfl, hzero, begun, hbegun, t, hbegins, hmem, ?_⟩, ?_⟩
    · exact (h.evicted_iff hsole hmem hbegun hbegins).mpr hnone
    · rw [hcount, heq]
      exact if_pos (beq_self_eq_true rid) ▸ rfl

/-- At most one network subscribe for a resource is in flight until a step begins one beside
another. -/
theorem Trace.fetches_le (h : Trace registry trace w)
    (hnever : ∀ past step later, trace = past ++ step :: later → ¬ step.Repeats past rid) :
    ∀ step ∈ trace, step.after.fetches rid ≤ 1 := by
  unfold Trace at h
  induction h with
  | refl => exact fun step hmem => by cases hmem
  | @step past w' w'' action err hpast hstep ih =>
    have hin := ih fun past step later hsplit =>
      hnever past step (later ++ [⟨w', action, err, w''⟩]) (by rw [hsplit, List.append_assoc]; rfl)
    have hlast := (hpast.fetches_le (Nat.zero_le 1) hin).1
    have hnew : w''.fetches rid ≤ 1 := by
      by_cases haction : action = .subscribe rid
      · subst haction
        rcases Nat.eq_zero_or_pos (w'.fetches rid) with hzero | hpos
        · cases hstep
          unfold fetches at hzero ⊢
          rw [List.countP_append, hzero, Nat.zero_add]
          exact List.countP_le_length
        · obtain ⟨call, hmem, hcall⟩ := List.countP_pos_iff.mp hpos
          cases call with
          | fetching x t =>
            cases eq_of_beq hcall
            rcases Trace.arrives hpast hin hmem hstep with ⟨hrepeats, _⟩ | ⟨_, hone, _⟩
            · exact absurd hrepeats (hnever past _ [] rfl)
            · exact Nat.le_of_eq hone
          | joined x t => cases hcall
          | loading x pending => cases hcall
      · exact Nat.le_trans ((acts_of_perform hstep).fetches_le haction) hlast
    intro step hmem
    rcases List.mem_append.mp hmem with hold | hlatest
    · exact hin step hold
    · rw [List.mem_singleton.mp hlatest]
      exact hnew

/-- In any run, at most one network subscribe for a resource is in flight at any moment, unless a
caller begins one after the entry of the one in flight has been evicted. Up to then, every caller
who arrives while one is in flight waits with it, or for the first contents if the resource is
subscribed. -/
theorem fetches_le_one_iff (h : Trace registry trace w) (rid : String) :
    ((∀ step ∈ trace, step.after.fetches rid ≤ 1) ↔
      ∀ past step later, trace = past ++ step :: later → ¬ step.Repeats past rid) ∧
    ∀ past step later t, trace = past ++ step :: later →
      (∀ earlier ∈ past, earlier.after.fetches rid ≤ 1) → step.action = .subscribe rid →
      .fetching rid t ∈ step.before.callers →
      (step.Repeats past rid ∧ step.after.fetches rid = 2) ∨
      (¬ step.Repeats past rid ∧ step.after.fetches rid = 1 ∧ step.Waits rid t) := by
  have harrives : ∀ past step later t, trace = past ++ step :: later →
      (∀ earlier ∈ past, earlier.after.fetches rid ≤ 1) → step.action = .subscribe rid →
      .fetching rid t ∈ step.before.callers →
      (step.Repeats past rid ∧ step.after.fetches rid = 2) ∨
      (¬ step.Repeats past rid ∧ step.after.fetches rid = 1 ∧ step.Waits rid t) := by
    rintro past ⟨before, action, err, after⟩ later t hsplit hsole haction hmem
    cases haction
    rw [hsplit] at h
    obtain ⟨hpast, hperform, _⟩ := Passes.at_step h
    exact Trace.arrives hpast hsole hmem hperform
  refine ⟨⟨fun hsole past step later hsplit hrepeats => ?_, h.fetches_le⟩, harrives⟩
  have hin : ∀ earlier ∈ past, earlier.after.fetches rid ≤ 1 := fun earlier hmem =>
    hsole earlier (hsplit ▸ List.mem_append_left _ hmem)
  obtain ⟨haction, _, _, _, t, _, hmem, _⟩ := id hrepeats
  rcases harrives past step later t hsplit hin haction hmem with ⟨_, htwo⟩ | ⟨hnot, _⟩
  · have hle := hsole step (hsplit ▸ List.mem_append_right _ List.mem_cons_self)
    omega
  · exact hnot hrepeats

def lone : Batch := ⟨Dict.ofList [("m", ∅)], ∅, ∅⟩

theorem lone_disjoint : lone.Disjoint := Batch.disjoint_of_models rfl rfl

def awaiting : World :=
  let subscribed := (start .empty).cache.subscribe "m"
  { start .empty with cache := subscribed.2, callers := [subscribed.1] }

def brought : World := { awaiting with cache := (awaiting.cache.add lone "m").2 }

def parting : World :=
  { brought with cache := (brought.cache.unsubscribe "m").2, leaving := ["m"] }

def parted : World :=
  { parting with cache := (parting.cache.released "m" (.ok ())).2, leaving := [] }

def repeated : World :=
  let subscribed := parted.cache.subscribe "m"
  { parted with cache := subscribed.2, callers := parted.callers ++ [subscribed.1] }

def awaitingStep : Step := ⟨start .empty, .subscribe "m", none, awaiting⟩

def repeatedStep : Step := ⟨parted, .subscribe "m", none, repeated⟩

def beforeRepeated : List Step :=
  [awaitingStep, ⟨awaiting, .add lone "m", none, brought⟩, ⟨brought, .unsubscribe "m", none, parting⟩,
    ⟨parting, .released "m" (.ok ()), none, parted⟩]

theorem run_parting : Run .empty parting := by
  have hawaiting : Run .empty awaiting := .next .start (.subscribe "m") trivial rfl
  have hbrought : Run .empty brought :=
    .next hawaiting (.add lone "m") lone_disjoint rfl
  exact .next hbrought (.unsubscribe "m") trivial rfl

theorem trace_repeated : Trace .empty (beforeRepeated ++ [repeatedStep]) repeated := by
  have hawaiting : Trace .empty _ awaiting := .next .refl (.subscribe "m") rfl
  have hbrought : Trace .empty _ brought := .next hawaiting (.add lone "m") rfl
  have hparting : Trace .empty _ parting := .next hbrought (.unsubscribe "m") rfl
  have hparted : Trace .empty _ parted :=
    .next hparting (.released "m" (.ok ())) rfl
  exact .next hparted (.subscribe "m") rfl

/-- What nobody needs is evicted when the server has ended its subscription. -/
theorem get?_released (hquiet : registry.Quiet) (hrun : Run registry w)
    (hloaded : w.cache.store.isLoaded rid = true)
    (hcounts : w.cache.store.counts? rid = some (0, 0)) :
    (w.cache.released rid (.ok ())).2.store.get? rid = none := by
  obtain ⟨e, he, hl⟩ := Store.isLoaded_iff.mp hloaded
  unfold Store.counts? at hcounts
  rw [he] at hcounts
  cases e
  cases hcounts
  exact Cache.get?_leave (tidy_of_run hquiet hrun).rest he rfl hl rfl

theorem get?_parted : parted.cache.store.get? "m" = none :=
  get?_released Registry.quiet_empty run_parting (by rfl) (by rfl)

theorem repeats_repeatedStep : repeatedStep.Repeats beforeRepeated "m" := by
  have hdirect : parted.cache.store.direct "m" = 0 := by
    unfold Store.direct
    rw [get?_parted]
  refine ⟨rfl, hdirect, awaitingStep, List.mem_cons_self, 1, ⟨rfl, rfl⟩, ?_, ?_⟩
  · exact List.mem_cons_self
  · refine ⟨_, rfl, fun e' he' => ?_⟩
    have hnone : parted.cache.store.get? "m" = some e' := he'
    rw [get?_parted] at hnone
    cases hnone

/-- So two network subscribes are in flight. -/
theorem fetches_le_one_iff_repeated : repeated.fetches "m" = 2 ∧
    ¬ ∀ step ∈ beforeRepeated ++ [repeatedStep], step.after.fetches "m" ≤ 1 := by
  obtain ⟨hiff, harrives⟩ := fetches_le_one_iff trace_repeated "m"
  have hsole : ∀ earlier ∈ beforeRepeated, earlier.after.fetches "m" ≤ 1 := by
    intro earlier hmem
    simp only [beforeRepeated, List.mem_cons, List.not_mem_nil, or_false] at hmem
    rcases hmem with rfl | rfl | rfl | rfl <;> exact Nat.le_refl 1
  refine ⟨?_, fun hall => hiff.mp hall beforeRepeated repeatedStep [] rfl repeats_repeatedStep⟩
  rcases harrives beforeRepeated repeatedStep [] 1 rfl hsole rfl List.mem_cons_self with
    ⟨_, htwo⟩ | ⟨hnot, _⟩
  · exact htwo
  · exact absurd repeats_repeatedStep hnot

end World

end LiveResource
