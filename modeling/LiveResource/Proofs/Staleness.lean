import LiveResource.Proofs.Losses
import LiveResource.Proofs.Tallies

set_option autoImplicit false

/-!
# What a lost connection leaves unmarked

When a connection is given up, the resources that are subscribed are marked for resubscription at
once, and the calls that wait for the connection hear of its end only later. What they count then
is not marked any more.
-/

namespace LiveResource

namespace Client

variable {config : Config} {h past later : History} {start c c' : Client} {move : Move}
  {step : Step} {rid x : String}

def Move.reply? : Move → Option Ticket
  | .fetched _ _ reply => some reply
  | .released _ reply => some reply
  | .answer reply => some reply
  | .resubscribed _ reply => some reply
  | _ => none

namespace Step

def Renews (step : Step) (rid : String) : Prop :=
  match step.move with
  | .fetched _ _ _ => step.before.direct rid < step.after.direct rid
  | .answer _ => step.before.direct rid < step.after.direct rid
  | .resubscribed x reply => x = rid ∧ ∃ outcome handle,
      step.before.replies.outcome? reply = some outcome ∧
        (step.before.cache.mergeReply x 0 outcome).1 = .ok handle
  | _ => False

def Revives (step : Step) (rid : String) : Prop :=
  match step.move with
  | .join _ _ => step.before.direct rid = 0 ∧ 0 < step.after.direct rid
  | .released _ _ => step.before.direct rid = 0 ∧ 0 < step.after.direct rid
  | _ => False

/-- A step leaves a subscription unmarked. -/
def Escapes (step : Step) (rid : String) : Prop := step.Renews rid ∨ step.Revives rid

/-- A resource that is subscribed and not loaded is passed over when the others are marked. -/
def Misses (step : Step) (rid : String) : Prop :=
  0 < step.before.direct rid ∧ step.before.cache.store.isLoaded rid = false ∧
    step.before.cache.store.isStale rid = false

end Step

/-- A subscription was left unmarked, and the resource has been subscribed ever since. -/
def History.Escaped (later : History) (rid : String) : Prop :=
  ∃ mid step rest, later = mid ++ step :: rest ∧ step.Escapes rid ∧
    ∀ step' ∈ rest, 0 < step'.before.direct rid

inductive Step.Leaves (step : Step) (rid : String) : Prop
  | escape : step.Escapes rid → step.after.cache.store.isStale rid = false → Leaves step rid
  | keep : ¬ step.Escapes rid → (0 < step.after.direct rid → 0 < step.before.direct rid ∧
      step.after.cache.store.isStale rid = step.before.cache.store.isStale rid) → Leaves step rid

namespace Step.Leaves

theorem of_tally (hnot : ¬ step.Escapes rid)
    (htally : step.after.cache.store.tally rid = step.before.cache.store.tally rid) :
    step.Leaves rid := by
  refine .keep hnot fun hpos => ⟨?_, congrArg Prod.snd htally⟩
  have hdirect : step.after.direct rid = step.before.direct rid := congrArg Prod.fst htally
  omega

theorem of_update {v : Nat × Bool}
    (htally : step.after.cache.store.tally = Function.update step.before.cache.store.tally x v)
    (hother : step.Escapes rid → x = rid)
    (hself : x = rid → step.after.cache.store.tally rid = v → step.Leaves rid) :
    step.Leaves rid := by
  by_cases hx : x = rid
  · subst hx
    exact hself rfl (Store.tally_self htally)
  · exact of_tally (fun hescapes => hx (hother hescapes)) (Store.tally_of_ne htally (Ne.symm hx))

theorem of_ended (hnot : ¬ step.Escapes rid)
    (htally : step.after.cache.store.tally =
      Function.update step.before.cache.store.tally x (0, false)) : step.Leaves rid :=
  of_update htally (fun hescapes => absurd hescapes hnot) fun _ hrid => .keep hnot fun hpos => by
    have hzero : step.after.direct rid = 0 := congrArg Prod.fst hrid
    omega

theorem of_restored (hescapes : ∀ rid, step.Escapes rid ↔
      step.before.direct rid = 0 ∧ 0 < step.after.direct rid)
    (hfair : step.before.cache.store.Fair)
    (htally : step.after.cache.store.tally = step.before.cache.store.tally ∨
      step.after.cache.store.tally = Function.update step.before.cache.store.tally x
        (step.before.cache.store.direct x + 1, step.before.cache.store.isStale x)) :
    step.Leaves rid := by
  rcases htally with hsame | hcounted
  · refine of_tally (fun hrevives => ?_) (congrFun hsame rid)
    have hdirect : step.after.direct rid = step.before.direct rid :=
      congrArg Prod.fst (congrFun hsame rid)
    have hgrown := (hescapes rid).mp hrevives
    omega
  · refine of_update hcounted (fun hrevives => ?_) fun hx hrid => ?_
    · by_contra hx
      have hdirect : step.after.direct rid = step.before.direct rid :=
        congrArg Prod.fst (Store.tally_of_ne hcounted (Ne.symm hx))
      have hgrown := (hescapes rid).mp hrevives
      omega
    · subst hx
      have hstale := congrArg Prod.snd hrid
      have hdirect : step.after.direct x = step.before.direct x + 1 := congrArg Prod.fst hrid
      rcases Nat.eq_zero_or_pos (step.before.direct x) with hzero | hpos
      · exact .escape ((hescapes x).mpr ⟨hzero, by omega⟩) (hstale.trans (hfair x hzero))
      · refine .keep (fun hrevives => ?_) fun _ => ⟨hpos, hstale⟩
        have hzero := ((hescapes x).mp hrevives).1
        omega

theorem of_renewed (hescapes : ∀ rid, step.Escapes rid ↔
      step.before.direct rid < step.after.direct rid)
    (htally : step.after.cache.store.tally = step.before.cache.store.tally ∨
      step.after.cache.store.tally = Function.update step.before.cache.store.tally x
        (step.before.cache.store.direct x + 1, false)) : step.Leaves rid := by
  have hsame (hrid : step.after.cache.store.tally rid = step.before.cache.store.tally rid) :
      ¬ step.Escapes rid := fun hrenews =>
    absurd ((hescapes rid).mp hrenews) (Nat.not_lt.mpr (Nat.le_of_eq (congrArg Prod.fst hrid)))
  rcases htally with htally | hcounted
  · exact of_tally (hsame (congrFun htally rid)) (congrFun htally rid)
  · refine of_update hcounted (fun hrenews => ?_) fun hx hrid => ?_
    · by_contra hx
      exact hsame (Store.tally_of_ne hcounted (Ne.symm hx)) hrenews
    · subst hx
      have hdirect : step.after.direct x = step.before.direct x + 1 := congrArg Prod.fst hrid
      exact .escape ((hescapes x).mpr (by omega)) (congrArg Prod.snd hrid)

end Step.Leaves

theorem answer_tally (hfair : c.cache.store.Fair) (result : Json) :
    ∃ x, (c.answer result).2.cache.store.tally = c.cache.store.tally ∨
      (c.answer result).2.cache.store.tally =
        Function.update c.cache.store.tally x (c.cache.store.direct x + 1, false) := by
  rcases c.cache_answer result with hsame | ⟨rid, batch, _, hadded⟩
  · exact ⟨"", .inl (by rw [hsame])⟩
  · rw [hadded]
    rcases Cache.merge_tally hfair batch rid 1 with ⟨htally, _⟩ | hcounted
    · exact ⟨rid, .inl htally⟩
    · exact ⟨rid, .inr hcounted⟩

/-- A text changes subscriptions only if the server ends them. -/
theorem dispatch_tally (hfair : c.cache.store.Fair) (number : Nat) (text : String) :
    (c.dispatch number text).cache.store.tally = c.cache.store.tally ∨
    ∃ x, (c.dispatch number text).cache.store.tally =
      Function.update c.cache.store.tally x (0, false) := by
  by_cases hevent : ∃ event, Message.decode text = .ok (.event event)
  · obtain ⟨event, hdecode⟩ := hevent
    rw [store_dispatch_event hdecode]
    rcases Cache.handleEvent_tally hfair event.rid event.name event.data with hsame | ⟨_, hended⟩
    · exact .inl hsame
    · exact .inr ⟨event.rid, hended⟩
  · rcases @cache_dispatch c number text fun event heq => hevent ⟨event, heq⟩ with
      hcache | ⟨error, hcache⟩
    · exact .inl (by rw [hcache])
    · rw [hcache]
      exact .inl rfl

theorem Does.leaves (hdoes : Does h c move c') (hfair : c.cache.store.Fair)
    (hmove : ∀ number, move ≠ .abandon number) (rid : String) :
    Step.Leaves ⟨c, move, c'⟩ rid := by
  cases hdoes with
  | text number text =>
    rcases dispatch_tally hfair number text with hsame | ⟨x, hended⟩
    · exact .of_tally (not_or.mpr ⟨id, id⟩) (congrFun hsame rid)
    · exact .of_ended (not_or.mpr ⟨id, id⟩) hended
  | request live method params =>
    refine .of_tally (not_or.mpr ⟨id, id⟩) ?_
    dsimp only
    rw [cache_requestOn]
  | subscribe x =>
    have hnot : ¬ Step.Escapes ⟨c, .subscribe x, c.withCache (c.cache.subscribe x).2⟩ rid :=
      not_or.mpr ⟨id, id⟩
    rcases Cache.subscribe_tally hfair x with ⟨hpos, _, hcounted⟩ | ⟨_, _, hsame⟩
    · refine .of_update hcounted (fun hescapes => absurd hescapes hnot) fun hx hrid => ?_
      subst hx
      exact .keep hnot fun _ => ⟨hpos, congrArg Prod.snd hrid⟩
    · exact .of_tally hnot (congrFun hsame rid)
  | @fetched x shared reply outcome _ _ =>
    refine .of_renewed (x := x) (fun _ => Iff.of_eq (or_false _)) ?_
    exact (Cache.fetched_tally hfair x shared outcome).imp_left And.left
  | join x outcome =>
    refine .of_restored (x := x) (fun _ => Iff.of_eq (false_or _)) hfair ?_
    exact (c.cache.join_tally x outcome).imp And.left And.left
  | unsubscribe x =>
    have hnot : ¬ Step.Escapes ⟨c, .unsubscribe x, c.withCache (c.cache.unsubscribe x).2⟩ rid :=
      not_or.mpr ⟨id, id⟩
    rcases Cache.unsubscribe_tally hfair x with ⟨_, fault, heq⟩ | ⟨hmany, _, htally⟩ |
      ⟨_, _, hended⟩
    · exact .of_tally hnot (congrArg (fun r => r.2.store.tally rid) heq)
    · refine .of_update htally (fun hescapes => absurd hescapes hnot) fun hx hrid => ?_
      subst hx
      exact .keep hnot fun _ => ⟨Nat.lt_trans Nat.one_pos hmany, congrArg Prod.snd hrid⟩
    · exact .of_ended hnot hended
  | @released x reply outcome _ =>
    refine .of_restored (x := x) (fun _ => Iff.of_eq (false_or _)) hfair ?_
    exact (Cache.released_tally hfair x (outcome.map fun _ => ())).symm.imp_right And.right
  | @answer reply result _ =>
    obtain ⟨x, htally⟩ := answer_tally hfair result
    exact .of_renewed (fun _ => Iff.of_eq (or_false _)) htally
  | @resubscribed x reply outcome _ houtcome =>
    refine .of_update (Cache.resubscribed_tally hfair x outcome) (fun hescapes => ?_)
      fun hx hrid => ?_
    · exact hescapes.elim And.left False.elim
    · -- a snapshot takes the mark away, and a refusal leaves no subscription to be marked
      subst hx
      cases hmerged : (c.cache.mergeReply x 0 outcome).1 with
      | ok handle =>
        rw [hmerged] at hrid
        exact .escape (.inl ⟨rfl, outcome, handle, houtcome, hmerged⟩) (congrArg Prod.snd hrid)
      | error fault =>
        rw [hmerged] at hrid
        refine .keep (fun hescapes => ?_) fun hpos => ?_
        · obtain ⟨_, outcome', handle, houtcome', hok⟩ := hescapes.resolve_right id
          cases houtcome.symm.trans houtcome'
          cases hmerged.symm.trans hok
        · exact absurd (congrArg Prod.fst hrid) (Nat.pos_iff_ne_zero.mp hpos)
  | abandon number => exact absurd rfl (hmove number)
  | shutdown =>
    refine .of_tally (not_or.mpr ⟨id, id⟩) ?_
    dsimp only
    rw [cache_shutdown]
  | register registry => exact .of_tally (not_or.mpr ⟨id, id⟩) rfl
  | quiet hstore _ _ _ =>
    refine .of_tally (not_or.mpr ⟨id, id⟩) ?_
    dsimp only
    rw [hstore]

theorem Does.fair (hdoes : Does h c move c') (hfair : c.cache.store.Fair) :
    c'.cache.store.Fair := by
  cases hdoes with
  | text number text =>
    rcases dispatch_tally hfair number text with hsame | ⟨x, hended⟩
    · exact hfair.of_tally hsame
    · exact hfair.of_update hended fun _ => rfl
  | request live method params =>
    rw [cache_requestOn]
    exact hfair
  | subscribe x => exact Cache.subscribe_fair hfair x
  | @fetched x shared reply outcome _ _ => exact Cache.fetched_fair hfair x shared outcome
  | join x outcome => exact Cache.join_fair hfair x outcome
  | unsubscribe x => exact Cache.unsubscribe_fair hfair x
  | @released x reply outcome _ => exact Cache.released_fair hfair x _
  | @answer reply result _ =>
    obtain ⟨x, hsame | hcounted⟩ := answer_tally hfair result
    · exact hfair.of_tally hsame
    · exact hfair.of_update hcounted fun _ => rfl
  | @resubscribed x reply outcome _ _ => exact Cache.resubscribed_fair hfair x outcome
  | abandon number => exact Cache.setAllStale_fair hfair
  | shutdown =>
    rw [cache_shutdown]
    exact hfair
  | register registry => exact hfair
  | quiet hstore _ _ _ =>
    rw [hstore]
    exact hfair

theorem Goes.fair (hgoes : Goes h c past c') (hfair : c.cache.store.Fair) :
    c'.cache.store.Fair := by
  induction hgoes with
  | refl => exact hfair
  | step _ hdoes ih => exact hdoes.fair ih

theorem escaped_append {last : Step} : (later ++ [last]).Escaped rid ↔
    last.Escapes rid ∨ later.Escaped rid ∧ 0 < last.before.direct rid := by
  constructor
  · rintro ⟨mid, step, rest, heq, hescapes, hsince⟩
    rcases List.eq_nil_or_concat rest with rfl | ⟨rest, last', rfl⟩
    · obtain ⟨_, hlast⟩ := List.append_inj' heq rfl
      cases hlast
      exact .inl hescapes
    · rw [List.concat_eq_append, ← List.cons_append, ← List.append_assoc] at heq
      obtain ⟨rfl, hlast⟩ := List.append_inj' heq rfl
      cases hlast
      have hmem : last ∈ rest.concat last := by simp
      exact .inr ⟨⟨mid, step, rest, rfl, hescapes, fun step' hmem' =>
        hsince step' (by simp [hmem'])⟩, hsince last hmem⟩
  · rintro (hescapes | ⟨⟨mid, step, rest, rfl, hescapes, hsince⟩, hpos⟩)
    · exact ⟨later, last, [], rfl, hescapes, fun _ hmem => by cases hmem⟩
    · refine ⟨mid, step, rest ++ [last], by simp, hescapes, fun step' hmem => ?_⟩
      rcases List.mem_append.mp hmem with hold | hlast
      · exact hsince step' hold
      · rw [List.mem_singleton.mp hlast]
        exact hpos

/-- A subscribed resource has no mark if it had none at first and has been subscribed ever since, or
if a later step has left it without one. -/
theorem Goes.unmarked_iff (hgoes : Goes past start (past ++ later) c)
    (hfair : start.cache.store.Fair)
    (hlater : ∀ step ∈ later, ∀ number, step.move ≠ .abandon number) (hpos : 0 < c.direct rid) :
    c.cache.store.isStale rid = false ↔
      (0 < start.direct rid ∧ start.cache.store.isStale rid = false ∧
        ∀ step ∈ later, 0 < step.before.direct rid) ∨ later.Escaped rid := by
  -- the mark of the last step decides, or it is that of the step before
  generalize hall : past ++ later = all at hgoes
  induction hgoes generalizing later with
  | refl =>
    have hnil : later = [] := List.append_right_eq_self.mp hall
    subst hnil
    constructor
    · exact fun hstale => .inl ⟨hpos, hstale, fun _ hmem => by cases hmem⟩
    · rintro (⟨_, hstale, _⟩ | ⟨mid, step, rest, heq, _⟩)
      · exact hstale
      · cases mid <;> cases heq
  | @step h' c' c'' move hgoes hdoes ih =>
    obtain ⟨earlier, rfl⟩ := hgoes.exists_append
    rw [List.append_assoc] at hall
    cases List.append_cancel_left hall
    have hlast := hlater _ (List.mem_append_right earlier List.mem_cons_self)
    have hearlier := fun step hmem => hlater step (List.mem_append_left _ hmem)
    rw [escaped_append]
    cases hdoes.leaves (hgoes.fair hfair) hlast rid with
    | escape hescapes hstale => exact iff_of_true hstale (.inr (.inl hescapes))
    | keep hnot hkept =>
      obtain ⟨hbefore, hsame⟩ := hkept hpos
      have hiff := ih hearlier hbefore rfl
      refine (Iff.of_eq (congrArg (· = false) hsame)).trans (hiff.trans ?_)
      constructor
      · rintro (⟨hstart, hstale, hsince⟩ | hescaped)
        · refine .inl ⟨hstart, hstale, fun step hmem => ?_⟩
          rcases List.mem_append.mp hmem with hold | hnew
          · exact hsince step hold
          · rw [List.mem_singleton.mp hnew]
            exact hbefore
        · exact .inr (.inr ⟨hescaped, hbefore⟩)
      · rintro (⟨hstart, hstale, hsince⟩ | hescapes | ⟨hescaped, _⟩)
        · exact .inl ⟨hstart, hstale, fun step hmem => hsince step (List.mem_append_left _ hmem)⟩
        · exact absurd hescapes hnot
        · exact .inr hescaped

/-- Only the loss of a connection marks anything. -/
theorem Run.exists_abandon (hrun : Run config h c) (hstale : c.cache.store.isStale rid = true) :
    ∃ past sweep later number, h = past ++ sweep :: later ∧ sweep.move = .abandon number ∧
      ∀ step ∈ later, ∀ n, step.move ≠ .abandon n := by
  induction hrun with
  | refl => cases hstale
  | @step h' c' c'' move hgoes hdoes ih =>
    by_cases hmove : ∃ number, move = .abandon number
    · obtain ⟨number, rfl⟩ := hmove
      exact ⟨h', _, [], number, rfl, rfl, fun _ hmem => by cases hmem⟩
    · have hquiet : ∀ n, move ≠ .abandon n := fun n heq => hmove ⟨n, heq⟩
      have hfair := Goes.fair hgoes Store.fair_empty
      -- what is not subscribed has no mark, and no other move sets one
      have hpos : 0 < c''.direct rid := by
        refine Nat.pos_of_ne_zero fun hzero => ?_
        have hfresh := hdoes.fair hfair rid hzero
        rw [hstale] at hfresh
        cases hfresh
      have hbefore : c'.cache.store.isStale rid = true := by
        cases hdoes.leaves hfair hquiet rid with
        | escape _ hfresh => cases hfresh.symm.trans hstale
        | keep _ hkept => exact (hkept hpos).2.symm.trans hstale
      obtain ⟨past, sweep, later, number, rfl, hsweep, hlater⟩ := ih hbefore
      refine ⟨past, sweep, later ++ [_], number, List.append_assoc _ _ _, hsweep,
        fun step hmem => ?_⟩
      rcases List.mem_append.mp hmem with hold | hnew
      · exact hlater step hold
      · rw [List.mem_singleton.mp hnew]
        exact hquiet

namespace Step

def Listens (step : Step) : Prop := ∃ number text, step.move = .text number text

end Step

theorem Does.unmarked_of_abandon (rid : String) {number : Nat}
    (hdoes : Does h c (.abandon number) c') :
    c'.direct rid = c.direct rid ∧ (c'.cache.store.isStale rid = false ↔
      c.cache.store.isStale rid = false ∧
        (0 < c.direct rid → c.cache.store.isLoaded rid = false)) := by
  cases hdoes with
  | abandon _ => exact c.cache.setAllStale_unmarked rid

/-- A request that has failed renews nothing. -/
theorem Does.not_renews {fault : Fault} {reply : Ticket} (hdoes : Does h c move c')
    (hfair : c.cache.store.Fair) (hreply : move.reply? = some reply)
    (houtcome : c.replies.outcome? reply = some (.error fault)) :
    ¬ Step.Renews ⟨c, move, c'⟩ rid := by
  cases hdoes with
  | @fetched x shared reply' outcome _ houtcome' =>
    cases hreply
    cases houtcome.symm.trans houtcome'
    have htally : (c.cache.fetched x shared (.error fault)).2.store.tally = c.cache.store.tally :=
      Cache.closeFetch_tally hfair x _
    exact fun hgrown => absurd hgrown
      (Nat.not_lt.mpr (Nat.le_of_eq (congrArg Prod.fst (congrFun htally rid))))
  | answer _ hresult =>
    cases hreply
    cases houtcome.symm.trans hresult
  | @resubscribed x reply' outcome _ _ =>
    cases hreply
    rintro ⟨_, outcome', handle, houtcome', hok⟩
    cases houtcome.symm.trans houtcome'
    cases hok
  | _ => exact id

theorem Step.Renews.reply? (hrenews : step.Renews rid)
    (hdoes : Does h step.before step.move step.after) :
    ∃ reply outcome, step.move.reply? = some reply ∧
      step.before.replies.outcome? reply = some outcome := by
  obtain ⟨before, move, after⟩ := step
  dsimp only at hdoes
  cases hdoes with
  | fetched _ _ reply _ houtcome => exact ⟨reply, _, rfl, houtcome⟩
  | answer reply houtcome => exact ⟨reply, _, rfl, houtcome⟩
  | resubscribed _ reply _ houtcome => exact ⟨reply, _, rfl, houtcome⟩
  | _ => exact hrenews.elim

/-- Until another text comes in, only an answer from before the loss of the connection renews a
subscription. -/
theorem Run.heard_of_renews {mid : History} {sweep : Step} {number : Nat}
    (hrun : Run config (past ++ sweep :: mid) step.before)
    (hdoes : Does (past ++ sweep :: mid) step.before step.move step.after)
    (hsweep : sweep.move = .abandon number) (hdeaf : ∀ step' ∈ mid, ¬ step'.Listens)
    (hrenews : step.Renews rid) : ∃ reply, step.move.reply? = some reply ∧ past.Heard reply := by
  obtain ⟨reply, outcome, hreply, houtcome⟩ := hrenews.reply? hdoes
  refine ⟨reply, hreply, ?_⟩
  rcases heard_or_closed hrun houtcome with ⟨heard, hmem, hanswers⟩ | rfl
  · refine ⟨heard, ?_, hanswers⟩
    rcases List.mem_append.mp hmem with hpast | hlater
    · exact hpast
    · rcases List.mem_cons.mp hlater with rfl | hmid
      · obtain ⟨⟨_, _, htext⟩, _⟩ := hanswers
        cases htext.symm.trans hsweep
      · exact absurd hanswers.1 (hdeaf heard hmid)
  · have hfair := Goes.fair hrun Store.fair_empty
    exact absurd hrenews (hdoes.not_renews hfair hreply houtcome)

/-- A last subscription comes back unmarked when the call that has given it up fails. -/
theorem Does.escapes_of_released {fault : Fault} {reply : Ticket}
    (hdoes : Does h c (.released rid reply) c')
    (houtcome : c.replies.outcome? reply = some (.error fault))
    (hcached : (c.cache.store.get? rid).isSome = true) (hzero : c.direct rid = 0) :
    Step.Escapes ⟨c, .released rid reply, c'⟩ rid := by
  cases hdoes with
  | released _ _ houtcome' =>
    cases houtcome.symm.trans houtcome'
    have hdirect := Store.direct_self (Cache.restored_tally hcached fault)
    exact .inr ⟨hzero, Nat.lt_of_lt_of_eq (Nat.succ_pos _) hdirect.symm⟩

end Client

namespace ClientSession

open Client (History Step)

variable {config : Config} {s : ClientSession}

/-- However its tasks take their turns, a session has come about by moves of its client. After a
connection was given up and until the next one is, a subscribed resource is marked for
resubscription unless it has been subscribed ever since it was passed over, or ever since a later
move has left it unmarked: a snapshot was taken over for it, or a subscription came back when there
was none. As long as nothing more comes in from the server, the snapshot can only be one that came
in before the connection was given up. And a subscription comes back in this way whenever a call
that has given up the last one of a cached resource fails. -/
theorem stale_iff_not_escaped (hs : Reached config s) :
    (∃ history, s.Explained config history) ∧
    ∀ (history past : History) (sweep : Step) (later : History) (number : Nat),
      s.Explained config history → history = past ++ sweep :: later →
      sweep.move = .abandon number →
      (∀ step ∈ later, ∀ n, step.move ≠ .abandon n) →
      (∀ rid, 0 < s.client.direct rid → (s.client.cache.store.isStale rid = true ↔
        ¬ (sweep.Misses rid ∧ ∀ step ∈ later, 0 < step.before.direct rid) ∧
          ¬ later.Escaped rid)) ∧
      ∀ mid step rest, later = mid ++ step :: rest → ∀ rid,
        (step.Renews rid → (∀ step' ∈ mid, ¬ step'.Listens) →
          ∃ reply, step.move.reply? = some reply ∧ past.Heard reply) ∧
        ∀ reply fault, step.move = .released rid reply →
          step.before.replies.outcome? reply = some (.error fault) →
          (step.before.cache.store.get? rid).isSome = true → step.before.direct rid = 0 →
            step.Escapes rid := by
  refine ⟨exists_history hs, fun history past sweep later number hexplained heq hsweep hlater =>
    ⟨fun rid hpos => ?_, fun mid step rest hsplit rid => ?_⟩⟩
  · have hrun := hexplained.run
    rw [heq] at hrun
    obtain ⟨hpast, hdoes, hgoes⟩ := Client.Goes.split hrun
    have hfair := hdoes.fair (Client.Goes.fair hpast Store.fair_empty)
    rw [show past ++ sweep :: later = past ++ [sweep] ++ later by simp] at hgoes
    have hiff := hgoes.unmarked_iff hfair hlater hpos
    rw [hsweep] at hdoes
    obtain ⟨hdirect, hmark⟩ := hdoes.unmarked_of_abandon rid
    rw [hdirect, hmark] at hiff
    rw [← not_or, ← Bool.not_eq_false, hiff]
    refine not_congr (or_congr_left ⟨?_, ?_⟩)
    · rintro ⟨hbefore, ⟨hstale, hloaded⟩, hsince⟩
      exact ⟨⟨hbefore, hloaded hbefore, hstale⟩, hsince⟩
    · rintro ⟨⟨hbefore, hloaded, hstale⟩, hsince⟩
      exact ⟨hbefore, ⟨hstale, fun _ => hloaded⟩, hsince⟩
  · have hrun := hexplained.run
    rw [heq, hsplit, ← List.cons_append, ← List.append_assoc] at hrun
    obtain ⟨hbefore, hdoes, _⟩ := Client.Goes.split hrun
    refine ⟨fun hrenews hdeaf => Client.Run.heard_of_renews hbefore hdoes hsweep hdeaf hrenews,
      fun reply fault hmove houtcome hcached hzero => ?_⟩
    obtain ⟨before, move, after⟩ := step
    cases hmove
    exact hdoes.escapes_of_released houtcome hcached hzero

def subscribedTo (s : ClientSession) (rid : String) : ClientSession :=
  (s.start rid (.subscribe rid)).settle.receive.2.serve
    [.reply ("subscribe." ++ rid) [("result", .obj [("models", .obj [(rid, .obj [])])])]] false

/-- Two models are subscribed, and one of them is being unsubscribed when the connection closes. -/
def severed : ClientSession :=
  let greeted := (fresh (.forUrl "ws://test")).greeted "connect"
  let subscribed := (greeted.subscribedTo "m").subscribedTo "p"
  (subscribed.start "unsubscribe" (.unsubscribe "m")).settle.receive.2.serve [] true

theorem reached_severed : Reached (.forUrl "ws://test") severed := by
  have hgreeted := reached_greeted (@Reached.fresh (.forUrl "ws://test")) "connect"
  have hsubscribedTo {s : ClientSession} (hs : Reached (.forUrl "ws://test") s) (rid : String) :
      Reached (.forUrl "ws://test") (s.subscribedTo rid) :=
    reached_serve ((reached_settle (hs.next (.call rid (.subscribe rid)))).next .receive) _ false
  have hsubscribed := hsubscribedTo (hsubscribedTo hgreeted "m") "p"
  have hleaving := reached_settle (hsubscribed.next (.call "unsubscribe" (.unsubscribe "m")))
  exact reached_serve (hleaving.next .receive) [] true

/-- When everything has settled both models are subscribed. The one that was being unsubscribed has
no mark. -/
theorem stale_iff_not_escaped_severed : severed.client.direct "m" = 1 ∧
    severed.client.cache.store.isStale "m" = false ∧ severed.client.direct "p" = 1 ∧
    severed.client.cache.store.isStale "p" = true ∧
    ∃ history past sweep later number, severed.Explained (.forUrl "ws://test") history ∧
      history = past ++ sweep :: later ∧ sweep.move = .abandon number ∧
      (∀ step ∈ later, ∀ n, step.move ≠ .abandon n) ∧
      (sweep.Misses "m" ∨ History.Escaped later "m") := by
  have hm : severed.client.direct "m" = 1 ∧ severed.client.cache.store.isStale "m" = false := by
    decide +kernel
  have hp : severed.client.direct "p" = 1 ∧ severed.client.cache.store.isStale "p" = true := by
    decide +kernel
  refine ⟨hm.1, hm.2, hp.1, hp.2, ?_⟩
  obtain ⟨⟨history, hexplained⟩, hall⟩ := stale_iff_not_escaped reached_severed
  obtain ⟨past, sweep, later, number, heq, hsweep, hlater⟩ := hexplained.run.exists_abandon hp.2
  refine ⟨history, past, sweep, later, number, hexplained, heq, hsweep, hlater, ?_⟩
  have hiff := (hall history past sweep later number hexplained heq hsweep hlater).1 "m"
    (hm.1 ▸ Nat.one_pos)
  by_contra hnot
  rw [not_or] at hnot
  have hstale := hiff.mpr ⟨fun hmissed => hnot.1 hmissed.1, hnot.2⟩
  cases hm.2.symm.trans hstale

end ClientSession

end LiveResource
