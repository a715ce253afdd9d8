import LiveResource.Proofs.Losses
import LiveResource.Proofs.Updates

set_option autoImplicit false

/-!
# Snapshots and the events that overtake them

Events are applied as soon as they are taken in, and the snapshot in a reply only when the caller
that waits for the reply gets its turn. So the events that are taken in between are lost: they come
before the snapshot is there, and the snapshot has been made before them. From the turn of the
caller on the replica follows the server.
-/

namespace LiveResource

namespace Client

variable {config : Config} {h h' past between late : History} {c c' : Client} {move : Move}
  {response turn step : Step} {rid : String} {reply : Ticket} {outcome : Outcome Json}
  {snapshot : Content}

/-- No batch from the server lists a resource twice, and no hook of the application edits what a
replica holds. -/
def Step.Legal (step : Step) : Prop :=
  match step.move with
  | .text _ text => ∀ event, Message.decode text = .ok (.event event) → EmbedsDisjoint event.data
  | .fetched _ _ reply => ∀ outcome, step.before.replies.outcome? reply = some outcome →
      Cache.RepliesDisjoint outcome
  | .answer reply => ∀ outcome, step.before.replies.outcome? reply = some outcome →
      Cache.RepliesDisjoint outcome
  | .resubscribed _ reply => ∀ outcome, step.before.replies.outcome? reply = some outcome →
      Cache.RepliesDisjoint outcome
  | .register registry => registry.Quiet
  | _ => True

def Tidy (c : Client) : Prop := c.cache.Tidy fun _ => True

theorem tidy_fresh (config : Config) : (fresh config).Tidy := Cache.tidy_empty Registry.quiet_empty

theorem Tidy.answer {result : Json} (htidy : c.Tidy)
    (hdisjoint : Cache.RepliesDisjoint (.ok result)) : (c.answer result).2.Tidy := by
  unfold Tidy
  rcases c.cache_answer result with hsame | ⟨rid, batch, hbatch, hadded⟩
  · rw [hsame]
    exact htidy
  · rw [hadded]
    have hlegal := hdisjoint result batch rfl hbatch
    exact (Cache.merge_kept htidy (.inr hlegal) rid 1).1.kept hlegal

theorem Tidy.dispatch (htidy : c.Tidy) (number : Nat) {text : String}
    (hdisjoint : ∀ event, Message.decode text = .ok (.event event) → EmbedsDisjoint event.data) :
    (c.dispatch number text).Tidy := by
  by_cases hevent : ∃ event, Message.decode text = .ok (.event event)
  · obtain ⟨event, hdecode⟩ := hevent
    have hlegal := hdisjoint event hdecode
    obtain ⟨hkept, herr⟩ := Cache.handleEvent_kept htidy (.inr hlegal) event.rid event.name
    have hhandled := hkept.kept hlegal
    unfold Tidy
    rw [cache_dispatch_event hdecode]
    split
    · rename_i hdone
      rw [hdone] at hhandled
      exact hhandled
    · rename_i err c' hfailed
      rw [hfailed] at hhandled herr
      refine hhandled.send fun x heq => ?_
      cases heq
      exact herr _ rfl x rfl
  · have hnone : ∀ event, Message.decode text ≠ .ok (.event event) := fun event heq =>
      hevent ⟨event, heq⟩
    unfold Tidy
    rcases @cache_dispatch c number text hnone with hcache | ⟨error, hcache⟩
    · rw [hcache]
      exact htidy
    · rw [hcache]
      exact htidy.send fun x heq => (by cases heq)

theorem Does.tidy (hdoes : Does h c move c') (hlegal : Step.Legal ⟨c, move, c'⟩)
    (htidy : c.Tidy) : c'.Tidy := by
  cases hdoes with
  | text number text => exact htidy.dispatch number hlegal
  | request live method params =>
    unfold Tidy
    rw [cache_requestOn]
    exact htidy
  | subscribe rid => exact Cache.subscribe_spec htidy rid
  | fetched rid shared reply _ houtcome =>
    exact (Cache.fetched_spec htidy (.inr (hlegal _ houtcome)) rid shared).kept (hlegal _ houtcome)
  | join rid outcome => exact Cache.join_spec htidy rid outcome
  | unsubscribe rid => exact (Cache.unsubscribe_spec htidy rid).weaken fun _ _ => trivial
  | released rid reply _ => exact Cache.released_spec (htidy.weaken fun _ _ => .inl trivial) _
  | answer reply hresult => exact htidy.answer (hlegal _ hresult)
  | resubscribed rid reply _ houtcome =>
    exact (Cache.resubscribed_spec htidy (.inr (hlegal _ houtcome)) rid).kept (hlegal _ houtcome)
  | abandon number => exact Cache.setAllStale_spec htidy
  | shutdown =>
    unfold Tidy
    rw [cache_shutdown]
    exact htidy
  | register registry => exact ⟨hlegal, htidy.rest, htidy.held, htidy.silent⟩
  | quiet hstore hregistry _ hchannel =>
    refine ⟨?_, ?_, ?_, fun x hx => ?_⟩
    · rw [hregistry]
      exact htidy.registry
    · rw [hstore]
      exact htidy.rest
    · rw [hstore]
      exact htidy.held
    · rcases hchannel _ hx with hold | hother
      · exact htidy.silent x hold
      · exact hother _ rfl

theorem Run.tidy (hrun : Run config h c) (hlegal : ∀ step ∈ h, step.Legal) : c.Tidy := by
  induction hrun with
  | refl => exact tidy_fresh config
  | step _ hdoes ih =>
    have hbefore := ih fun step hmem => hlegal step (List.mem_append_left _ hmem)
    exact hdoes.tidy (hlegal _ (List.mem_append_right _ List.mem_cons_self)) hbefore

namespace Step

def event? (step : Step) (rid : String) : Option (Nat × IncomingEvent) :=
  match step.move with
  | .text number text =>
    match Message.decode text with
    | .ok (.event event) => if event.rid = rid then some (number, event) else none
    | _ => none
  | _ => none

def taken? (step : Step) (rid : String) : Option IncomingEvent :=
  (step.event? rid).bind fun e =>
    if (step.before.cache.handleEvent rid e.2.name e.2.data).1.isOk then some e.2 else none

def Brings (step : Step) (rid : String) : Prop :=
  match step.move with
  | .text _ text => ∃ event, Message.decode text = .ok (.event event) ∧ Embeds event.data rid
  | .fetched _ _ reply =>
    ∃ outcome, step.before.replies.outcome? reply = some outcome ∧ LiveResource.Brings outcome rid
  | .answer reply =>
    ∃ outcome, step.before.replies.outcome? reply = some outcome ∧ LiveResource.Brings outcome rid
  | .resubscribed _ reply =>
    ∃ outcome, step.before.replies.outcome? reply = some outcome ∧ LiveResource.Brings outcome rid
  | _ => False

theorem event?_eq_some {number : Nat} {event : IncomingEvent}
    (h : step.event? rid = some (number, event)) : ∃ text, step.move = .text number text ∧
      Message.decode text = .ok (.event event) ∧ event.rid = rid := by
  unfold event? at h
  split at h
  · rename_i text hmove
    split at h
    · rename_i event' hdecode
      split at h
      · rename_i hrid
        cases h
        exact ⟨text, hmove, hdecode, hrid⟩
      · cases h
    · cases h
  · cases h

theorem not_touches (hevent : step.event? rid = none) (hbrings : ¬ step.Brings rid) :
    ¬ step.Touches rid := by
  obtain ⟨before, move, after⟩ := step
  cases move with
  | text number text =>
    rintro ⟨event, hdecode, hrid | hembeds⟩
    · simp [event?, hdecode, hrid] at hevent
    · exact hbrings ⟨event, hdecode, hembeds⟩
  | _ => exact hbrings

end Step

namespace History

/-- The events of a resource that are taken in from a connection. -/
def sent (h : History) (number : Nat) (rid : String) : List IncomingEvent :=
  h.filterMap fun step =>
    (step.event? rid).bind fun e => if e.1 = number then some e.2 else none

/-- The events of a resource that are taken in and not refused, from whatever connection. -/
def taken (h : History) (rid : String) : List IncomingEvent := h.filterMap (·.taken? rid)

theorem taken_concat (h : History) (step : Step) (rid : String) :
    taken (h ++ [step]) rid = h.taken rid ++ (step.taken? rid).toList := by
  unfold taken
  rw [List.filterMap_append]
  cases htaken : step.taken? rid <;> simp [htaken]

end History

def content? (c : Client) (rid : String) : Option Content := c.cache.store.content? rid

/-- A replica has these contents, up to equality of values. -/
def Shows (c : Client) (rid : String) (content : Content) : Prop :=
  ∃ shown, c.content? rid = some shown ∧ (shown == content) = true

/-- An event that is taken is applied, and nothing else changes the contents. -/
theorem Does.follows {shown kept : Content} (hdoes : Does h c move c') (htidy : c.Tidy)
    (hlegal : Step.Legal ⟨c, move, c'⟩) (hbrings : ¬ Step.Brings ⟨c, move, c'⟩ rid)
    (hpos : 0 < c.direct rid) (hpos' : 0 < c'.direct rid) (hshown : c.content? rid = some shown)
    (hkept : kept.normal = shown.normal) :
    ∃ shown' kept', c'.content? rid = some shown' ∧
      kept.replay? (Step.taken? ⟨c, move, c'⟩ rid).toList = some kept' ∧
        kept'.normal = shown'.normal := by
  cases hevent : Step.event? ⟨c, move, c'⟩ rid with
  | none =>
    have htouches := Step.not_touches hevent hbrings
    refine ⟨shown, kept, hdoes.holds.content? hshown hpos hpos' htouches, ?_, hkept⟩
    unfold Step.taken?
    rw [hevent]
    rfl
  | some e =>
    obtain ⟨number, event⟩ := e
    obtain ⟨text, hmove, hdecode, hrid⟩ := Step.event?_eq_some hevent
    change move = .text number text at hmove
    subst hmove hrid
    cases hdoes with
    | text _ _ =>
      have hstore := @store_dispatch_event c number text event hdecode
      unfold direct content? at *
      rw [hstore] at hpos' ⊢
      obtain ⟨shown', hshown', hok, hrefused⟩ := Cache.handleEvent_follows htidy
        (hlegal event hdecode) hshown (fun hembeds => hbrings ⟨event, hdecode, hembeds⟩) hpos'
      unfold Step.taken?
      rw [hevent, Option.bind_some]
      dsimp only
      cases hresult : (c.cache.handleEvent event.rid event.name event.data).1.isOk with
      | true =>
        obtain ⟨kept', hafter, hnormal⟩ := hok hresult kept hkept
        refine ⟨shown', kept', hshown', ?_, hnormal⟩
        simp [Content.replay?, hafter]
      | false =>
        rw [hrefused hresult] at hshown'
        exact ⟨shown, kept, hshown', rfl, hkept⟩

/-- From some point of a run on, the replica of a resource that stays subscribed and of which no
other snapshot comes follows the events that are taken. -/
theorem Goes.follows {start : Client} {shown : Content} (hrun : Run config past start)
    (hgoes : Goes past start h c) (heq : h = past ++ late) (hlegal : ∀ step ∈ h, step.Legal)
    (hpos : 0 < start.direct rid) (hlater : ∀ step ∈ late, 0 < step.after.direct rid)
    (hbrings : ∀ step ∈ late, ¬ step.Brings rid) (hshown : start.content? rid = some shown)
    (hsnapshot : snapshot.normal = shown.normal) :
    0 < c.direct rid ∧ ∃ shown' kept, c.content? rid = some shown' ∧
      snapshot.replay? (late.taken rid) = some kept ∧ kept.normal = shown'.normal := by
  induction hgoes generalizing late with
  | refl =>
    have hnil : late = [] := List.self_eq_append_right.mp heq
    subst hnil
    exact ⟨hpos, shown, snapshot, hshown, rfl, hsnapshot⟩
  | @step h' c' c'' move hgoes hdoes ih =>
    obtain ⟨late', rfl⟩ := hgoes.exists_append
    rw [List.append_assoc] at heq
    have hlate := List.append_cancel_left heq
    subst hlate
    have hlegal' : ∀ step ∈ past ++ late', step.Legal := fun step hmem =>
      hlegal step (List.mem_append_left _ hmem)
    obtain ⟨hpos', shown', kept, hshown', hkept, hnormal⟩ := ih rfl hlegal'
      (fun step hmem => hlater step (List.mem_append_left _ hmem))
      (fun step hmem => hbrings step (List.mem_append_left _ hmem))
    have htidy : c'.Tidy := Run.tidy (hrun.trans hgoes) hlegal'
    have hlast : (⟨c', move, c''⟩ : Step) ∈ late' ++ [⟨c', move, c''⟩] :=
      List.mem_append_right _ List.mem_cons_self
    have hpos'' := hlater _ hlast
    obtain ⟨shown'', kept', hshown'', hafter, hnormal'⟩ := hdoes.follows htidy
      (hlegal _ (List.mem_append_right _ List.mem_cons_self)) (hbrings _ hlast) hpos' hpos'' hshown'
      hnormal
    refine ⟨hpos'', shown'', kept', hshown'', ?_, hnormal'⟩
    rw [History.taken_concat, Content.replay?_append, hkept]
    exact hafter

def Step.Responds (step : Step) (number : Nat) (reply : Ticket) (outcome : Outcome Json) : Prop :=
  (∃ text, step.move = .text number text) ∧ step.before.replies.outcome? reply = none ∧
    step.after.replies.outcome? reply = some outcome

/-- The caller who waits for the reply to a subscription, or to a resubscription, gets its turn and
can merge the reply. -/
inductive Step.Merges (step : Step) (rid : String) (reply : Ticket) (outcome : Outcome Json) : Prop
  | fetched {shared : Ticket} {handle : Handle} : step.move = .fetched rid shared reply →
    (step.before.cache.mergeReply rid 1 outcome).1 = .ok handle → Merges step rid reply outcome
  | resubscribed {handle : Handle} : step.move = .resubscribed rid reply →
    (step.before.cache.mergeReply rid 0 outcome).1 = .ok handle → Merges step rid reply outcome

theorem Goes.outcome? (hgoes : Goes h c h' c') (hreply : c.replies.outcome? reply = some outcome) :
    c'.replies.outcome? reply = some outcome := by
  induction hgoes with
  | refl => exact hreply
  | step _ hdoes ih => exact hdoes.outcome? ih

theorem Does.of_fetched {shared : Ticket} (hdoes : Does h c (.fetched rid shared reply) c') :
    ∃ outcome, c.replies.outcome? reply = some outcome ∧
      c' = c.withCache (c.cache.fetched rid shared outcome).2 := by
  cases hdoes with
  | fetched _ _ _ _ houtcome => exact ⟨_, houtcome, rfl⟩

theorem Does.shows (hdoes : Does past turn.before turn.move turn.after)
    (htidy : turn.before.Tidy) (hlegal : turn.Legal) (hmerges : turn.Merges rid reply outcome)
    (hreply : turn.before.replies.outcome? reply = some outcome)
    (hcarries : Cache.Carries outcome rid snapshot) (hpos : 0 < turn.after.direct rid) :
    ∃ shown, turn.after.content? rid = some shown ∧ snapshot.normal = shown.normal := by
  unfold Step.Legal at hlegal
  cases hmerges with
  | fetched hmove hok =>
    rw [hmove] at hdoes hlegal
    obtain ⟨outcome', hreply', hafter⟩ := hdoes.of_fetched
    rw [hreply] at hreply'
    cases hreply'
    rw [hafter] at hpos ⊢
    obtain ⟨shown, hshown, hnormal⟩ :=
      Cache.fetched_shows htidy (hlegal outcome hreply) hcarries hok hpos
    exact ⟨shown, hshown, hnormal.symm⟩
  | resubscribed hmove hok =>
    rw [hmove] at hdoes hlegal
    obtain ⟨outcome', hreply', hafter⟩ := hdoes.of_resubscribed
    rw [hreply] at hreply'
    cases hreply'
    rw [hafter] at hpos ⊢
    obtain ⟨shown, hshown, hnormal⟩ :=
      Cache.resubscribed_shows htidy (hlegal outcome hreply) hcarries hok hpos
    exact ⟨shown, hshown, hnormal.symm⟩

theorem shows_iff_of_normal {shown kept : Content} (hshown : c.content? rid = some shown)
    (hnormal : kept.normal = shown.normal) (expected : Content) :
    c.Shows rid expected ↔ (kept == expected) = true := by
  rw [Content.beq_iff_normal, hnormal]
  constructor
  · rintro ⟨shown', hshown', hsame⟩
    rw [hshown] at hshown'
    cases hshown'
    exact (Content.beq_iff_normal shown expected).mp hsame
  · intro hsame
    exact ⟨shown, hshown, (Content.beq_iff_normal shown expected).mpr hsame⟩

/-- A server answers a subscription, or a resubscription, and sends events over the same connection,
and the resource stays subscribed. Then its replica has the contents of the snapshot with the events
that are taken from the turn of the waiting caller on. It has the contents of the snapshot with all
events that were sent after it exactly if this comes to the same. -/
theorem shows_replay_iff {number : Nat}
    (hrun : Run config (past ++ response :: (between ++ turn :: late)) c)
    (hlegal : ∀ step ∈ past ++ response :: (between ++ turn :: late), step.Legal)
    (hresponse : response.Responds number reply outcome)
    (hcarries : Cache.Carries outcome rid snapshot) (hturn : turn.Merges rid reply outcome)
    (hsubscribed : ∀ step ∈ turn :: late, 0 < step.after.direct rid)
    (hbrings : ∀ step ∈ late, ¬ step.Brings rid) :
    ∃ kept, snapshot.replay? (late.taken rid) = some kept ∧ c.Shows rid kept ∧
      ∀ expected, snapshot.replay? (History.sent (between ++ turn :: late) number rid) =
        some expected → (c.Shows rid expected ↔ (kept == expected) = true) := by
  have hassoc : past ++ response :: (between ++ turn :: late) =
      (past ++ response :: between) ++ turn :: late := by simp
  rw [hassoc] at hrun hlegal
  obtain ⟨hbefore, hdoes, hlate⟩ := Goes.split hrun
  obtain ⟨_, _, hbetween⟩ := Goes.split hbefore
  have hreply := hbetween.outcome? hresponse.2.2
  have htidy : turn.before.Tidy := Run.tidy hbefore fun step hmem =>
    hlegal step (List.mem_append_left _ hmem)
  have hpos := hsubscribed turn List.mem_cons_self
  obtain ⟨shown, hshown, hnormal⟩ := hdoes.shows htidy
    (hlegal turn (List.mem_append_right _ List.mem_cons_self)) hturn hreply hcarries hpos
  have hrun' : Run config (past ++ response :: between ++ [turn]) turn.after :=
    .step hbefore hdoes
  obtain ⟨_, shown', kept, hshown', hkept, hnormal'⟩ := hlate.follows hrun'
    (by simp) hlegal hpos
    (fun step hmem => hsubscribed step (List.mem_cons_of_mem _ hmem)) hbrings hshown hnormal
  have hiff := shows_iff_of_normal hshown' hnormal'
  exact ⟨kept, hkept, (hiff kept).mpr BEq.rfl, fun expected _ => hiff expected⟩

namespace Scenario

def counter (n : Int) : Content := .model (Dict.ofList [("n", .number (.int n))])

def changeText : String := (Json.obj [("event", .str "m.change"),
  ("data", .obj [("values", .obj [("n", .num (.int 2))])])]).text

def overtaken : Client := answered.dispatch 0 changeText

def raced : Client := overtaken.withCache (overtaken.cache.fetched "m" 1 (.ok payload)).2

def changeStep : Step := ⟨answered, .text 0 changeText, overtaken⟩

def turnStep : Step := ⟨overtaken, .fetched "m" 1 0, raced⟩

theorem run_raced : Run (.forUrl "ws://test")
    (beforeResponse ++ responseStep :: ([changeStep] ++ turnStep :: [])) raced := by
  have hanswered : Run (.forUrl "ws://test") _ answered := .step run_asking (.text 0 responseText)
  have hovertaken : Run (.forUrl "ws://test") _ overtaken := .step hanswered (.text 0 changeText)
  have houtcome : overtaken.replies.outcome? 0 = some (.ok payload) := by rfl
  exact .step hovertaken (.fetched "m" 1 0 (asked_asking [responseStep, changeStep]) houtcome)

theorem legal_raced : ∀ step ∈ beforeResponse ++ responseStep :: ([changeStep] ++ turnStep :: []),
    step.Legal := by
  intro step hmem
  simp only [beforeResponse, List.cons_append, List.nil_append, List.mem_cons,
    List.not_mem_nil, or_false] at hmem
  rcases hmem with rfl | rfl | rfl | rfl | rfl | rfl
  · trivial
  · trivial
  · trivial
  · intro event hdecode
    have hresponse : Message.decode responseText = .ok (.response 1 (.ok payload)) := by rfl
    change Message.decode responseText = _ at hdecode
    rw [hresponse] at hdecode
    cases hdecode
  · intro event hdecode
    have hchange : Message.decode changeText = .ok (.event
        ⟨"m", "change", some (.obj [("values", .obj [("n", .num (.int 2))])])⟩) := by rfl
    change Message.decode changeText = _ at hdecode
    rw [hchange] at hdecode
    cases hdecode
    intro members batch hmembers hbatch
    cases hmembers
    cases hbatch
    exact Batch.disjoint_of_models rfl rfl
  · intro outcome houtcome result batch hresult hbatch
    have hsome : overtaken.replies.outcome? 0 = some (.ok payload) := by rfl
    change overtaken.replies.outcome? 0 = _ at houtcome
    rw [hsome] at houtcome
    cases houtcome
    cases hresult
    cases hbatch
    exact Batch.disjoint_of_models rfl rfl

end Scenario

open Scenario in
/-- The event that overtakes the snapshot is lost. -/
theorem shows_replay_iff_raced : raced.Shows "m" (counter 1) ∧ ¬ raced.Shows "m" (counter 2) := by
  have hresponse : responseStep.Responds 0 0 (.ok payload) := ⟨⟨_, rfl⟩, by rfl, by rfl⟩
  have hcarries : Cache.Carries (.ok payload) "m" (counter 1) := ⟨payload, _, rfl, rfl, by rfl⟩
  have hturn : turnStep.Merges "m" 0 (.ok payload) :=
    @Step.Merges.fetched turnStep "m" 0 (.ok payload) 1 ⟨"m", .model, 0⟩ rfl (by rfl)
  have hsubscribed : raced.direct "m" = 1 := by rfl
  obtain ⟨kept, hkept, hshows, hiff⟩ := shows_replay_iff run_raced legal_raced hresponse hcarries
    hturn (fun step hmem => by rw [List.mem_singleton.mp hmem]; exact hsubscribed ▸ Nat.one_pos)
    (fun step hmem => by cases hmem)
  cases hkept
  have hsent : (counter 1).replay? (History.sent ([changeStep] ++ turnStep :: []) 0 "m") =
      some (counter 2) := by rfl
  exact ⟨hshows, fun hboth => absurd ((hiff (counter 2) hsent).mp hboth) (by decide)⟩

end Client

end LiveResource
