import LiveResource.Proofs.Sessions

set_option autoImplicit false

/-!
# What costs a subscription

The application gives a subscription up, the server ends it, or the server refuses to renew it.
One thing more costs it: a resubscription that is still unanswered when its connection closes is
taken for a refusal, and then all subscriptions of the resource are gone.
-/

namespace LiveResource

namespace Client

variable {config : Config} {h past : History} {c c' : Client} {move : Move} {step : Step}
  {rid : String}

def direct (c : Client) (rid : String) : Nat := c.cache.store.direct rid

namespace Step

def Ends (step : Step) (rid : String) : Prop :=
  ∃ number text data, step.move = .text number text ∧
    Message.decode text = .ok (.event ⟨rid, "unsubscribe", data⟩)

def Loses (step : Step) (rid : String) : Prop :=
  step.move = .unsubscribe rid ∨ step.Ends rid ∨ ∃ reply, step.move = .resubscribed rid reply

def Touches (step : Step) (rid : String) : Prop :=
  match step.move with
  | .text _ text =>
    ∃ event, Message.decode text = .ok (.event event) ∧ (rid = event.rid ∨ Embeds event.data rid)
  | .fetched _ _ reply =>
    ∃ outcome, step.before.replies.outcome? reply = some outcome ∧ Brings outcome rid
  | .answer reply =>
    ∃ outcome, step.before.replies.outcome? reply = some outcome ∧ Brings outcome rid
  | .resubscribed _ reply =>
    ∃ outcome, step.before.replies.outcome? reply = some outcome ∧ Brings outcome rid
  | _ => False

end Step

theorem answer_holds {lost : String → Prop} (c : Client) (result : Json) :
    c.cache.store.Holds lost (Brings (.ok result)) (c.answer result).2.cache.store := by
  rcases c.cache_answer result with hsame | ⟨rid, batch, hbatch, hadded⟩
  · rw [hsame]
    exact .refl _
  · rw [hadded]
    exact c.cache.merge_holds (fun x hx => ⟨result, batch, rfl, hbatch, hx⟩) rid 1

theorem dispatch_holds (c : Client) (number : Nat) (text : String) :
    c.cache.store.Holds (Step.Loses ⟨c, .text number text, c.dispatch number text⟩)
      (Step.Touches ⟨c, .text number text, c.dispatch number text⟩)
      (c.dispatch number text).cache.store := by
  by_cases hevent : ∃ event, Message.decode text = .ok (.event event)
  · obtain ⟨event, hdecode⟩ := hevent
    have hhandled := c.cache.handleEvent_holds event.rid event.name event.data
    rw [store_dispatch_event hdecode]
    refine ⟨fun x hx => hhandled.direct x fun hlost => hx ?_, fun he hpos hpos' hx =>
      hhandled.held he hpos hpos' fun ht => hx ⟨event, hdecode, ht⟩⟩
    obtain ⟨rid, name, data⟩ := event
    obtain ⟨rfl, rfl⟩ := hlost
    exact .inr (.inl ⟨number, text, data, rfl, hdecode⟩)
  · have hnone : ∀ event, Message.decode text ≠ .ok (.event event) := fun event heq =>
      hevent ⟨event, heq⟩
    rcases @cache_dispatch c number text hnone with hcache | ⟨error, hcache⟩
    · rw [hcache]
      exact .refl _
    · rw [hcache]
      exact .refl _

/-- What one move costs, and what it leaves alone. -/
theorem Does.holds (hdoes : Does h c move c') :
    c.cache.store.Holds (Step.Loses ⟨c, move, c'⟩) (Step.Touches ⟨c, move, c'⟩)
      c'.cache.store := by
  cases hdoes with
  | text number text => exact c.dispatch_holds number text
  | request live method params =>
    rw [cache_requestOn]
    exact .refl _
  | subscribe rid => exact c.cache.subscribe_holds rid
  | @fetched rid shared reply outcome _ houtcome =>
    exact (c.cache.fetched_holds rid shared outcome).mono fun x hx => ⟨outcome, houtcome, hx⟩
  | join rid outcome => exact c.cache.join_holds rid outcome
  | unsubscribe rid =>
    have hleft := @Cache.unsubscribe_holds (Step.Touches ⟨c, .unsubscribe rid,
      c.withCache (c.cache.unsubscribe rid).2⟩) c.cache rid
    exact ⟨fun x hx => hleft.direct x fun heq => hx (.inl (by rw [heq])), hleft.held⟩
  | released rid reply _ => exact c.cache.released_holds rid _
  | @answer reply result hresult =>
    exact (c.answer_holds result).mono fun x hx => ⟨.ok result, hresult, hx⟩
  | @resubscribed rid reply outcome _ houtcome =>
    have hrenewed := c.cache.resubscribed_holds rid outcome
    refine ⟨fun x hx => hrenewed.direct x fun heq => hx (.inr (.inr ⟨reply, by rw [heq]⟩)),
      fun he hpos hpos' hx => hrenewed.held he hpos hpos' fun hb => hx ⟨outcome, houtcome, hb⟩⟩
  | abandon number => exact (c.cache.setAllStale_keeps).holds
  | shutdown =>
    rw [cache_shutdown]
    exact .refl _
  | register registry => exact .refl _
  | quiet hstore _ _ _ =>
    rw [hstore]
    exact .refl _

namespace Step

def Refused (past : History) (step : Step) (rid : String) : Prop :=
  ∃ reply outcome, step.move = .resubscribed rid reply ∧ past.Heard reply ∧
    step.before.replies.outcome? reply = some outcome ∧
    ∀ handle, (step.before.cache.mergeReply rid 0 outcome).1 ≠ .ok handle

/-- A resubscription ends that the server has never answered. -/
def Cut (past : History) (step : Step) (rid : String) : Prop :=
  ∃ reply, step.move = .resubscribed rid reply ∧ ¬ past.Heard reply

/-- A subscription is lost only by the will of the application or of the server. -/
structure Keeps (past : History) (step : Step) (rid : String) : Prop where
  lost : step.after.direct rid < step.before.direct rid →
    step.move = .unsubscribe rid ∨ step.Ends rid ∨ step.Refused past rid
  cut : step.Cut past rid → step.after.direct rid = step.before.direct rid ∧
    (0 < step.before.direct rid → step.after.cache.store.isStale rid = true)

end Step

theorem Does.of_resubscribed {reply : Ticket} (hdoes : Does h c (.resubscribed rid reply) c') :
    ∃ outcome, c.replies.outcome? reply = some outcome ∧
      c' = c.withCache (c.cache.resubscribed rid outcome) := by
  cases hdoes with
  | resubscribed _ _ _ houtcome => exact ⟨_, houtcome, rfl⟩

/-- An unanswered request came to nothing when its connection closed, and with it all subscriptions
of the resource. -/
theorem direct_of_cut (hrun : Run config past step.before)
    (hdoes : Does past step.before step.move step.after) (hcut : step.Cut past rid) :
    step.after.direct rid = 0 := by
  obtain ⟨reply, hmove, hunheard⟩ := hcut
  rw [hmove] at hdoes
  obtain ⟨outcome, houtcome, hafter⟩ := hdoes.of_resubscribed
  rw [hafter]
  rcases heard_or_closed hrun houtcome with hheard | rfl
  · exact absurd hheard hunheard
  · exact step.before.cache.direct_resubscribed_error rid _

theorem keeps_of_not_cut (hdoes : Does past step.before step.move step.after)
    (hkept : step.Cut past rid → step.before.direct rid = 0)
    (hzero : step.Cut past rid → step.after.direct rid = 0) : step.Keeps past rid := by
  have hholds := hdoes.holds
  refine ⟨fun hless => ?_, fun hcut => ?_⟩
  · have hloses : step.Loses rid := by
      by_contra hnot
      have hle := hholds.direct rid hnot
      unfold direct at hless
      omega
    rcases hloses with hleft | hends | ⟨reply, hmove⟩
    · exact .inl hleft
    · exact .inr (.inl hends)
    · refine .inr (.inr ?_)
      by_cases hheard : past.Heard reply
      · rw [hmove] at hdoes
        obtain ⟨outcome, houtcome, hafter⟩ := hdoes.of_resubscribed
        refine ⟨reply, outcome, hmove, hheard, houtcome, fun handle hmerged => ?_⟩
        have hle := Cache.direct_le_resubscribed hmerged
        rw [hafter] at hless
        exact absurd hless (Nat.not_lt.mpr hle)
      · have hbefore := hkept ⟨reply, hmove, hheard⟩
        omega
  · rw [hkept hcut, hzero hcut]
    exact ⟨rfl, fun hpos => absurd hpos (Nat.lt_irrefl 0)⟩

theorem keeps_iff (hrun : Run config past step.before)
    (hdoes : Does past step.before step.move step.after) :
    step.Keeps past rid ↔ ¬ (step.Cut past rid ∧ 0 < step.before.direct rid) := by
  constructor
  · rintro hkeeps ⟨hcut, hpos⟩
    have hzero := direct_of_cut hrun hdoes hcut
    have hsame := (hkeeps.cut hcut).1
    omega
  · intro hnot
    refine keeps_of_not_cut hdoes (fun hcut => ?_) (direct_of_cut hrun hdoes)
    by_contra hpos
    exact hnot ⟨hcut, Nat.pos_of_ne_zero hpos⟩

namespace Scenario

def payload : Json := .obj [("models", .obj [("m", .obj [("n", .num (.int 1))])])]

def responseText : String := (Json.obj [("id", .nat 1), ("result", payload)]).text

def online : Client := (fresh (.forUrl "ws://test")).opened.2

def beginning : Client := online.withCache (online.cache.subscribe "m").2

def asking : Client := (beginning.requestOn (some 0) "subscribe.m" none).2

def answered : Client := asking.dispatch 0 responseText

def subscribed : Client := answered.withCache (answered.cache.fetched "m" 1 (.ok payload)).2

def again : Client := (subscribed.abandon 0).opened.2

def closed : Client := (again.requestOn (some 1) "subscribe.m" none).2.shutdown

def bereft : Client :=
  closed.withCache (closed.cache.resubscribed "m" (.error .connectionClosed))

def responseStep : Step := ⟨asking, .text 0 responseText, answered⟩

def beforeResponse : History :=
  [⟨fresh (.forUrl "ws://test"), .quiet, online⟩, ⟨online, .subscribe "m", beginning⟩,
    ⟨beginning, .request (some 0) "subscribe.m" none, asking⟩]

def beforeCut : History :=
  beforeResponse ++ [responseStep, ⟨answered, .fetched "m" 1 0, subscribed⟩,
    ⟨subscribed, .abandon 0, subscribed.abandon 0⟩, ⟨subscribed.abandon 0, .quiet, again⟩,
    ⟨again, .request (some 1) "subscribe.m" none,
      (again.requestOn (some 1) "subscribe.m" none).2⟩,
    ⟨(again.requestOn (some 1) "subscribe.m" none).2, .shutdown, closed⟩]

def cutStep : Step := ⟨closed, .resubscribed "m" 1, bereft⟩

theorem run_asking : Run (.forUrl "ws://test") beforeResponse asking := by
  have hopened : Does [] (fresh (.forUrl "ws://test")) .quiet online :=
    .quiet rfl rfl rfl fun notice hmem => .inr fun e heq => by
      rcases List.mem_singleton.mp hmem with rfl
      cases heq
  have honline : Run (.forUrl "ws://test") _ online := .step .refl hopened
  have hbeginning : Run (.forUrl "ws://test") _ beginning := .step honline (.subscribe "m")
  exact .step hbeginning (.request (some 0) "subscribe.m" none)

theorem asked_asking (later : History) :
    (beforeResponse ++ later).Asked ("subscribe." ++ "m") 0 :=
  ⟨⟨beginning, .request (some 0) "subscribe.m" none, asking⟩, by simp [beforeResponse], some 0,
    none, rfl, rfl⟩

theorem run_closed : Run (.forUrl "ws://test") beforeCut closed := by
  have hanswered : Run (.forUrl "ws://test") _ answered := .step run_asking (.text 0 responseText)
  have houtcome : answered.replies.outcome? 0 = some (.ok payload) := by rfl
  have hsubscribed : Run (.forUrl "ws://test") _ subscribed :=
    .step hanswered (.fetched "m" 1 0 (asked_asking [responseStep]) houtcome)
  have habandoned : Run (.forUrl "ws://test") _ (subscribed.abandon 0) :=
    .step hsubscribed (.abandon 0)
  have hagain : Run (.forUrl "ws://test") _ again :=
    .step habandoned <| .quiet rfl rfl rfl fun notice hmem => by
      rcases List.mem_append.mp hmem with hold | hnew
      · exact .inl hold
      · exact .inr fun e heq => by
          rw [List.mem_singleton.mp hnew] at heq
          cases heq
  have hrenewing : Run (.forUrl "ws://test") _ (again.requestOn (some 1) "subscribe.m" none).2 :=
    .step hagain (.request (some 1) "subscribe.m" none)
  exact .step hrenewing .shutdown

theorem cut_cutStep : cutStep.Cut beforeCut "m" := by
  refine ⟨1, rfl, ?_⟩
  rintro ⟨step, hmem, ⟨number, text, hmove⟩, _, hsettled⟩
  simp only [beforeCut, beforeResponse, List.cons_append, List.nil_append, List.mem_cons,
    List.not_mem_nil, or_false] at hmem
  -- only one text has come in, and it answers another request
  rcases hmem with rfl | rfl | rfl | rfl | rfl | rfl | rfl | rfl | rfl
  · cases hmove
  · cases hmove
  · cases hmove
  · have hunsettled : answered.replies.isSettled 1 = false := by rfl
    change answered.replies.isSettled 1 = true at hsettled
    rw [hunsettled] at hsettled
    cases hsettled
  · cases hmove
  · cases hmove
  · cases hmove
  · cases hmove
  · cases hmove

/-- So the subscription is lost. -/
theorem not_keeps_cutStep : ¬ cutStep.Keeps beforeCut "m" := by
  have houtcome : closed.replies.outcome? 1 = some (.error .connectionClosed) := by rfl
  have hasked : beforeCut.Asked ("subscribe." ++ "m") 1 :=
    ⟨⟨again, .request (some 1) "subscribe.m" none,
      (again.requestOn (some 1) "subscribe.m" none).2⟩, by simp [beforeCut], some 1, none, rfl, rfl⟩
  have hdirect : closed.direct "m" = 1 := by rfl
  have hdoes : Does beforeCut closed (.resubscribed "m" 1) bereft :=
    .resubscribed "m" 1 hasked houtcome
  have hiff := @keeps_iff _ _ cutStep "m" run_closed hdoes
  exact fun hkeeps => hiff.mp hkeeps ⟨cut_cutStep, hdirect ▸ Nat.one_pos⟩

end Scenario

end Client

namespace ClientSession

variable {config : Config} {s : ClientSession}

/-- However its tasks take their turns, a session has come about by moves of its client. Of these, a
move keeps the subscriptions of a resource unless it ends an unanswered resubscription of a resource
that is subscribed; and such a move takes them all. -/
theorem keeps_subscriptions_iff (hs : Reached config s) : (∃ history, s.Explained config history) ∧
    ∀ history past step later, s.Explained config history → history = past ++ step :: later →
      ∀ rid, (step.Keeps past rid ↔ ¬ (step.Cut past rid ∧ 0 < step.before.direct rid)) ∧
        (step.Cut past rid → step.after.direct rid = 0) := by
  refine ⟨exists_history hs, fun history past step later hexplained heq rid => ?_⟩
  have hrun := hexplained.run
  rw [heq] at hrun
  obtain ⟨hpast, hdoes, _⟩ := Client.Goes.split hrun
  exact ⟨Client.keeps_iff hpast hdoes, Client.direct_of_cut hpast hdoes⟩

def serve (s : ClientSession) (messages : List ServerMessage) (close : Bool) : ClientSession :=
  (s.server none messages close).2.settle.receive.2

def greeted (s : ClientSession) (label : String) : ClientSession :=
  (s.start label .connect).settle.receive.2.serve
    [.reply "version" [("result", .obj [("protocol", .str "1.2.1")])]] false

/-- The resource is subscribed when the first connection closes, and being resubscribed when the
application gives the second connection up. -/
def interrupted (rid : String) : ClientSession :=
  let first := (fresh (.forUrl "ws://test")).greeted "first"
  let subscribed := (first.start "subscribe" (.subscribe rid)).settle.receive.2.serve
    [.reply ("subscribe." ++ rid) [("result", .obj [("models", .obj [(rid, .obj [])])])]] false
  ((subscribed.serve [] true).greeted "second").disconnect.settle

theorem reached_serve (hs : Reached config s) (messages : List ServerMessage) (close : Bool) :
    Reached config (s.serve messages close) :=
  (reached_settle (reached_server none messages close hs)).next .receive

theorem reached_greeted (hs : Reached config s) (label : String) :
    Reached config (s.greeted label) :=
  reached_serve ((reached_settle (hs.next (.call label .connect))).next .receive) _ false

theorem keeps_subscriptions_iff_interrupted :
    (∃ history, (interrupted "m").Explained (.forUrl "ws://test") history) ∧
    ∀ history past step later, (interrupted "m").Explained (.forUrl "ws://test") history →
      history = past ++ step :: later →
      ∀ rid, (step.Keeps past rid ↔ ¬ (step.Cut past rid ∧ 0 < step.before.direct rid)) ∧
        (step.Cut past rid → step.after.direct rid = 0) := by
  have hfirst := reached_greeted (@Reached.fresh (.forUrl "ws://test")) "first"
  have hasked := (reached_settle (hfirst.next (.call "subscribe" (.subscribe "m")))).next .receive
  have hsubscribed := reached_serve hasked
    [.reply "subscribe.m" [("result", .obj [("models", .obj [("m", .obj [])])])]] false
  have hsecond := reached_greeted (reached_serve hsubscribed [] true) "second"
  exact keeps_subscriptions_iff (reached_settle (hsecond.next .disconnect))

end ClientSession

end LiveResource
