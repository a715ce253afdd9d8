import LiveResource.Client.Basic
import LiveResource.Proofs.Subscriptions

set_option autoImplicit false

/-!
# The history of a client

Whatever runs in a client, in whatever order its tasks take their turns, the client makes one move
after another. A move is what a task does to the cache or to the outcomes of requests without a
pause; all other steps of a task are quiet moves.
-/

namespace LiveResource

namespace Ledger

variable {α : Type}

theorem outcome?_foldl_settle (fired : List (Ticket × α)) (l : Ledger α) {u : Ticket} {outcome : α}
    (h : l.outcome? u = some outcome) :
    (fired.foldl (fun l f => l.settle f.1 f.2) l).outcome? u = some outcome := by
  induction fired generalizing l with
  | nil => exact h
  | cons f rest ih =>
    apply ih
    rw [outcome?_settle, h, Option.some_or]

theorem outcome?_of_foldl_settle (fired : List (Ticket × α)) (l : Ledger α) {u : Ticket}
    {outcome : α} (h : (fired.foldl (fun l f => l.settle f.1 f.2) l).outcome? u = some outcome) :
    l.outcome? u = some outcome ∨ (u, outcome) ∈ fired := by
  induction fired generalizing l with
  | nil => exact .inl h
  | cons f rest ih =>
    rcases ih (l.settle f.1 f.2) h with hold | hmem
    · rcases outcome?_of_settle hold with hold | ⟨rfl, rfl⟩
      · exact .inl hold
      · exact .inr List.mem_cons_self
    · exact .inr (List.mem_cons_of_mem _ hmem)

end Ledger

namespace Client

inductive Move
  /-- A text from the server is taken in. -/
  | text (number : Nat) (text : String)
  | request (live : Option Nat) (method : String) (params : Option Json)
  | subscribe (rid : String)
  | fetched (rid : String) (shared reply : Ticket)
  | join (rid : String) (outcome : Outcome Unit)
  | unsubscribe (rid : String)
  | released (rid : String) (reply : Ticket)
  | answer (reply : Ticket)
  | resubscribed (rid : String) (reply : Ticket)
  /-- A supervisor gives its connection up. -/
  | abandon (number : Nat)
  /-- The application gives the live connection up. -/
  | shutdown
  /-- The application registers factories. -/
  | register (registry : Registry)
  | quiet

structure Step where
  before : Client
  move : Move
  after : Client

abbrev History := List Step

def History.Asked (h : History) (method : String) (reply : Ticket) : Prop :=
  ∃ step ∈ h, ∃ live params, step.move = .request live method params ∧
    step.before.replies.next = reply

def Step.Answers (step : Step) (reply : Ticket) : Prop :=
  (∃ number text, step.move = .text number text) ∧ step.before.replies.outcome? reply = none ∧
    step.after.replies.isSettled reply = true

def History.Heard (h : History) (reply : Ticket) : Prop := ∃ step ∈ h, step.Answers reply

/-- One move, with the history that it goes on from. -/
inductive Does (h : History) (c : Client) : Move → Client → Prop
  | text (number : Nat) (text : String) : Does h c (.text number text) (c.dispatch number text)
  | request (live : Option Nat) (method : String) (params : Option Json) :
    Does h c (.request live method params) (c.requestOn live method params).2
  | subscribe (rid : String) : Does h c (.subscribe rid) (c.withCache (c.cache.subscribe rid).2)
  | fetched (rid : String) (shared reply : Ticket) {outcome : Outcome Json} :
    h.Asked ("subscribe." ++ rid) reply → c.replies.outcome? reply = some outcome →
    Does h c (.fetched rid shared reply) (c.withCache (c.cache.fetched rid shared outcome).2)
  | join (rid : String) (outcome : Outcome Unit) :
    Does h c (.join rid outcome) (c.withCache (c.cache.join rid outcome).2)
  | unsubscribe (rid : String) :
    Does h c (.unsubscribe rid) (c.withCache (c.cache.unsubscribe rid).2)
  | released (rid : String) (reply : Ticket) {outcome : Outcome Json} :
    c.replies.outcome? reply = some outcome →
    Does h c (.released rid reply) (c.withCache (c.cache.released rid (outcome.map fun _ => ())).2)
  | answer (reply : Ticket) {result : Json} : c.replies.outcome? reply = some (.ok result) →
    Does h c (.answer reply) (c.answer result).2
  | resubscribed (rid : String) (reply : Ticket) {outcome : Outcome Json} :
    h.Asked ("subscribe." ++ rid) reply → c.replies.outcome? reply = some outcome →
    Does h c (.resubscribed rid reply) (c.withCache (c.cache.resubscribed rid outcome))
  | abandon (number : Nat) : Does h c (.abandon number) (c.abandon number)
  | shutdown : Does h c .shutdown c.shutdown
  | register (registry : Registry) :
    Does h c (.register registry) (c.withCache { c.cache with registry := registry })
  | quiet {c' : Client} : c'.cache.store = c.cache.store → c'.cache.registry = c.cache.registry →
    c'.replies = c.replies →
    (∀ notice ∈ c'.cache.channel, notice ∈ c.cache.channel ∨ ∀ e, notice ≠ .cacheError e) →
    Does h c .quiet c'

inductive Goes (h : History) (c : Client) : History → Client → Prop
  | refl : Goes h c h c
  | step {h' : History} {c' c'' : Client} {move : Move} : Goes h c h' c' → Does h' c' move c'' →
    Goes h c (h' ++ [⟨c', move, c''⟩]) c''

def Run (config : Config) (h : History) (c : Client) : Prop := Goes [] (fresh config) h c

variable {config : Config} {h h' h'' : History} {c c' c'' : Client} {move : Move}

theorem Does.goes (hdoes : Does h c move c') : Goes h c (h ++ [⟨c, move, c'⟩]) c' :=
  .step .refl hdoes

theorem Goes.trans (hgoes : Goes h c h' c') (hgoes' : Goes h' c' h'' c'') : Goes h c h'' c'' := by
  induction hgoes' with
  | refl => exact hgoes
  | step _ hdoes ih => exact .step ih hdoes

theorem Goes.exists_append (hgoes : Goes h c h' c') : ∃ later, h' = h ++ later := by
  induction hgoes with
  | refl => exact ⟨[], (List.append_nil h).symm⟩
  | step _ _ ih =>
    obtain ⟨later, rfl⟩ := ih
    exact ⟨later ++ [_], List.append_assoc _ _ _⟩

theorem History.Asked.mono {method : String} {reply : Ticket} (hasked : h.Asked method reply)
    (hgoes : Goes h c h' c') : h'.Asked method reply := by
  obtain ⟨later, rfl⟩ := hgoes.exists_append
  obtain ⟨step, hmem, hstep⟩ := hasked
  exact ⟨step, List.mem_append_left _ hmem, hstep⟩

theorem Does.asked {live : Option Nat} {method : String} {params : Option Json}
    (_hdoes : Does h c (.request live method params) c') :
    History.Asked (h ++ [⟨c, .request live method params, c'⟩]) method c.replies.next :=
  ⟨_, List.mem_append_right h List.mem_cons_self, live, params, rfl, rfl⟩

/-- Every step of a run was made by the client that the steps before it led to. -/
theorem Goes.split {start : Client} {past later : History} {step : Step}
    (hgoes : Goes [] start (past ++ step :: later) c) :
    Goes [] start past step.before ∧ Does past step.before step.move step.after ∧
      Goes (past ++ [step]) step.after (past ++ step :: later) c := by
  generalize hall : past ++ step :: later = all at hgoes
  induction hgoes generalizing later with
  | refl => cases past <;> cases hall
  | @step h' c' c'' move hgoes hdoes ih =>
    rcases List.eq_nil_or_concat later with rfl | ⟨rest, last, rfl⟩
    · have hsame := List.append_inj' hall rfl
      obtain ⟨rfl, hlast⟩ := hsame
      cases hlast
      exact ⟨hgoes, hdoes, .refl⟩
    · rw [List.concat_eq_append, ← List.cons_append, ← List.append_assoc] at hall
      obtain ⟨hrest, hlast⟩ := List.append_inj' hall rfl
      obtain ⟨hpast, hstep, hlater⟩ := ih hrest
      exact ⟨hpast, hstep, .step hlater hdoes⟩

theorem outcome?_fire_closed {fired : Fired Ticket} {reply : Ticket} {outcome : Outcome Json}
    (hclosed : ∀ f ∈ fired, f.2 = .error .connectionClosed)
    (h : (c.fire fired).replies.outcome? reply = some outcome) :
    c.replies.outcome? reply = some outcome ∨ outcome = .error .connectionClosed := by
  rcases Ledger.outcome?_of_foldl_settle fired c.replies h with hold | hmem
  · exact .inl hold
  · exact .inr (hclosed _ hmem)

theorem closed_of_request {mux : Multiplexer Ticket} {method : String} {params : Option Json}
    {ticket : Ticket} :
    ∀ f ∈ (mux.request method params ticket).2.1, f.2 = .error .connectionClosed := by
  unfold Multiplexer.request
  split
  · intro f hf
    rw [List.mem_singleton.mp hf]
  · dsimp only
    split
    · intro f hf
      cases hf
    · intro f hf
      rw [List.mem_singleton.mp hf]

theorem closed_of_dispose {mux : Multiplexer Ticket} :
    ∀ f ∈ mux.dispose.1, f.2 = .error .connectionClosed := by
  intro f hf
  obtain ⟨_, _, rfl⟩ := List.mem_map.mp hf
  rfl

theorem outcome?_requestOn {live : Option Nat} {method : String} {params : Option Json}
    {reply : Ticket} {outcome : Outcome Json}
    (h : (c.requestOn live method params).2.replies.outcome? reply = some outcome) :
    c.replies.outcome? reply = some outcome ∨ outcome = .error .connectionClosed := by
  cases live with
  | some number =>
    rcases outcome?_fire_closed closed_of_request h with hold | hclosed
    · exact .inl hold
    · exact .inr hclosed
  | none =>
    have hsettle : ((c.replies.issue.2).settle c.replies.next
        (.error .connectionClosed)).outcome? reply = some outcome := h
    rcases Ledger.outcome?_of_settle hsettle with hold | ⟨_, rfl⟩
    · exact .inl hold
    · exact .inr rfl

theorem outcome?_dispose {number : Nat} {reply : Ticket} {outcome : Outcome Json}
    (h : (c.dispose number).replies.outcome? reply = some outcome) :
    c.replies.outcome? reply = some outcome ∨ outcome = .error .connectionClosed := by
  rcases outcome?_fire_closed closed_of_dispose h with hold | hclosed
  · exact .inl hold
  · exact .inr hclosed

theorem outcome?_abandon {number : Nat} {reply : Ticket} {outcome : Outcome Json}
    (h : (c.abandon number).replies.outcome? reply = some outcome) :
    c.replies.outcome? reply = some outcome ∨ outcome = .error .connectionClosed :=
  outcome?_dispose (c := c.withCache c.cache.setAllStale.2) h

theorem outcome?_shutdown {reply : Ticket} {outcome : Outcome Json}
    (h : c.shutdown.replies.outcome? reply = some outcome) :
    c.replies.outcome? reply = some outcome ∨ outcome = .error .connectionClosed := by
  unfold shutdown at h
  dsimp only at h
  cases hlive : c.live with
  | none =>
    rw [hlive] at h
    exact .inl h
  | some number =>
    rw [hlive] at h
    rcases outcome?_dispose h with hold | hclosed
    · exact .inl hold
    · exact .inr hclosed

theorem replies_answer (c : Client) (result : Json) : (c.answer result).2.replies = c.replies := by
  unfold answer
  split
  · rfl
  · split
    · rfl
    · split <;> rfl

def taken (c : Client) (number : Nat) (text : String) :
    Except ProtocolError (Option IncomingEvent) × Fired Ticket × Multiplexer Ticket :=
  (c.connection number).mux.handle text

theorem replies_dispatch (c : Client) (number : Nat) (text : String) :
    (c.dispatch number text).replies =
      (c.taken number text).2.1.foldl (fun l f => l.settle f.1 f.2) c.replies := by
  unfold dispatch taken
  dsimp only
  split
  · rfl
  · rfl
  · split <;> rfl

theorem Does.outcome? (hdoes : Does h c move c') {reply : Ticket} {outcome : Outcome Json}
    (hreply : c.replies.outcome? reply = some outcome) :
    c'.replies.outcome? reply = some outcome := by
  cases hdoes with
  | text number text =>
    rw [replies_dispatch]
    exact Ledger.outcome?_foldl_settle _ _ hreply
  | request live method params =>
    cases live with
    | some number => exact Ledger.outcome?_foldl_settle _ _ hreply
    | none =>
      change ((c.replies.issue.2).settle c.replies.next (.error .connectionClosed)).outcome? reply = _
      rw [Ledger.outcome?_settle]
      exact Option.or_eq_some_iff.mpr (.inl hreply)
  | answer ticket _ =>
    rw [replies_answer]
    exact hreply
  | abandon number => exact Ledger.outcome?_foldl_settle _ _ hreply
  | shutdown =>
    unfold Client.shutdown
    dsimp only
    split
    · exact hreply
    · exact Ledger.outcome?_foldl_settle _ _ hreply
  | quiet _ _ hreplies _ =>
    rw [hreplies]
    exact hreply
  | _ => exact hreply

/-- A request that the server has not answered can only have ended with its connection. -/
theorem heard_or_closed (hrun : Run config h c) {reply : Ticket} {outcome : Outcome Json}
    (hreply : c.replies.outcome? reply = some outcome) :
    h.Heard reply ∨ outcome = .error .connectionClosed := by
  induction hrun generalizing outcome with
  | refl => cases hreply
  | @step h' c' c'' move _ hdoes ih =>
    have hold (hbefore : c'.replies.outcome? reply = some outcome) :
        History.Heard (h' ++ [⟨c', move, c''⟩]) reply ∨ outcome = .error .connectionClosed := by
      refine (ih hbefore).imp_left fun hheard => ?_
      obtain ⟨step, hmem, hanswers⟩ := hheard
      exact ⟨step, List.mem_append_left _ hmem, hanswers⟩
    cases hdoes with
    | text number text =>
      cases hbefore : c'.replies.outcome? reply with
      | none =>
        have hsettled : (c'.dispatch number text).replies.isSettled reply = true := by
          unfold Ledger.isSettled
          rw [hreply]
          rfl
        exact .inl ⟨_, List.mem_append_right _ List.mem_cons_self, ⟨number, text, rfl⟩, hbefore,
          hsettled⟩
      | some earlier =>
        have hkept : (c'.dispatch number text).replies.outcome? reply = some earlier :=
          (Does.text (h := h') number text).outcome? hbefore
        rw [hkept] at hreply
        cases hreply
        exact hold hbefore
    | request live method params => exact (outcome?_requestOn hreply).elim hold .inr
    | answer ticket _ =>
      rw [replies_answer] at hreply
      exact hold hreply
    | abandon number => exact (outcome?_abandon hreply).elim hold .inr
    | shutdown => exact (outcome?_shutdown hreply).elim hold .inr
    | quiet _ _ hreplies _ =>
      rw [hreplies] at hreply
      exact hold hreply
    | _ => exact hold hreply

theorem cache_fire (c : Client) (fired : Fired Ticket) : (c.fire fired).cache = c.cache := rfl

theorem cache_requestOn (c : Client) (live : Option Nat) (method : String) (params : Option Json) :
    (c.requestOn live method params).2.cache = c.cache := by
  cases live <;> rfl

theorem cache_shutdown (c : Client) : c.shutdown.cache = c.cache := by
  unfold shutdown
  dsimp only
  split <;> rfl

theorem taken_event {number : Nat} {text : String} {event : IncomingEvent} :
    (c.taken number text).1 = .ok (some event) ↔ Message.decode text = .ok (.event event) := by
  unfold taken Multiplexer.handle
  split
  · rename_i why hdecode
    rw [hdecode]
    exact ⟨fun heq => (by cases heq), fun heq => (by cases heq)⟩
  · rename_i event' hdecode
    rw [hdecode]
    exact ⟨fun heq => (by cases heq; rfl), fun heq => (by cases heq; rfl)⟩
  · rename_i id outcome hdecode
    rw [hdecode]
    refine ⟨fun heq => ?_, fun heq => (by cases heq)⟩
    split at heq <;> cases heq
  · rename_i id why hdecode
    rw [hdecode]
    refine ⟨fun heq => ?_, fun heq => (by cases heq)⟩
    split at heq <;> cases heq

theorem cache_dispatch_event {number : Nat} {text : String} {event : IncomingEvent}
    (h : Message.decode text = .ok (.event event)) : (c.dispatch number text).cache =
      match c.cache.handleEvent event.rid event.name event.data with
      | (.ok _, cache) => cache
      | (.error e, cache) => cache.send (.cacheError e) := by
  have htaken := (@taken_event c number text event).mpr h
  unfold taken at htaken
  unfold dispatch
  dsimp only
  rw [htaken]
  dsimp only
  split <;> rename_i hhandled <;> rw [cache_fire] at hhandled <;>
    simp only [setConnection] at hhandled <;> rw [hhandled] <;> rfl

theorem store_dispatch_event {number : Nat} {text : String} {event : IncomingEvent}
    (h : Message.decode text = .ok (.event event)) : (c.dispatch number text).cache.store =
      (c.cache.handleEvent event.rid event.name event.data).2.store := by
  rw [cache_dispatch_event h]
  split
  · rename_i hdone
    rw [hdone]
  · rename_i hfailed
    rw [hfailed]
    rfl

/-- A text that is no event reaches the cache at most as a report. -/
theorem cache_dispatch {number : Nat} {text : String}
    (h : ∀ event, Message.decode text ≠ .ok (.event event)) :
    (c.dispatch number text).cache = c.cache ∨
      ∃ error, (c.dispatch number text).cache = c.cache.send (.protocolError error) := by
  unfold dispatch
  dsimp only
  split
  · exact .inr ⟨_, rfl⟩
  · exact .inl rfl
  · rename_i event hevent
    exact absurd (taken_event.mp hevent) (h event)

/-- An answer that names a resource is merged. -/
theorem cache_answer (c : Client) (result : Json) : (c.answer result).2.cache = c.cache ∨
    ∃ rid batch, Batch.ofJson result = .ok batch ∧
      (c.answer result).2.cache = (c.cache.add batch rid).2 := by
  unfold answer
  split
  · exact .inl rfl
  · rename_i rid _
    split
    · exact .inl rfl
    · rename_i batch hbatch
      refine .inr ⟨rid, batch, hbatch, ?_⟩
      split <;> rename_i hadd <;> rw [hadd] <;> rfl

end Client

end LiveResource
