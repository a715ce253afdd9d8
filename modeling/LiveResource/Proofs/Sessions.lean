import LiveResource.Client.Session
import LiveResource.Proofs.History

set_option autoImplicit false

/-!
# Sessions make moves

A session schedules tasks, and nothing is assumed of the schedule: any job may have its turn at any
time. Every turn, and everything that happens from outside, takes the client along moves.
-/

namespace LiveResource

open Client (History)

def Part.Asked (h : History) (part : Part) : Prop :=
  ∀ reply, part.reply = some reply → h.Asked ("subscribe." ++ part.rid) reply

structure Gathering.Asked (h : History) (g : Gathering) : Prop where
  due : ∀ part ∈ g.due, part.Asked h
  asleep : ∀ w ∈ g.asleep, h.Asked ("subscribe." ++ w.1) w.2
  deferred : ∀ part ∈ g.deferred, part.Asked h

namespace Gathering.Asked

variable {h h' : History} {g : Gathering} {c c' : Client}

theorem mono (hg : g.Asked h) (hgoes : Client.Goes h c h' c') : g.Asked h' :=
  ⟨fun part hmem reply hreply => (hg.due part hmem reply hreply).mono hgoes,
    fun w hmem => (hg.asleep w hmem).mono hgoes,
    fun part hmem reply hreply => (hg.deferred part hmem reply hreply).mono hgoes⟩

theorem ofList (h : History) (rids : List String) : (Gathering.ofList rids).Asked h := by
  refine ⟨fun part hmem reply hreply => ?_, fun w hmem => (by cases hmem), fun part hmem => by
    cases hmem⟩
  obtain ⟨rid, _, rfl⟩ := List.mem_map.mp hmem
  cases hreply

theorem woken (hg : g.Asked h) {waiting : List (String × Ticket)} (hsub : ∀ w ∈ waiting, w ∈ g.asleep)
    {part : Part} (hmem : part ∈ waiting.map fun w => (⟨w.1, some w.2⟩ : Part)) : part.Asked h := by
  obtain ⟨w, hw, rfl⟩ := List.mem_map.mp hmem
  intro reply hreply
  cases hreply
  exact hg.asleep w (hsub w hw)

theorem stir (hg : g.Asked h) (replies : Ledger (Outcome Json)) : (g.stir replies).Asked h := by
  unfold Gathering.stir
  split
  · exact hg
  · refine ⟨fun part hmem => ?_, fun w hmem => hg.asleep w (List.mem_filter.mp hmem).1, hg.deferred⟩
    rcases List.mem_append.mp hmem with hdue | harrived
    · exact hg.due part hdue
    · refine hg.woken (fun w hw => ?_) harrived
      obtain ⟨_, _, hfilter⟩ := List.mem_flatMap.mp hw
      exact (List.mem_filter.mp hfilter).1

theorem renew (hg : g.Asked h) (replies : Ledger (Outcome Json)) : (g.renew replies).Asked h := by
  have hstirred := hg.stir replies
  refine ⟨fun part hmem => ?_, hstirred.asleep, fun part hmem => (by cases hmem)⟩
  rcases List.mem_append.mp hmem with hdue | hdeferred
  · exact hstirred.due part hdue
  · exact hstirred.deferred part (List.mem_reverse.mp hdeferred)

theorem rouse (hg : g.Asked h) (replies : Ledger (Outcome Json)) : (g.rouse replies).Asked h := by
  unfold Gathering.rouse
  split
  · refine ⟨fun part hmem => ?_, fun w hmem => (by cases hmem), hg.deferred⟩
    rcases List.mem_append.mp hmem with hdue | hwoken
    · exact hg.due part hdue
    · exact hg.woken (fun _ => id) hwoken
  · exact hg.stir replies

end Gathering.Asked

namespace GatheringTurn

variable {h : History} {t : GatheringTurn Client}

def Leads (h : History) (c : Client) (t : GatheringTurn Client) : Prop :=
  ∃ h', Client.Goes h c h' t.session ∧ t.gathering.Asked h'

theorem Leads.trans {h' : History} {c : Client} (hgoes : Client.Goes h c h' t.session)
    {t' : GatheringTurn Client} (hleads : t'.Leads h' t.session) : t'.Leads h c := by
  obtain ⟨h'', hgoes', hasked⟩ := hleads
  exact ⟨h'', hgoes.trans hgoes', hasked⟩

theorem leads_look (hg : t.gathering.Asked h) (number : Nat) {rid : String} {reply : Ticket}
    (hasked : h.Asked ("subscribe." ++ rid) reply) :
    (t.look (ClientSession.host number) rid reply).Leads h t.session := by
  unfold look
  split
  · refine ⟨h, .refl, hg.due, hg.asleep, fun part hmem => ?_⟩
    rcases List.mem_append.mp hmem with hold | hnew
    · exact hg.deferred part hold
    · rw [List.mem_singleton.mp hnew]
      intro reply' hreply
      cases hreply
      exact hasked
  · split
    · rename_i outcome houtcome
      have hdoes := Client.Does.resubscribed rid reply hasked houtcome
      exact ⟨_, hdoes.goes, hg.mono hdoes.goes⟩
    · refine ⟨h, .refl, hg.due, fun w hmem => ?_, hg.deferred⟩
      rcases List.mem_append.mp hmem with hold | hnew
      · exact hg.asleep w hold
      · rw [List.mem_singleton.mp hnew]
        exact hasked

theorem session_hear (t : GatheringTurn Client) (number : Nat) :
    (t.hear (ClientSession.host number)).session = t.session := by
  unfold hear
  dsimp only
  split <;> rfl

theorem asked_hear (hg : t.gathering.Asked h) (number : Nat) :
    (t.hear (ClientSession.host number)).gathering.Asked h := by
  unfold hear
  dsimp only
  split
  · exact hg.stir _
  · exact hg

theorem leads_lookAt (hg : t.gathering.Asked h) (number : Nat) {part : Part}
    (hpart : part.Asked h) : (t.lookAt (ClientSession.host number) part).Leads h t.session := by
  unfold lookAt
  cases hreply : part.reply with
  | some reply => exact leads_look hg number (hpart reply hreply)
  | none =>
    -- the request goes out, and its ticket is looked at with all that came in on the way
    have hdoes : Client.Does h t.session (.request (some number) ("subscribe." ++ part.rid) none)
        (t.session.request number ("subscribe." ++ part.rid) none).2 := .request (some number) _ _
    have hasked := hdoes.asked
    have hheard := @asked_hear _ { t with
      session := (t.session.request number ("subscribe." ++ part.rid) none).2 }
      (hg.mono hdoes.goes) number
    have hlook := leads_look hheard number hasked
    rw [session_hear] at hlook
    exact Leads.trans (t := { t with
      session := (t.session.request number ("subscribe." ++ part.rid) none).2 }) hdoes.goes hlook

theorem leads_run (hg : t.gathering.Asked h) (number fuel : Nat) :
    (t.run (ClientSession.host number) fuel).Leads h t.session := by
  induction fuel generalizing t h with
  | zero => exact ⟨h, .refl, hg⟩
  | succ fuel ih =>
    unfold run
    cases hdue : t.gathering.due with
    | nil => exact ⟨h, .refl, hg⟩
    | cons part due =>
      have hpart : part.Asked h := hg.due part (by rw [hdue]; exact List.mem_cons_self)
      have hrest : ({ t.gathering with due := due } : Gathering).Asked h := by
        refine ⟨fun part' hmem => hg.due part' ?_, hg.asleep, hg.deferred⟩
        rw [hdue]
        exact List.mem_cons_of_mem _ hmem
      obtain ⟨h', hgoes, hasked⟩ := @leads_lookAt _ { t with
        gathering := { t.gathering with due := due } } hrest number part hpart
      dsimp only
      split
      · exact ⟨h', hgoes, hasked⟩
      · exact Leads.trans hgoes (ih hasked)

end GatheringTurn

namespace ClientTask

def Asked (h : History) : ClientTask → Prop
  | .resubscribing _ parts => parts.Asked h
  | .fetching rid _ reply => h.Asked ("subscribe." ++ rid) reply
  | _ => True

theorem Asked.mono {h h' : History} {task : ClientTask} {c c' : Client} (htask : task.Asked h)
    (hgoes : Client.Goes h c h' c') : task.Asked h' := by
  cases task with
  | resubscribing number parts => exact Gathering.Asked.mono htask hgoes
  | fetching rid shared reply => exact History.Asked.mono htask hgoes
  | _ => trivial

end ClientTask

def ClientProgress.Asked (h : History) : ClientProgress → Prop
  | .waiting task => task.Asked h
  | .pausing task _ => task.Asked h
  | .ended _ => True

namespace ClientSession

variable {h h' h'' : History} {s s' s'' : ClientSession} {c' : Client}

structure Goes (h : History) (s : ClientSession) (h' : History) (s' : ClientSession) : Prop where
  client : Client.Goes h s.client h' s'.client
  jobs : ∀ j ∈ s'.jobs, j ∈ s.jobs ∨ ∀ h, j.task.Asked h

def Leads (h : History) (s : ClientSession) (r : ClientProgress × ClientSession) : Prop :=
  ∃ h', s.Goes h h' r.2 ∧ r.1.Asked h'

theorem Goes.refl (h : History) (s : ClientSession) : s.Goes h h s :=
  ⟨.refl, fun _ hj => .inl hj⟩

theorem Goes.trans (hgoes : s.Goes h h' s') (hgoes' : s'.Goes h' h'' s'') : s.Goes h h'' s'' := by
  refine ⟨hgoes.client.trans hgoes'.client, fun j hj => ?_⟩
  rcases hgoes'.jobs j hj with hold | hnew
  · exact hgoes.jobs j hold
  · exact .inr hnew

theorem Goes.leads {r : ClientProgress × ClientSession} (hgoes : s.Goes h h' s')
    (hleads : s'.Leads h' r) : s.Leads h r := by
  obtain ⟨h'', hgoes', hasked⟩ := hleads
  exact ⟨h'', hgoes.trans hgoes', hasked⟩

theorem Goes.of_client (hgoes : Client.Goes h s.client h' c') : s.Goes h h' (s.withClient c') :=
  ⟨hgoes, fun _ hj => .inl hj⟩

theorem goes_does {move : Client.Move} (hdoes : Client.Does h s.client move c') :
    s.Goes h (h ++ [⟨s.client, move, c'⟩]) (s.withClient c') := .of_client hdoes.goes

theorem does_quiet {c : Client} (hcache : c'.cache = c.cache) (hreplies : c'.replies = c.replies) :
    Client.Does h c .quiet c' := by
  refine .quiet (by rw [hcache]) (by rw [hcache]) hreplies fun notice hmem => .inl ?_
  rw [hcache] at hmem
  exact hmem

theorem does_told {c : Client} {notice : Notice} (hcache : c'.cache = c.cache.send notice)
    (hreplies : c'.replies = c.replies) (hnotice : ∀ e, notice ≠ .cacheError e) :
    Client.Does h c .quiet c' := by
  refine .quiet (by rw [hcache]; rfl) (by rw [hcache]; rfl) hreplies fun notice' hmem => ?_
  rw [hcache] at hmem
  rcases List.mem_append.mp hmem with hold | hnew
  · exact .inl hold
  · rw [List.mem_singleton.mp hnew]
    exact .inr hnotice

theorem leads_here {progress : ClientProgress} (hprogress : progress.Asked h) :
    s.Leads h (progress, s) := ⟨h, .refl h s, hprogress⟩

theorem client_wakeSince (before s : ClientSession) (running : Option Nat) :
    (wakeSince before s running).client = s.client ∧
      (wakeSince before s running).jobs = s.jobs := by
  have hfold (awaits : Ticket → ClientTask → Bool) (tickets : List Ticket) (s : ClientSession) :
      let s' := tickets.foldl
        (fun s t => s.queue fun j => running != some j.id && awaits t j.task) s
      s'.client = s.client ∧ s'.jobs = s.jobs := by
    induction tickets generalizing s with
    | nil => exact ⟨rfl, rfl⟩
    | cons t rest ih => exact ih (s.queue _)
  unfold wakeSince
  dsimp only
  obtain ⟨hclient, hjobs⟩ := hfold awaitsReply
    (s.client.replies.settledSince before.client.replies.settled.length) s
  obtain ⟨hclient', hjobs'⟩ := hfold awaitsCompletion
    (s.client.cache.store.ledger.settledSince before.client.cache.store.ledger.settled.length)
    ((s.client.replies.settledSince before.client.replies.settled.length).foldl
      (fun s t => s.queue fun j => running != some j.id && awaitsReply t j.task) s)
  exact ⟨hclient'.trans hclient, hjobs'.trans hjobs⟩

theorem goes_wakeSince (before s : ClientSession) (running : Option Nat) :
    s.Goes h h (wakeSince before s running) := by
  obtain ⟨hclient, hjobs⟩ := client_wakeSince before s running
  refine ⟨?_, fun j hj => .inl ?_⟩
  · rw [hclient]
    exact .refl
  · rw [hjobs] at hj
    exact hj

theorem goes_shutdown (s : ClientSession) : ∃ h', s.Goes h h' s.shutdown := by
  have hdoes : s.Goes h (h ++ [⟨s.client, .shutdown, s.client.shutdown⟩])
      ((s.queue (hearsClosing ·.task)).withClient s.client.shutdown) :=
    ⟨Client.Does.shutdown.goes, fun _ hj => .inl hj⟩
  exact ⟨_, hdoes.trans (goes_wakeSince s _ none)⟩

theorem goes_endIfUnused (s : ClientSession) : ∃ h', s.Goes h h' s.endIfUnused := by
  unfold endIfUnused
  split
  · obtain ⟨h', hgoes⟩ := @goes_shutdown h { s with alive := false }
    exact ⟨h', hgoes.client, hgoes.jobs⟩
  · exact ⟨h, .refl h s⟩

theorem leads_resubscribing {parts : Gathering} (hparts : parts.Asked h) (number allowance : Nat) :
    s.Leads h (s.runResubscribing number parts allowance) := by
  obtain ⟨h', hgoes, hasked⟩ := @GatheringTurn.leads_run h
    ⟨parts.rouse s.client.replies, s.client, allowance, 0, .untilWoken⟩ (hparts.rouse _) number
    (2 * (parts.rouse s.client.replies).size)
  unfold runResubscribing
  dsimp only
  split
  · exact ⟨h', .of_client hgoes, trivial⟩
  · exact ⟨h', .of_client hgoes, hasked⟩

theorem leads_greeting (number : Nat) (reply : Ticket) :
    s.Leads h (s.runGreeting number reply) := by
  unfold runGreeting
  split
  · exact leads_here trivial
  · rename_i outcome _
    dsimp only
    cases outcome with
    | ok result => exact leads_resubscribing (.ofList h _) number _
    | error fault =>
      have hdoes : Client.Does h s.client .quiet (s.client.greeted (.error fault)) :=
        does_told rfl rfl fun e heq => by cases heq
      exact (goes_does hdoes).leads (leads_resubscribing (.ofList _ _) number _)

theorem leads_greet (number : Nat) : s.Leads h (s.runGreet number) :=
  (goes_does (.request (some number) "version" _)).leads (leads_greeting number _)

theorem goes_spawn (s : ClientSession) (label : Option String) {task : ClientTask}
    (htask : ∀ h, task.Asked h) : s.Goes h h (s.spawn label task) := by
  refine ⟨.refl, fun j hj => ?_⟩
  rcases List.mem_append.mp hj with hold | hnew
  · exact .inl hold
  · rw [List.mem_singleton.mp hnew]
    exact .inr htask

theorem goes_meet (hdoes : Client.Does h s.client .quiet c') :
    s.Goes h (h ++ [⟨s.client, .quiet, c'⟩]) (s.meet c') :=
  ⟨hdoes.goes, fun _ hj => .inl hj⟩

theorem leads_connecting : s.Leads h s.runConnecting := by
  unfold runConnecting
  split
  · exact ⟨_, goes_does (does_quiet rfl rfl), trivial⟩
  · have hopened : Client.Does h s.client .quiet s.client.opened.2 :=
      does_told rfl rfl fun e heq => by cases heq
    have hspawn := @goes_spawn (h ++ [⟨s.client, .quiet, s.client.opened.2⟩])
      (s.meet s.client.opened.2) none (.supervise (.listening s.client.opened.1))
      fun _ => trivial
    exact ((goes_meet hopened).trans hspawn).leads (leads_greet _)

theorem leads_connect : s.Leads h s.runConnect := by
  unfold runConnect
  split
  · have hbegin : Client.Does h s.client .quiet s.client.beginConnect := does_quiet rfl rfl
    exact (goes_does hbegin).leads leads_connecting
  · exact leads_here trivial

theorem Goes.stops (hgoes : s.Goes h h' s') (place : Supervisor) : s.Leads h (goOn place, s') := by
  refine ⟨h', hgoes, ?_⟩
  cases place <;> trivial

theorem leads_reopening (number : Nat) : s.Leads h (s.runReopening number) := by
  unfold runReopening
  split
  · exact (Goes.refl h s).stops _
  · have hopened : Client.Does h s.client .quiet (s.client.reopened number).2 :=
      does_told rfl rfl fun e heq => by cases heq
    have hspawn := @goes_spawn (h ++ [⟨s.client, .quiet, (s.client.reopened number).2⟩])
      (s.meet (s.client.reopened number).2) none (.greet (s.client.reopened number).1)
      fun _ => trivial
    exact ((goes_meet hopened).trans hspawn).stops _

theorem does_stir (number : Nat) (due : Bool) :
    Client.Does h s.client .quiet (s.client.stir number due).2 := by
  unfold Client.stir
  split
  · exact does_quiet rfl rfl
  · split <;> exact does_quiet rfl rfl

theorem leads_resting (number : Nat) (due : Bool) : s.Leads h (s.runResting number due) := by
  have hstir := @does_stir h s number due
  unfold runResting
  generalize s.client.stir number due = stirred at hstir
  obtain ⟨place, client⟩ := stirred
  cases place with
  | reopening next => exact (goes_does hstir).leads (leads_reopening next)
  | _ => exact (goes_does hstir).stops _

theorem leads_regrouping (number allowance : Nat) :
    s.Leads h (s.runRegrouping number allowance) := by
  cases allowance with
  | zero => exact leads_here trivial
  | succ left =>
    have hregroup : Client.Does h s.client .quiet s.client.regroup := does_quiet rfl rfl
    unfold runRegrouping
    dsimp only
    split
    · exact ⟨_, goes_does hregroup, trivial⟩
    · exact (goes_does hregroup).leads (leads_resting number false)

theorem does_conclude (number : Nat) :
    Client.Does h s.client .quiet (s.client.conclude number).2 := by
  unfold Client.conclude
  dsimp only
  split <;> exact does_told rfl rfl fun e heq => by cases heq

theorem leads_leaving (number allowance : Nat) : s.Leads h (s.runLeaving number allowance) := by
  cases allowance with
  | zero => exact leads_here trivial
  | succ left =>
    have hconclude := @does_conclude h s number
    unfold runLeaving
    generalize s.client.conclude number = concluded at hconclude
    obtain ⟨place, client⟩ := concluded
    cases place with
    | regrouping next => exact (goes_does hconclude).leads (leads_regrouping next left)
    | _ => exact (goes_does hconclude).stops _

theorem goes_takeTexts (number : Nat) (texts : List String) (s : ClientSession) :
    ∃ h', s.Goes h h' (texts.foldl (fun s text => s.takeText number text) s) := by
  induction texts generalizing s h with
  | nil => exact ⟨h, .refl h s⟩
  | cons text rest ih =>
    have htext := (goes_does (s := s) (Client.Does.text (h := h) number text)).trans
      (goes_wakeSince s _ none)
    obtain ⟨h', hrest⟩ := ih (s.takeText number text)
    exact ⟨h', htext.trans hrest⟩

theorem leads_listening (number : Nat) : s.Leads h (s.runListening number) := by
  have hinbox : Client.Does h s.client .quiet (s.client.setConnection number
      { s.client.connection number with
        inbox := ((s.client.connection number).inbox.take Schedule.allowance).2 }) :=
    does_quiet rfl rfl
  obtain ⟨h', htexts⟩ := goes_takeTexts (h := h ++ [⟨s.client, .quiet, _⟩]) number
    ((s.client.connection number).inbox.take Schedule.allowance).1
    (s.withClient (s.client.setConnection number { s.client.connection number with
      inbox := ((s.client.connection number).inbox.take Schedule.allowance).2 }))
  have htaken := (goes_does hinbox).trans htexts
  unfold runListening
  dsimp only
  split
  · exact ⟨h', htaken, trivial⟩
  · split
    · exact htaken.leads ((goes_does (.abandon number)).leads (leads_leaving number _))
    · exact htaken.stops _

theorem leads_supervisor (place : Supervisor) : s.Leads h (s.runSupervisor place) := by
  cases place with
  | listening number => exact leads_listening number
  | catchingUp number => exact leads_listening number
  | leaving number => exact leads_leaving number _
  | regrouping number => exact leads_regrouping number _
  | resting number due => exact leads_resting number due
  | reopening number => exact leads_reopening number
  | retired => exact (Goes.refl h s).stops .retired

theorem leads_loading (rid : String) (pending : Ticket) : s.Leads h (s.runLoading rid pending) := by
  unfold runLoading
  split <;> exact leads_here trivial

theorem leads_joined (rid : String) (shared : Ticket) : s.Leads h (s.runJoined rid shared) := by
  unfold runJoined
  split
  · exact leads_here trivial
  · rename_i outcome _
    have hjoin := goes_does (s := s) (Client.Does.join (h := h) rid outcome)
    generalize s.client.cache.join rid outcome = joined at hjoin
    obtain ⟨result, cache⟩ := joined
    cases result with
    | error fault => exact ⟨_, hjoin, trivial⟩
    | ok pending => exact hjoin.leads (leads_loading rid pending)

theorem leads_fetching {rid : String} {shared reply : Ticket}
    (hasked : h.Asked ("subscribe." ++ rid) reply) :
    s.Leads h (s.runFetching rid shared reply) := by
  unfold runFetching
  split
  · exact leads_here hasked
  · rename_i outcome houtcome
    exact ⟨_, goes_does (.fetched rid shared reply hasked houtcome), trivial⟩

theorem ticket_requestOn (c : Client) (live : Option Nat) (method : String)
    (params : Option Json) : (c.requestOn live method params).1 = c.replies.next := by
  cases live <;> rfl

theorem leads_fetch (rid : String) (shared : Ticket) : s.Leads h
    ((s.withClient (s.client.requestOn s.client.live ("subscribe." ++ rid) none).2).runFetching rid
      shared (s.client.requestOn s.client.live ("subscribe." ++ rid) none).1) := by
  have hrequest := Client.Does.request (h := h) (c := s.client) s.client.live
    ("subscribe." ++ rid) none
  rw [ticket_requestOn]
  exact (goes_does hrequest).leads (leads_fetching hrequest.asked)

theorem leads_subscribe (rid : String) : s.Leads h (s.runSubscribe rid) := by
  have hsubscribe := goes_does (s := s) (Client.Does.subscribe (h := h) rid)
  unfold runSubscribe
  generalize s.client.cache.subscribe rid = subscribed at hsubscribe
  obtain ⟨call, cache⟩ := subscribed
  cases call with
  | loading rid pending => exact hsubscribe.leads (leads_loading rid pending)
  | joined rid shared => exact hsubscribe.leads (leads_joined rid shared)
  | fetching rid shared => exact hsubscribe.leads (leads_fetch rid shared)

theorem leads_releasing (rid : String) (reply : Ticket) :
    s.Leads h (s.runReleasing rid reply) := by
  unfold runReleasing
  split
  · exact leads_here trivial
  · rename_i outcome houtcome
    exact ⟨_, goes_does (.released rid reply houtcome), trivial⟩

theorem leads_unsubscribe (rid : String) : s.Leads h (s.runUnsubscribe rid) := by
  have hunsubscribe := goes_does (s := s) (Client.Does.unsubscribe (h := h) rid)
  unfold runUnsubscribe
  generalize s.client.cache.unsubscribe rid = left at hunsubscribe
  obtain ⟨result, cache⟩ := left
  cases result with
  | error fault => exact ⟨_, hunsubscribe, trivial⟩
  | ok leaving =>
    cases leaving with
    | done => exact ⟨_, hunsubscribe, trivial⟩
    | asking =>
      have hask (h : History) (s : ClientSession) : s.Leads h
          ((s.withClient (s.client.requestOn s.client.live ("unsubscribe." ++ rid) none).2).runReleasing
            rid (s.client.requestOn s.client.live ("unsubscribe." ++ rid) none).1) :=
        (goes_does (.request s.client.live _ none)).leads (leads_releasing rid _)
      exact hunsubscribe.leads (hask _ _)

theorem leads_answering (reply : Ticket) : s.Leads h (s.runAnswering reply) := by
  unfold runAnswering
  split
  · exact leads_here trivial
  · exact leads_here trivial
  · rename_i result hresult
    exact ⟨_, goes_does (.answer reply hresult), trivial⟩

theorem leads_request (method : String) (params : Option Json) :
    s.Leads h (s.runRequest method params) :=
  (goes_does (.request s.client.live method params)).leads (leads_answering _)

theorem leads_advance {task : ClientTask} (htask : task.Asked h) : s.Leads h (s.advance task) := by
  cases task with
  | connect => exact leads_connect
  | connecting => exact leads_connecting
  | greet number => exact leads_greet number
  | greeting number reply => exact leads_greeting number reply
  | resubscribing number parts => exact leads_resubscribing htask number _
  | supervise place => exact leads_supervisor place
  | subscribe rid => exact leads_subscribe rid
  | fetching rid shared reply => exact leads_fetching htask
  | joined rid shared => exact leads_joined rid shared
  | loading rid pending => exact leads_loading rid pending
  | unsubscribe rid => exact leads_unsubscribe rid
  | releasing rid reply => exact leads_releasing rid reply
  | request method params => exact leads_request method params
  | answering reply => exact leads_answering reply

inductive IsCall : ClientTask → Prop
  | connect : IsCall .connect
  | subscribe (rid : String) : IsCall (.subscribe rid)
  | unsubscribe (rid : String) : IsCall (.unsubscribe rid)
  | request (method : String) (params : Option Json) : IsCall (.request method params)

/-- What can happen to a session next. No job has to wait for another one to have its turn. -/
inductive Next (s : ClientSession) : ClientSession → Prop
  | turn {job : ClientJob} : job ∈ s.jobs → Next s (s.runJob job)
  | round : Next s s.newRound
  | call (label : String) {task : ClientTask} : IsCall task → Next s (s.start label task)
  | disconnect : Next s s.disconnect
  | release : Next s s.release
  | tick : Next s s.tick
  /-- A text arrives from the server. -/
  | deliver (number : Nat) (text : String) : Next s (s.deliver number text).2
  | closePeer (number : Nat) : Next s (s.closePeer number)
  | receive : Next s s.receive.2
  | clear : Next s s.clear
  | register (registry : Registry) :
    Next s (s.withCache { s.client.cache with registry := registry })
  /-- The schedule, the server and the application change, and the client and its jobs do not. -/
  | outside {s' : ClientSession} : s'.client = s.client → s'.jobs = s.jobs → Next s s'

/-- What a session can get to, beginning with a client that is new. -/
inductive Reached (config : Config) : ClientSession → Prop
  | fresh : Reached config (fresh config)
  | next {s s' : ClientSession} : Reached config s → s.Next s' → Reached config s'

/-- A session whose client has come about by these moves. -/
structure Explained (config : Config) (h : History) (s : ClientSession) : Prop where
  run : Client.Run config h s.client
  jobs : ∀ j ∈ s.jobs, j.task.Asked h

variable {config : Config}

theorem Explained.goes (hs : s.Explained config h) (hgoes : s.Goes h h' s') :
    s'.Explained config h' := by
  refine ⟨hs.run.trans hgoes.client, fun j hj => ?_⟩
  rcases hgoes.jobs j hj with hold | hnew
  · exact (hs.jobs j hold).mono hgoes.client
  · exact hnew h'

theorem explained_runJob {job : ClientJob} (hs : s.Explained config h) (hjob : job ∈ s.jobs) :
    ∃ h', (s.runJob job).Explained config h' := by
  obtain ⟨h', hgoes, hprogress⟩ := leads_advance (s := s) (hs.jobs job hjob)
  unfold runJob
  generalize s.advance job.task = advanced at hgoes hprogress
  obtain ⟨progress, after⟩ := advanced
  have hwoken := (hs.goes hgoes).goes (goes_wakeSince s after (some job.id))
  -- the job goes on with a task that has asked for what it waits for
  have hpause (task : ClientTask) (p : Pause) (htask : task.Asked h') :
      ((wakeSince s after (some job.id)).pause job.id task p).Explained config h' := by
    refine ⟨hwoken.run, fun j hj => ?_⟩
    obtain ⟨j', hj', rfl⟩ := List.mem_map.mp hj
    split
    · exact htask
    · exact hwoken.jobs j' hj'
  cases progress with
  | waiting task => exact ⟨h', hpause task _ hprogress⟩
  | pausing task p => exact ⟨h', hpause task p hprogress⟩
  | ended ending =>
    have hfinish : ((wakeSince s after (some job.id)).finish job ending).Explained config h' :=
      ⟨hwoken.run, fun j hj => hwoken.jobs j (List.mem_filter.mp hj).1⟩
    obtain ⟨h'', hend⟩ :=
      @goes_endIfUnused h' ((wakeSince s after (some job.id)).finish job ending)
    exact ⟨h'', hfinish.goes hend⟩

theorem explained_newRound (hs : s.Explained config h) : s.newRound.Explained config h := by
  refine ⟨hs.run, fun j hj => ?_⟩
  obtain ⟨j', hj', rfl⟩ := List.mem_map.mp hj
  have htask := hs.jobs j' hj'
  cases hkind : j'.task with
  | resubscribing number parts =>
    rw [hkind] at htask
    exact Gathering.Asked.renew htask _
  | _ =>
    rw [hkind] at htask
    simp only
    rw [hkind]
    exact htask

theorem explained_tick (hs : s.Explained config h) : s.tick.Explained config h := by
  refine ⟨hs.run, fun j hj => ?_⟩
  obtain ⟨j', hj', rfl⟩ := List.mem_map.mp hj
  split
  · trivial
  · exact hs.jobs j' hj'

theorem goes_receiveFrom (left : Nat) (number : Nat) (s : ClientSession) :
    ∃ h', s.Goes h h' (s.receiveFrom number left).2 := by
  induction left generalizing s h number with
  | zero => exact ⟨h, .refl h s⟩
  | succ left ih =>
    unfold receiveFrom
    dsimp only
    split
    · have hquiet : Client.Does h s.client .quiet (s.client.setConnection number
          { s.client.connection number with mux := { (s.client.connection number).mux with
            outgoing := (s.client.connection number).mux.outgoing.drain.2 } }) :=
        does_quiet rfl rfl
      have hdrain : s.Goes h (h ++ [⟨s.client, .quiet, _⟩]) { s with
          client := s.client.setConnection number { s.client.connection number with
            mux := { (s.client.connection number).mux with
              outgoing := (s.client.connection number).mux.outgoing.drain.2 } }
          peers := s.peers.set number { s.peer number with
            seen := (s.peer number).seen ++
              (s.client.connection number).mux.outgoing.drain.1.map seenRequest } } :=
        ⟨hquiet.goes, fun _ hj => .inl hj⟩
      obtain ⟨h', hrest⟩ := ih (number + 1) _
      exact ⟨h', hdrain.trans hrest⟩
    · exact ih (number + 1) s

theorem explained_next (hs : s.Explained config h) (hnext : s.Next s') :
    ∃ h', s'.Explained config h' := by
  cases hnext with
  | turn hjob => exact explained_runJob hs hjob
  | round => exact ⟨h, explained_newRound hs⟩
  | call label htask =>
    exact ⟨h, hs.goes (goes_spawn s (some label) fun _ => by cases htask <;> trivial)⟩
  | disconnect =>
    obtain ⟨h', hgoes⟩ := @goes_shutdown h s
    exact ⟨h', hs.goes hgoes⟩
  | release =>
    obtain ⟨h', hgoes⟩ := @goes_endIfUnused h { s with held := false }
    have hheld : ({ s with held := false } : ClientSession).Explained config h := ⟨hs.run, hs.jobs⟩
    exact ⟨h', hheld.goes hgoes⟩
  | tick => exact ⟨h, explained_tick hs⟩
  | deliver number text =>
    have hquiet : Client.Does h s.client .quiet (s.client.setConnection number
        { s.client.connection number with
          inbox := ((s.client.connection number).inbox.send text).2 }) := does_quiet rfl rfl
    exact ⟨_, hs.goes ⟨hquiet.goes, fun _ hj => .inl hj⟩⟩
  | closePeer number =>
    have hquiet : Client.Does h s.client .quiet (s.client.setConnection number
        ⟨{ (s.client.connection number).mux with
          outgoing := (s.client.connection number).mux.outgoing.closeReceiver },
          (s.client.connection number).inbox.closeSender⟩) := does_quiet rfl rfl
    exact ⟨_, hs.goes ⟨hquiet.goes, fun _ hj => .inl hj⟩⟩
  | receive =>
    obtain ⟨h', hgoes⟩ := @goes_receiveFrom h s.peers.length 0 s
    exact ⟨h', hs.goes hgoes⟩
  | clear =>
    have hquiet : Client.Does h s.client .quiet
        (s.client.withCache { s.client.cache with channel := [] }) :=
      .quiet rfl rfl rfl fun notice hmem => (by cases hmem)
    exact ⟨_, hs.goes ⟨hquiet.goes, fun _ hj => .inl hj⟩⟩
  | register registry => exact ⟨_, hs.goes (goes_does (.register registry))⟩
  | outside hclient hjobs =>
    refine ⟨h, ⟨?_, fun j hj => hs.jobs j (hjobs ▸ hj)⟩⟩
    rw [hclient]
    exact hs.run

/-- However its tasks take their turns, a session is the outcome of moves of its client. -/
theorem exists_history (hs : Reached config s) : ∃ h, s.Explained config h := by
  induction hs with
  | fresh => exact ⟨[], .refl, fun j hj => (by cases hj)⟩
  | next _ hnext ih =>
    obtain ⟨h, hs⟩ := ih
    exact explained_next hs hnext

/-- To run the queue is one way for a session to go on. -/
theorem reached_runQueue (hs : Reached config s) (fuel : Nat) : Reached config (s.runQueue fuel) := by
  induction fuel generalizing s with
  | zero => exact hs
  | succ fuel ih =>
    unfold runQueue
    split
    · exact hs
    · exact ih (hs.next .round)
    · rename_i id schedule hnext
      have hturn : Reached config { s with schedule := schedule } := hs.next (.outside rfl rfl)
      dsimp only
      split
      · exact ih hturn
      · rename_i job hjob
        exact ih (hturn.next (.turn (List.mem_of_find?_eq_some hjob)))

theorem reached_settle (hs : Reached config s) : Reached config s.settle :=
  reached_runQueue (hs.next .round) _

theorem reached_deliverAll (number : Nat) (messages : List ServerMessage)
    (hs : Reached config s) : Reached config (s.deliverAll number messages).2 := by
  induction messages generalizing s with
  | nil => exact hs
  | cons message rest ih =>
    unfold deliverAll
    split
    · exact ih hs
    · rename_i text peer _
      have hpeer : Reached config { s with peers := s.peers.set number peer } :=
        hs.next (.outside rfl rfl)
      exact ih (hpeer.next (.deliver number text))

theorem reached_server (number : Option Nat) (messages : List ServerMessage) (close : Bool)
    (hs : Reached config s) : Reached config (s.server number messages close).2 := by
  unfold server
  dsimp only
  split
  · have hdelivered := reached_deliverAll (number.getD (s.peers.length - 1)) messages hs
    cases close with
    | true => exact hdelivered.next (.closePeer _)
    | false => exact hdelivered
  · exact hs

end ClientSession

end LiveResource
