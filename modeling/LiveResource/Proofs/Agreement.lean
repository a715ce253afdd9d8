import LiveResource.Proofs.Accounts
import LiveResource.Proofs.Joining
import Mathlib.Data.List.Nodup

set_option autoImplicit false

/-!
# What the server holds

The server performs the network calls for a resource in the order in which they were made, as far as
it answers them with success, and forgets what it holds when the connection is lost. Client and
server agree if what the client counts is held, and what is held is counted or about to be given up.
A step can end their agreement in nine ways.
-/

namespace LiveResource

/-- What a network call for a resource is made for. -/
inductive Errand
  | fetch (shared : Ticket)
  /-- The resubscription of a stale resource. -/
  | renew
  | leave
deriving DecidableEq

def Errand.subscribes : Errand → Bool
  | .leave => false
  | _ => true

structure Sent where
  errand : Errand
  /-- Whether it has succeeded, once it is answered. -/
  answer : Option Bool
  /-- The connection it was made on is lost. -/
  lost : Bool

namespace Sent

def fresh (errand : Errand) : Sent := ⟨errand, none, false⟩

def answered (sent : Sent) (ok : Bool) : Sent := { sent with answer := some ok }

def cut (sent : Sent) : Sent := { sent with lost := true }

def performed (sent : Sent) : Bool := !sent.lost && sent.answer == some true

def awaits (errand : Errand) (sent : Sent) : Bool := sent.answer.isNone && sent.errand == errand

def asks (sent : Sent) : Bool := !sent.lost && sent.awaits .leave

end Sent

/-- The network calls for one resource, the latest one first. -/
abbrev Line := List Sent

namespace Line

/-- Whether the server holds a subscription. The latest call that it has performed decides. -/
def holds : Line → Bool
  | [] => false
  | sent :: earlier => if sent.performed then sent.errand.subscribes else holds earlier

/-- The server has been asked to end the subscription, and has performed no later call. -/
def asked : Line → Bool
  | [] => false
  | sent :: earlier => if sent.performed then false else sent.asks || asked earlier

def view (line : Line) : Bool × Bool := (line.holds, line.asked)

/-- The server performs a call, and has performed none that was made later. -/
def Performs (line line' : Line) (errand : Errand) : Prop :=
  ∃ later sent earlier, sent.errand = errand ∧ sent.answer = none ∧ sent.lost = false ∧
    (∀ s ∈ later, s.performed = false) ∧ line = later ++ sent :: earlier ∧
    line' = later ++ sent.answered true :: earlier

variable {line line' later earlier : Line} {sent : Sent} {errand : Errand} {ok : Bool}

theorem append_of_idle (h : ∀ s ∈ later, s.performed = false) (earlier : Line) :
    holds (later ++ earlier) = holds earlier ∧
      asked (later ++ earlier) = (asked later || asked earlier) := by
  induction later with
  | nil => exact ⟨rfl, rfl⟩
  | cons s later ih =>
    obtain ⟨hholds, hasked⟩ := ih fun s' hs' => h s' (List.mem_cons_of_mem _ hs')
    have hs := h s List.mem_cons_self
    simp only [List.cons_append, holds, asked, hs, Bool.false_eq_true, if_false, hholds, hasked,
      Bool.or_assoc, and_self]

theorem view_append_of_performed (h : ∃ s ∈ later, s.performed = true) (earlier : Line) :
    view (later ++ earlier) = view later := by
  induction later with
  | nil =>
    obtain ⟨s, hs, _⟩ := h
    cases hs
  | cons s later ih =>
    cases hs : s.performed with
    | true => simp only [view, List.cons_append, holds, asked, hs, if_true]
    | false =>
      obtain ⟨s', hmem, hs'⟩ := h
      have hlater : s' ∈ later := by
        rcases List.mem_cons.mp hmem with rfl | hlater
        · cases hs.symm.trans hs'
        · exact hlater
      obtain ⟨hholds, hasked⟩ := Prod.mk.inj (ih ⟨s', hlater, hs'⟩)
      simp only [view, List.cons_append, holds, asked, hs, Bool.false_eq_true, if_false, hholds,
        hasked]

theorem asked_eq_false (h : ∀ s ∈ line, s.asks = false) : line.asked = false := by
  induction line with
  | nil => rfl
  | cons s line ih =>
    simp only [asked, h s List.mem_cons_self, ih fun s' hs' => h s' (List.mem_cons_of_mem _ hs'),
      Bool.or_false, ite_self]

theorem view_cut (line : Line) : view (line.map Sent.cut) = (false, false) := by
  induction line with
  | nil => rfl
  | cons sent line ih =>
    obtain ⟨hholds, hasked⟩ := Prod.mk.inj ih
    simp only [view, List.map_cons, holds, asked, Sent.performed, Sent.asks, Sent.cut,
      Bool.not_true, Bool.false_and, Bool.false_eq_true, if_false, Bool.false_or, hholds, hasked]

theorem Performs.holds (h : Performs line line' errand) : line'.holds = errand.subscribes := by
  obtain ⟨later, sent, earlier, rfl, hopen, hstands, hidle, rfl, rfl⟩ := h
  rw [(append_of_idle hidle _).1]
  have hperformed : (sent.answered true).performed = true := by
    simp [Sent.performed, Sent.answered, hstands]
  simp only [Line.holds, hperformed, if_true]
  rfl

theorem Performs.asked (h : Performs line line' errand) (hasked : line.asked = false) :
    line'.asked = false := by
  obtain ⟨later, sent, earlier, rfl, hopen, hstands, hidle, rfl, rfl⟩ := h
  rw [(append_of_idle hidle _).2, Bool.or_eq_false_iff] at hasked
  rw [(append_of_idle hidle _).2, hasked.1]
  simp [Line.asked, Sent.performed, Sent.answered, hstands]

/-- An answer counts for the server only if the call succeeds, and its connection stands, and no
later call has been performed. A refusal takes a question back. -/
theorem answered_cases (hopen : sent.answer = none) (later earlier : Line) (ok : Bool) :
    (ok = true ∧ Performs (later ++ sent :: earlier) (later ++ sent.answered ok :: earlier)
      sent.errand) ∨
    holds (later ++ sent.answered ok :: earlier) = holds (later ++ sent :: earlier) ∧
      (ok = true ∨ sent.asks = false →
        asked (later ++ sent.answered ok :: earlier) = asked (later ++ sent :: earlier)) := by
  have hbefore : sent.performed = false := by simp [Sent.performed, hopen]
  have hafter : (sent.answered ok).asks = false := by
    simp [Sent.asks, Sent.awaits, Sent.answered]
  by_cases hidle : ∀ s ∈ later, s.performed = false
  · cases hperformed : (sent.answered ok).performed with
    | true =>
      simp only [Sent.performed, Sent.answered, Bool.and_eq_true, Bool.not_eq_true', beq_iff_eq,
        Option.some.injEq] at hperformed
      obtain ⟨hstands, rfl⟩ := hperformed
      exact .inl ⟨rfl, later, sent, earlier, rfl, hopen, hstands, hidle, rfl, rfl⟩
    | false =>
      right
      rw [(append_of_idle hidle _).1, (append_of_idle hidle _).1, (append_of_idle hidle _).2,
        (append_of_idle hidle _).2]
      refine ⟨by simp only [holds, hbefore, hperformed, Bool.false_eq_true, if_false],
        fun hasks => ?_⟩
      have hsent : sent.asks = false := by
        rcases hasks with rfl | hasks
        · -- it has succeeded, so its connection was lost
          simp only [Sent.performed, Sent.answered, Bool.and_eq_false_iff, Bool.not_eq_false',
            beq_eq_false_iff_ne, ne_eq, not_true, or_false] at hperformed
          simp [Sent.asks, hperformed]
        · exact hasks
      simp only [asked, hbefore, hperformed, hafter, hsent]
  · simp only [not_forall, Bool.not_eq_false] at hidle
    obtain ⟨s, hmem, hs⟩ := hidle
    have hsame (rest : Line) := Prod.mk.inj (view_append_of_performed ⟨s, hmem, hs⟩ rest)
    exact .inr ⟨(hsame _).1.trans (hsame _).1.symm, fun _ => (hsame _).2.trans (hsame _).2.symm⟩

end Line

def Action.reply? (rid : String) : Action → Option (Errand × Bool)
  | .fetched x shared reply => if x = rid then some (.fetch shared, reply.isOk) else none
  | .released x reply => if x = rid then some (.leave, reply.isOk) else none
  | .resubscribed x reply => if x = rid then some (.renew, reply.isOk) else none
  | _ => none

namespace World

variable {registry : Registry} {w w' : World} {action : Action} {err : Option CacheError}
  {rid x : String} {line line' : Line} {errand : Errand} {ok : Bool}

def posted (w : World) (rid : String) : Action → Line
  | .subscribe x =>
    match (w.cache.subscribe x).1 with
    | .fetching y shared => if y = rid then [.fresh (.fetch shared)] else []
    | _ => []
  | .unsubscribe x =>
    match (w.cache.unsubscribe x).1 with
    | .ok .asking => if x = rid then [.fresh .leave] else []
    | _ => []
  | .subscribeStale => if rid ∈ w.cache.store.staleRids then [.fresh .renew] else []
  | _ => []

inductive Talks (w : World) (rid : String) (action : Action) : Line → Line → Prop
  | cut {line : Line} : action = .setAllStale → Talks w rid action line (line.map Sent.cut)
  | answer {sent : Sent} {later earlier : Line} {ok : Bool} :
    action.reply? rid = some (sent.errand, ok) → sent.answer = none →
    Talks w rid action (later ++ sent :: earlier) (later ++ sent.answered ok :: earlier)
  | post {line : Line} : action ≠ .setAllStale → action.reply? rid = none →
    Talks w rid action line (w.posted rid action ++ line)

/-- A step, with the network calls for a resource before and after it. -/
structure Exchange where
  step : Step
  line : Line
  line' : Line

/-- A trace with the network calls for a resource. Of several calls of the same kind, the server may
answer any one. -/
inductive Dialogue (registry : Registry) (rid : String) : List Exchange → World → Line → Prop
  | start : Dialogue registry rid [] (start registry) []
  | step {dialogue : List Exchange} {w w' : World} {line line' : Line} {action : Action}
    {err : Option CacheError} : Dialogue registry rid dialogue w line →
    w.perform action = some (err, w') → w.Talks rid action line line' →
    Dialogue registry rid (dialogue ++ [⟨⟨w, action, err, w'⟩, line, line'⟩]) w' line'

/-- The client takes the resource to be subscribed and up to date. -/
def Counts (w : World) (rid : String) : Prop :=
  0 < w.cache.store.direct rid ∧ w.cache.store.isStale rid = false

/-- What the client counts the server holds. What the server holds the client counts, or has asked
it to end. -/
def Agrees (w : World) (line : Line) (rid : String) : Prop :=
  (w.Counts rid → line.holds = true) ∧ (line.holds = true → w.Counts rid ∨ line.asked = true)

/-- The ways in which a step ends the agreement. -/
inductive Exchange.Slips (e : Exchange) (rid : String) : Prop
  /-- A network subscribe is performed, and its reply is not taken over. -/
  | uncounted {errand : Errand} : e.line.Performs e.line' errand → errand.subscribes = true →
    ¬ e.step.after.Counts rid → e.line'.asked = false → Slips e rid
  /-- The reply to a network subscribe is taken over, though the connection was lost since the call
  was made, or a later unsubscribe has been performed. -/
  | overtaken {errand : Errand} {ok : Bool} : e.step.action.reply? rid = some (errand, ok) →
    errand.subscribes = true → ¬ e.line.Performs e.line' errand → e.step.after.Counts rid →
    e.line.holds = false → Slips e rid
  /-- A caller is counted when the network subscribe that it joined has been undone. -/
  | late {shared : Ticket} : e.step.action = .join rid shared →
    e.step.before.cache.store.direct rid = 0 → 0 < e.step.after.cache.store.direct rid →
    e.line.holds = false → Slips e rid
  /-- An unsubscribe is refused and the subscription restored that the server has ended already. -/
  | restored {fault : Fault} : e.step.action = .released rid (.error fault) →
    e.step.before.cache.store.direct rid = 0 →
    (e.step.before.cache.store.get? rid).isSome = true → e.line.holds = false → Slips e rid
  /-- A batch is counted without a network call. -/
  | unasked {batch : Batch} :
    e.step.action = .add batch rid ∨ e.step.action = .resubscribe batch rid →
    e.step.after.Counts rid → e.line.holds = false → Slips e rid
  /-- The server ends the subscription of a resource that has been subscribed again meanwhile. -/
  | ended : e.step.action = .released rid (.ok ()) → e.line.Performs e.line' .leave →
    e.step.before.Counts rid → Slips e rid
  /-- The connection is lost, and the resource is not loaded and so not marked. -/
  | unmarked : e.step.action = .setAllStale → e.step.before.Counts rid →
    e.step.before.cache.store.isLoaded rid = false → Slips e rid
  /-- The subscriptions of a resource are dropped that the server holds. -/
  | dropped : e.step.Ends rid → e.line.holds = true → e.line.asked = false → Slips e rid
  /-- An unsubscribe is refused, and there is no entry in which to restore the subscription. -/
  | unrestored {fault : Fault} : e.step.action = .released rid (.error fault) →
    e.step.before.cache.store.get? rid = none → e.line.holds = true → e.line'.asked = false →
    Slips e rid

def inFlight (w : World) (rid : String) : Errand → Nat
  | .fetch shared => w.callers.count (.fetching rid shared)
  | .renew => w.resubscribing.count rid
  | .leave => w.leaving.count rid

def replied (rid : String) (action : Action) (errand : Errand) : Nat :=
  if (action.reply? rid).map Prod.fst = some errand then 1 else 0

theorem countP_posted (p : Prop) [Decidable p] (errand errand' : Errand) :
    (if p then [Sent.fresh errand'] else []).countP (Sent.awaits errand) =
      if p ∧ errand' = errand then 1 else 0 := by
  by_cases hp : p <;> by_cases herrand : errand' = errand <;>
    simp [hp, herrand, Sent.awaits, Sent.fresh]

theorem count_erase_add {α : Type} [DecidableEq α] {l : List α} {a : α} (hmem : a ∈ l) (b : α) :
    (l.erase a).count b + (if a = b then 1 else 0) = l.count b := by
  rw [(List.perm_cons_erase hmem).count_eq, List.count_cons]
  simp only [beq_iff_eq]

theorem count_staleRids (s : Store) (rid : String) :
    s.staleRids.count rid = if rid ∈ s.staleRids then 1 else 0 := by
  split
  · rename_i hmem
    exact List.count_eq_one_of_mem (Dict.nodup_keys _) hmem
  · rename_i hnot
    exact List.count_eq_zero.mpr hnot

/-- The client waits for the calls that it has made and that have not been answered. -/
theorem Acts.inFlight (hacts : w.Acts action err w') (rid : String) (errand : Errand) :
    w'.inFlight rid errand + replied rid action errand =
      w.inFlight rid errand + (w.posted rid action).countP (Sent.awaits errand) := by
  cases hacts with
  | subscribe x =>
    have hcall : (w.posted rid (.subscribe x)).countP (Sent.awaits errand) =
        match errand with
        | .fetch shared => [(w.cache.subscribe x).1].count (.fetching rid shared)
        | _ => 0 := by
      unfold posted
      dsimp only
      cases (w.cache.subscribe x).1 with
      | fetching y shared =>
        dsimp only
        rw [countP_posted]
        cases errand <;> simp [List.count_singleton]
      | joined y shared => cases errand <;> simp
      | loading y pending => cases errand <;> simp
    rw [hcall]
    cases errand <;> simp [World.inFlight, replied, Action.reply?]
  | fetched reply hmem =>
    cases errand with
    | fetch t =>
      have hcount := count_erase_add hmem (.fetching rid t)
      simp only [Call.fetching.injEq] at hcount
      simpa [World.inFlight, replied, posted, Action.reply?] using hcount
    | _ => simp [World.inFlight, replied, posted, Action.reply?]
  | released reply hmem =>
    cases errand with
    | leave => simpa [World.inFlight, replied, posted, Action.reply?] using count_erase_add hmem _
    | _ => simp [World.inFlight, replied, posted, Action.reply?]
  | resubscribed reply hmem =>
    cases errand with
    | renew => simpa [World.inFlight, replied, posted, Action.reply?] using count_erase_add hmem _
    | _ => simp [World.inFlight, replied, posted, Action.reply?]
  | ask hask =>
    simp only [posted, hask, countP_posted]
    cases errand <;> simp [World.inFlight, replied, Action.reply?, List.count_cons]
  | subscribeStale =>
    simp only [posted, countP_posted]
    cases errand <;> simp [World.inFlight, replied, Action.reply?, count_staleRids]
  | join _ _ _ =>
    cases errand <;>
      simp [World.inFlight, replied, posted, Action.reply?, List.count_erase_of_ne]
  | refuse _ _ _ =>
    cases errand <;>
      simp [World.inFlight, replied, posted, Action.reply?, List.count_erase_of_ne]
  | loaded _ _ =>
    cases errand <;>
      simp [World.inFlight, replied, posted, Action.reply?, List.count_erase_of_ne]
  | unsubscribe hnot => cases errand <;> simp [World.inFlight, replied, posted, Action.reply?]
  | _ => rfl

theorem Talks.countP (h : w.Talks rid action line line') (errand : Errand) :
    line'.countP (Sent.awaits errand) + replied rid action errand =
      line.countP (Sent.awaits errand) + (w.posted rid action).countP (Sent.awaits errand) := by
  cases h with
  | cut haction =>
    subst haction
    have hsame : Sent.awaits errand ∘ Sent.cut = Sent.awaits errand := rfl
    rw [List.countP_map, hsame]
    rfl
  | @answer sent later earlier ok hreply hopen =>
    have hreplied : replied rid action errand = if sent.errand = errand then 1 else 0 := by
      simp only [replied, hreply, Option.map_some, Option.some.injEq]
    have hposted : w.posted rid action = [] := by
      cases action <;> first | rfl | cases hreply
    rw [hreplied, hposted]
    simp only [List.countP_append, List.countP_cons, Sent.awaits, Sent.answered, hopen,
      Option.isNone_none, Option.isNone_some, Bool.true_and, Bool.false_and, beq_iff_eq,
      Bool.false_eq_true, if_false, List.countP_nil]
    omega
  | post haction hreply =>
    simp only [replied, hreply, Option.map_none, List.countP_append, if_neg, reduceCtorEq,
      not_false_eq_true]
    omega

theorem posted_unsubscribe (hnot : (w.cache.unsubscribe x).1 ≠ .ok .asking) :
    w.posted rid (.unsubscribe x) = [] := by
  simp only [posted]

/-- Only who gives up the last subscription asks the server to end it. -/
theorem fresh_of_mem_posted {sent : Sent} (hmem : sent ∈ w.posted rid action) :
    ∃ errand, sent = .fresh errand ∧ (errand = .leave →
      action = .unsubscribe rid ∧ (w.cache.unsubscribe rid).1 = .ok .asking) := by
  unfold posted at hmem
  split at hmem
  · split at hmem
    · split at hmem
      · exact ⟨_, List.mem_singleton.mp hmem, nofun⟩
      · cases hmem
    · cases hmem
  · split at hmem
    · rename_i x hask
      split at hmem
      · rename_i heq
        subst heq
        exact ⟨_, List.mem_singleton.mp hmem, fun _ => ⟨rfl, hask⟩⟩
      · cases hmem
    · cases hmem
  · split at hmem
    · exact ⟨_, List.mem_singleton.mp hmem, nofun⟩
    · cases hmem
  · cases hmem

theorem asks_of_mem_posted {sent : Sent} (hmem : sent ∈ w.posted rid action)
    (hasks : sent.asks = true) :
    action = .unsubscribe rid ∧ (w.cache.unsubscribe rid).1 = .ok .asking := by
  obtain ⟨errand, rfl, hleave⟩ := fresh_of_mem_posted hmem
  exact hleave (by simpa [Sent.asks, Sent.awaits, Sent.fresh] using hasks)

theorem Talks.posts (h : w.Talks rid action line line') (haction : action ≠ .setAllStale)
    (hreply : action.reply? rid = none) : line' = w.posted rid action ++ line ∧
      line'.holds = line.holds ∧
      line'.asked = ((w.posted rid action : Line).asked || line.asked) := by
  cases h with
  | cut heq => exact absurd heq haction
  | answer hsome _ => cases hreply.symm.trans hsome
  | post _ _ =>
    have hidle : ∀ s ∈ w.posted rid action, s.performed = false := fun s hs => by
      obtain ⟨errand, rfl, _⟩ := fresh_of_mem_posted hs
      rfl
    exact ⟨rfl, Line.append_of_idle hidle line⟩

theorem Talks.view_of_posts (h : w.Talks rid action line line') (haction : action ≠ .setAllStale)
    (hreply : action.reply? rid = none) (hunsubscribe : action ≠ .unsubscribe rid) :
    line'.view = line.view := by
  have hposted : Line.asked (w.posted rid action) = false := Line.asked_eq_false fun sent hmem => by
    rw [← Bool.not_eq_true]
    exact fun hasks => hunsubscribe (asks_of_mem_posted hmem hasks).1
  obtain ⟨_, hholds, hasked⟩ := h.posts haction hreply
  rw [hposted, Bool.false_or] at hasked
  exact Prod.ext hholds hasked

theorem Talks.answers (h : w.Talks rid action line line')
    (hreply : action.reply? rid = some (errand, ok)) :
    (ok = true ∧ line.Performs line' errand) ∨
    (line'.holds = line.holds ∧ ∃ sent ∈ line, sent.errand = errand ∧
      (ok = true ∨ sent.asks = false → line'.asked = line.asked)) := by
  cases h with
  | cut heq =>
    subst heq
    cases hreply
  | @answer sent later earlier ok' hsome hopen =>
    cases hreply.symm.trans hsome
    refine (Line.answered_cases hopen later earlier ok).imp_right fun ⟨hholds, hasked⟩ => ?_
    exact ⟨hholds, sent, List.mem_append_right _ List.mem_cons_self, rfl, hasked⟩
  | post _ hnone => cases hnone.symm.trans hreply

/-- A subscribe that is not performed is nothing to the server. -/
theorem Talks.view_of_answers (h : w.Talks rid action line line')
    (hreply : action.reply? rid = some (errand, ok)) (hsubscribes : errand.subscribes = true) :
    (ok = true ∧ line.Performs line' errand) ∨ line'.view = line.view := by
  refine (h.answers hreply).imp_right fun ⟨hholds, sent, _, herrand, hasked⟩ => ?_
  refine Prod.ext hholds (hasked (.inr ?_))
  have hleave : sent.errand ≠ .leave := by
    rintro heq
    rw [← herrand, heq] at hsubscribes
    cases hsubscribes
  simp [Sent.asks, Sent.awaits, hleave]

theorem isStale_of_update {s s' : Store} {n : Nat} {mark : Bool}
    (htally : s'.tally = Function.update s.tally x (n, mark))
    (hmark : mark = s.isStale x ∨ mark = false) (h : s'.isStale rid = true) :
    s.isStale rid = true := by
  by_cases hx : rid = x
  · subst hx
    have hself : s'.isStale rid = mark := congrArg Prod.snd (Store.tally_self htally)
    rcases hmark with rfl | rfl
    · exact hself.symm.trans h
    · cases hself.symm.trans h
  · exact (congrArg Prod.snd (Store.tally_of_ne htally hx)).symm.trans h

theorem isStale_of_tally {s s' : Store} (htally : s'.tally = s.tally)
    (h : s'.isStale rid = true) : s.isStale rid = true :=
  (congrArg Prod.snd (congrFun htally rid)).symm.trans h

theorem Acts.isStale (hacts : w.Acts action err w') (hfair : w.cache.store.Fair)
    (haction : action ≠ .setAllStale) (h : w'.cache.store.isStale rid = true) :
    w.cache.store.isStale rid = true := by
  have hunsubscribe {x : String} (h : (w.cache.unsubscribe x).2.store.isStale rid = true) :
      w.cache.store.isStale rid = true := by
    rcases Cache.unsubscribe_tally hfair x with ⟨_, fault, heq⟩ | ⟨_, _, hfewer⟩ | ⟨_, _, hended⟩
    · rwa [heq] at h
    · exact isStale_of_update hfewer (.inl rfl) h
    · exact isStale_of_update hended (.inr rfl) h
  have hjoin {x : String} {outcome : Outcome Unit}
      (h : (w.cache.join x outcome).2.store.isStale rid = true) :
      w.cache.store.isStale rid = true := by
    rcases w.cache.join_tally x outcome with ⟨hsame, _⟩ | ⟨hcounted, _⟩
    · exact isStale_of_tally hsame h
    · exact isStale_of_update hcounted (.inl rfl) h
  cases hacts with
  | add batch x =>
    rcases Cache.merge_tally hfair batch x 1 with ⟨hsame, _⟩ | hclaimed
    · exact isStale_of_tally hsame h
    · exact isStale_of_update hclaimed (.inr rfl) h
  | resubscribe batch x =>
    rcases Cache.merge_tally hfair batch x 0 with ⟨hsame, _⟩ | hclaimed
    · exact isStale_of_tally hsame h
    · exact isStale_of_update hclaimed (.inr rfl) h
  | event x name data =>
    rcases Cache.handleEvent_tally hfair x name data with hsame | ⟨_, hended⟩
    · exact isStale_of_tally hsame h
    · exact isStale_of_update hended (.inr rfl) h
  | setAllStale => exact absurd rfl haction
  | subscribe x =>
    rcases Cache.subscribe_tally hfair x with ⟨_, _, hcounted⟩ | ⟨_, _, hsame⟩
    · exact isStale_of_update hcounted (.inl rfl) h
    · exact isStale_of_tally hsame h
  | @fetched x t reply _ =>
    rcases Cache.fetched_tally hfair x t reply with ⟨hsame, _⟩ | hcounted
    · exact isStale_of_tally hsame h
    · exact isStale_of_update hcounted (.inr rfl) h
  | join _ _ _ => exact hjoin h
  | refuse _ _ _ => exact hjoin h
  | loaded _ _ => exact h
  | ask _ => exact hunsubscribe h
  | unsubscribe _ => exact hunsubscribe h
  | @released x reply _ =>
    rcases Cache.released_tally hfair x reply with ⟨_, hcounted⟩ | hsame
    · exact isStale_of_update hcounted (.inl rfl) h
    · exact isStale_of_tally hsame h
  | subscribeStale => exact h
  | @resubscribed x reply _ =>
    have htally := Cache.resubscribed_tally hfair x reply
    split at htally
    · exact isStale_of_update htally (.inr rfl) h
    · exact isStale_of_update htally (.inr rfl) h

theorem tally_of_asking (hfair : w.cache.store.Fair)
    (hask : (w.cache.unsubscribe x).1 = .ok .asking) :
    w.cache.store.direct x = 1 ∧ w.cache.store.isStale x = false ∧
      (w.cache.unsubscribe x).2.store.tally =
        Function.update w.cache.store.tally x (0, false) := by
  rcases Cache.unsubscribe_tally hfair x with ⟨_, fault, heq⟩ | ⟨_, hdone, _⟩ |
    ⟨hone, hiff, hended⟩
  · rw [heq] at hask
    cases hask
  · cases hdone.symm.trans hask
  · exact ⟨hone, hiff.mpr hask, hended⟩

/-- What the line tells of the client: the calls it waits for, and that nothing is stale which the
server has been asked to end. -/
structure Follows (w : World) (rid : String) (line : Line) : Prop where
  waiting : ∀ errand, line.countP (Sent.awaits errand) = w.inFlight rid errand
  fresh : ∀ sent ∈ line, sent.asks = true → w.cache.store.isStale rid = false

theorem Talks.asks (h : w.Talks rid action line line') {sent : Sent} (hmem : sent ∈ line')
    (hasks : sent.asks = true) : action ≠ .setAllStale ∧
      (sent ∈ line ∨ action = .unsubscribe rid ∧ (w.cache.unsubscribe rid).1 = .ok .asking) := by
  cases h with
  | cut _ =>
    obtain ⟨before, _, rfl⟩ := List.mem_map.mp hmem
    cases hasks
  | @answer answered later earlier ok hreply _ =>
    refine ⟨fun heq => ?_, ?_⟩
    · subst heq
      cases hreply
    · rcases List.mem_append.mp hmem with hlater | hrest
      · exact .inl (List.mem_append_left _ hlater)
      · rcases List.mem_cons.mp hrest with rfl | hearlier
        · simp [Sent.asks, Sent.awaits, Sent.answered] at hasks
        · exact .inl (List.mem_append_right _ (List.mem_cons_of_mem _ hearlier))
  | post haction _ =>
    refine ⟨haction, ?_⟩
    rcases List.mem_append.mp hmem with hnew | hold
    · exact .inr (asks_of_mem_posted hnew hasks)
    · exact .inl hold

theorem Follows.step (h : w.Follows rid line) (hfair : w.cache.store.Fair)
    (hacts : w.Acts action err w') (htalks : w.Talks rid action line line') :
    w'.Follows rid line' := by
  refine ⟨fun errand => ?_, fun sent hmem hasks => ?_⟩
  · have hline := htalks.countP errand
    have hcalls := hacts.inFlight rid errand
    have hbefore := h.waiting errand
    omega
  · obtain ⟨haction, hold | ⟨hunsubscribe, hask⟩⟩ := htalks.asks hmem hasks
    · rw [← Bool.not_eq_true]
      intro hstale
      have hfresh := h.fresh sent hold hasks
      rw [hacts.isStale hfair haction hstale] at hfresh
      cases hfresh
    · subst hunsubscribe
      have htally := (tally_of_asking hfair hask).2.2
      have hself : (w.cache.unsubscribe rid).2.store.isStale rid = false :=
        congrArg Prod.snd (Store.tally_self htally)
      cases hacts with
      | ask _ => exact hself
      | unsubscribe hnot => exact absurd hask hnot

theorem Follows.exists_talks (h : w.Follows rid line) (hacts : w.Acts action err w') :
    ∃ line', w.Talks rid action line line' := by
  by_cases haction : action = .setAllStale
  · exact ⟨_, .cut haction⟩
  · cases hreply : action.reply? rid with
    | none => exact ⟨_, .post haction hreply⟩
    | some reply =>
      obtain ⟨errand, ok⟩ := reply
      have hreplied : replied rid action errand = 1 := by
        unfold replied
        rw [hreply]
        exact if_pos rfl
      have hposted : w.posted rid action = [] := by
        cases action <;> first | rfl | cases hreply
      have hcalls := hacts.inFlight rid errand
      rw [hreplied, hposted, ← h.waiting errand] at hcalls
      have hpos : 0 < line.countP (Sent.awaits errand) := by
        rw [List.countP_nil] at hcalls
        omega
      obtain ⟨sent, hmem, hawaits⟩ := List.countP_pos_iff.mp hpos
      obtain ⟨later, earlier, rfl⟩ := List.append_of_mem hmem
      simp only [Sent.awaits, Bool.and_eq_true, Option.isNone_iff_eq_none, beq_iff_eq] at hawaits
      obtain ⟨hopen, rfl⟩ := hawaits
      exact ⟨_, .answer hreply hopen⟩

theorem not_counts_of_zero (hzero : w.cache.store.direct rid = 0) : ¬ w.Counts rid :=
  fun hcounts => absurd hcounts.1 (Nat.not_lt.mpr (Nat.le_of_eq hzero))

theorem counts_of_tally (h : w'.cache.store.tally rid = w.cache.store.tally rid) :
    w'.Counts rid ↔ w.Counts rid := by
  have hdirect : w'.cache.store.direct rid = w.cache.store.direct rid := congrArg Prod.fst h
  have hstale : w'.cache.store.isStale rid = w.cache.store.isStale rid := congrArg Prod.snd h
  unfold Counts
  rw [hdirect, hstale]

/-- The agreement ends if the client counts what is not held, or if it neither counts what is held
nor asks for its end. -/
theorem not_agrees_iff : ¬ w.Agrees line rid ↔ w.Counts rid ∧ line.holds = false ∨
    ¬ w.Counts rid ∧ line.holds = true ∧ line.asked = false := by
  unfold Agrees
  cases line.holds <;> cases line.asked <;> by_cases w.Counts rid <;> simp_all

section

variable (h : w.Agrees line rid)
include h

theorem Agrees.keep (hcounts : w'.Counts rid ↔ w.Counts rid) (hview : line'.view = line.view) :
    w'.Agrees line' rid := by
  obtain ⟨hholds, hasked⟩ := Prod.mk.inj hview
  unfold Agrees
  rw [hcounts, hholds, hasked]
  exact h

theorem Agrees.claim {n : Nat}
    (htally : w'.cache.store.tally = w.cache.store.tally ∨ w'.cache.store.tally =
      Function.update w.cache.store.tally x (w.cache.store.direct x + n, false))
    (hview : line'.view = line.view) (hnot : ¬ w'.Agrees line' rid) :
    x = rid ∧ w'.Counts rid ∧ line.holds = false := by
  rcases htally with hsame | hclaimed
  · exact absurd (h.keep (counts_of_tally (congrFun hsame rid)) hview) hnot
  · by_cases hx : x = rid
    · subst hx
      have hdirect := Store.direct_self hclaimed
      have hstale : w'.cache.store.isStale x = false :=
        congrArg Prod.snd (Store.tally_self hclaimed)
      rcases Nat.eq_zero_or_pos (w'.cache.store.direct x) with hzero | hpos
      · refine absurd (h.keep (iff_of_false (fun hcounts => ?_) fun hcounts => ?_) hview) hnot
        · exact absurd hcounts.1 (Nat.not_lt.mpr (Nat.le_of_eq hzero))
        · have hbefore := hcounts.1
          omega
      · refine ⟨rfl, ⟨hpos, hstale⟩, ?_⟩
        rcases not_agrees_iff.mp hnot with ⟨_, hholds⟩ | ⟨hcounts, _⟩
        · rw [← (Prod.mk.inj hview).1]
          exact hholds
        · exact absurd ⟨hpos, hstale⟩ hcounts
    · exact absurd (h.keep (counts_of_tally (Store.tally_of_ne hclaimed (Ne.symm hx))) hview) hnot

theorem Agrees.subscribe (hfair : w.cache.store.Fair)
    (htally : w'.cache.store.tally = w.cache.store.tally ∨ w'.cache.store.tally =
      Function.update w.cache.store.tally x
        (w.cache.store.direct x + 1, w.cache.store.isStale x))
    (hview : line'.view = line.view) (hnot : ¬ w'.Agrees line' rid) :
    x = rid ∧ w.cache.store.direct rid = 0 ∧ line.holds = false := by
  by_cases hmany : x = rid ∧ 0 < w.cache.store.direct rid
  · obtain ⟨rfl, hpos⟩ := hmany
    refine absurd (h.keep ?_ hview) hnot
    rcases htally with hsame | hcounted
    · exact counts_of_tally (congrFun hsame x)
    · have hdirect := Store.direct_self hcounted
      have hstale : w'.cache.store.isStale x = w.cache.store.isStale x :=
        congrArg Prod.snd (Store.tally_self hcounted)
      unfold Counts
      rw [hdirect, hstale]
      exact and_congr_left fun _ => iff_of_true (Nat.succ_pos _) hpos
  · -- what is not subscribed is not stale, so the first subscription is counted as a claim
    by_cases hx : x = rid
    · subst hx
      have hzero : w.cache.store.direct x = 0 :=
        Nat.eq_zero_of_not_pos fun hpos => hmany ⟨rfl, hpos⟩
      rw [hfair x hzero] at htally
      exact ⟨rfl, hzero, (h.claim htally hview hnot).2.2⟩
    · refine absurd (h.keep (counts_of_tally ?_) hview) hnot
      rcases htally with hsame | hcounted
      · exact congrFun hsame rid
      · exact Store.tally_of_ne hcounted (Ne.symm hx)

theorem Agrees.drop (htally : w'.cache.store.tally = w.cache.store.tally ∨
      w'.cache.store.tally = Function.update w.cache.store.tally x (0, false))
    (hview : line'.view = line.view) (hnot : ¬ w'.Agrees line' rid) :
    x = rid ∧ w'.cache.store.direct rid < w.cache.store.direct rid ∧ line.holds = true ∧
      line.asked = false := by
  obtain ⟨hholds, hasked⟩ := Prod.mk.inj hview
  rcases htally with hsame | hended
  · exact absurd (h.keep (counts_of_tally (congrFun hsame rid)) hview) hnot
  · by_cases hx : x = rid
    · subst hx
      have hzero := Store.direct_self hended
      rcases not_agrees_iff.mp hnot with ⟨hcounts, _⟩ | ⟨_, hheld, hquiet⟩
      · exact absurd hcounts.1 (Nat.not_lt.mpr (Nat.le_of_eq hzero))
      · rw [hholds] at hheld
        rw [hasked] at hquiet
        have hcounts : w.Counts x := (h.2 hheld).resolve_right (by rw [hquiet]; exact nofun)
        exact ⟨rfl, hzero ▸ hcounts.1, hheld, hquiet⟩
    · exact absurd (h.keep (counts_of_tally (Store.tally_of_ne hended (Ne.symm hx))) hview) hnot

/-- The reply to a network subscribe ends the agreement if it is not taken over, or too late. -/
theorem Agrees.fetched {shared : Ticket} {reply : Outcome Json} (hfair : w.cache.store.Fair)
    (hacts : w.Acts (.fetched x shared reply) err w')
    (htalks : w.Talks rid (.fetched x shared reply) line line') (hnot : ¬ w'.Agrees line' rid) :
    Exchange.Slips ⟨⟨w, .fetched x shared reply, err, w'⟩, line, line'⟩ rid := by
  cases hacts with
  | fetched _ hmem =>
    have htally := (Cache.fetched_tally hfair x shared reply).imp_left And.left
    by_cases hx : x = rid
    · subst hx
      have hreply : Action.reply? x (.fetched x shared reply) = some (.fetch shared, reply.isOk) :=
        if_pos rfl
      rcases htalks.view_of_answers hreply rfl with ⟨_, hperforms⟩ | hview
      · rcases not_agrees_iff.mp hnot with ⟨_, hheld⟩ | ⟨hcounts, _, hasked⟩
        · cases hperforms.holds.symm.trans hheld
        · exact .uncounted hperforms rfl hcounts hasked
      · obtain ⟨_, hcounts, hheld⟩ := h.claim htally hview hnot
        refine .overtaken hreply rfl (fun hperforms => ?_) hcounts hheld
        cases (hperforms.holds.symm.trans (Prod.mk.inj hview).1).trans hheld
    · have hview := htalks.view_of_posts nofun (if_neg hx) nofun
      exact absurd (h.claim htally hview hnot).1 hx

/-- The answer to a network unsubscribe ends the agreement if the resource is subscribed again, or
if a subscription is restored that the server has ended, or not restored though it has not. -/
theorem Agrees.released {reply : Outcome Unit} (hfair : w.cache.store.Fair)
    (hfollows : w.Follows rid line) (hacts : w.Acts (.released x reply) err w')
    (htalks : w.Talks rid (.released x reply) line line') (hnot : ¬ w'.Agrees line' rid) :
    Exchange.Slips ⟨⟨w, .released x reply, err, w'⟩, line, line'⟩ rid := by
  cases hacts with
  | released _ hmem =>
    by_cases hx : x = rid
    · subst hx
      have hreply : Action.reply? x (.released x reply) = some (.leave, reply.isOk) := if_pos rfl
      cases reply with
      | ok _ =>
        have hcounts : Counts { w with
            cache := (w.cache.released x (.ok ())).2, leaving := w.leaving.erase x } x ↔
            w.Counts x := counts_of_tally (congrFun (Cache.leave_tally hfair x) x)
        rcases htalks.answers hreply with ⟨_, hperforms⟩ | ⟨hholds, _, _, _, hasked⟩
        · rcases not_agrees_iff.mp hnot with ⟨hcounted, _⟩ | ⟨_, hheld, _⟩
          · exact .ended rfl hperforms (hcounts.mp hcounted)
          · cases hperforms.holds.symm.trans hheld
        · exact absurd (h.keep hcounts (Prod.ext hholds (hasked (.inl rfl)))) hnot
      | error fault =>
        obtain ⟨hholds, sent, hmem, _, hasked⟩ := (htalks.answers hreply).resolve_left nofun
        cases he : w.cache.store.get? x with
        | none =>
          have hcounts : ¬ w.Counts x := fun hcounts => by
            have hzero : w.cache.store.direct x = 0 := congrArg Prod.fst (Store.tally_of_none he)
            exact absurd hcounts.1 (Nat.not_lt.mpr (Nat.le_of_eq hzero))
          rcases not_agrees_iff.mp hnot with ⟨hcounted, _⟩ | ⟨_, hheld, hquiet⟩
          · have hsame := congrFun (Cache.lost_tally he fault) x
            exact absurd ((counts_of_tally hsame).mp hcounted) hcounts
          · exact .unrestored rfl he (hholds ▸ hheld) hquiet
        | some e =>
          have hcached : (w.cache.store.get? x).isSome = true :=
            Option.isSome_iff_exists.mpr ⟨e, he⟩
          have htally := Cache.restored_tally hcached fault
          by_cases hasks : sent.asks = false
          · have hview : line'.view = line.view := Prod.ext hholds (hasked (.inr hasks))
            obtain ⟨_, hzero, hheld⟩ := h.subscribe hfair (.inr htally) hview hnot
            exact .restored rfl hzero hcached hheld
          · -- the server is asked to end the subscription, so the resource is not stale
            have hfresh := hfollows.fresh sent hmem (Bool.of_not_eq_false hasks)
            have hcounts : Counts { w with
                cache := (w.cache.released x (.error fault)).2, leaving := w.leaving.erase x } x :=
              ⟨Nat.lt_of_lt_of_eq (Nat.succ_pos _) (Store.direct_self htally).symm,
                (congrArg Prod.snd (Store.tally_self htally)).trans hfresh⟩
            rcases not_agrees_iff.mp hnot with ⟨_, hheld⟩ | ⟨hnone, _⟩
            · rw [hholds] at hheld
              refine .restored rfl (Nat.eq_zero_of_not_pos fun hpos => ?_) hcached hheld
              cases hheld.symm.trans (h.1 ⟨hpos, hfresh⟩)
            · exact absurd hcounts hnone
    · have hview := htalks.view_of_posts nofun (if_neg hx) nofun
      refine absurd (h.subscribe hfair ?_ hview hnot).1 hx
      exact (Cache.released_tally hfair x reply).symm.imp_right And.right

/-- The reply to a resubscription ends the agreement if it cannot be taken over, or should not be,
or comes too late. -/
theorem Agrees.resubscribed {reply : Outcome Json} (hfair : w.cache.store.Fair)
    (hacts : w.Acts (.resubscribed x reply) err w')
    (htalks : w.Talks rid (.resubscribed x reply) line line') (hnot : ¬ w'.Agrees line' rid) :
    Exchange.Slips ⟨⟨w, .resubscribed x reply, err, w'⟩, line, line'⟩ rid := by
  cases hacts with
  | resubscribed _ hmem =>
    have htally := Cache.resubscribed_tally hfair x reply
    by_cases hx : x = rid
    · subst hx
      have hreply : Action.reply? x (.resubscribed x reply) = some (.renew, reply.isOk) :=
        if_pos rfl
      rcases htalks.view_of_answers hreply rfl with ⟨_, hperforms⟩ | hview
      · rcases not_agrees_iff.mp hnot with ⟨_, hheld⟩ | ⟨hcounts, _, hasked⟩
        · cases hperforms.holds.symm.trans hheld
        · exact .uncounted hperforms rfl hcounts hasked
      · split at htally
        · obtain ⟨_, hcounts, hheld⟩ := h.claim (n := 0) (.inr htally) hview hnot
          refine .overtaken hreply rfl (fun hperforms => ?_) hcounts hheld
          cases (hperforms.holds.symm.trans (Prod.mk.inj hview).1).trans hheld
        · obtain ⟨_, hfewer, hheld, hasked⟩ := h.drop (.inr htally) hview hnot
          exact .dropped ⟨hfewer, .inr ⟨reply, rfl⟩⟩ hheld hasked
    · have hview := htalks.view_of_posts nofun (if_neg hx) nofun
      split at htally
      · exact absurd (h.claim (n := 0) (.inr htally) hview hnot).1 hx
      · exact absurd (h.drop (.inr htally) hview hnot).1 hx

/-- To give up a subscription keeps the agreement: the server is asked, or holds none. -/
theorem Agrees.unsubscribe (hfair : w.cache.store.Fair)
    (hacts : w.Acts (.unsubscribe x) err w')
    (htalks : w.Talks rid (.unsubscribe x) line line') : w'.Agrees line' rid := by
  obtain ⟨_, hholds, hasked⟩ := htalks.posts nofun rfl
  cases hacts with
  | ask hask =>
    obtain ⟨_, _, htally⟩ := tally_of_asking hfair hask
    by_cases hx : x = rid
    · subst hx
      have hzero := Store.direct_self htally
      have hposted : (w.posted x (.unsubscribe x) : Line).asked = true := by
        simp only [posted, hask, if_true]
        rfl
      rw [hposted, Bool.true_or] at hasked
      exact ⟨fun hcounts => absurd hcounts.1 (Nat.not_lt.mpr (Nat.le_of_eq hzero)),
        fun _ => .inr hasked⟩
    · have hposted : w.posted rid (.unsubscribe x) = [] := by simp only [posted, hask, if_neg hx]
      rw [hposted] at hasked
      exact h.keep (counts_of_tally (Store.tally_of_ne htally (Ne.symm hx)))
        (Prod.ext hholds hasked)
  | unsubscribe hnot =>
    rw [posted_unsubscribe hnot] at hasked
    have hview : line'.view = line.view := Prod.ext hholds hasked
    rcases Cache.unsubscribe_tally hfair x with ⟨_, fault, heq⟩ | ⟨hmany, _, htally⟩ |
      ⟨_, hiff, htally⟩
    · exact h.keep (counts_of_tally (by rw [heq])) hview
    · by_cases hx : x = rid
      · subst hx
        have hdirect := Store.direct_self htally
        have hstale : (w.cache.unsubscribe x).2.store.isStale x = w.cache.store.isStale x :=
          congrArg Prod.snd (Store.tally_self htally)
        refine h.keep ?_ hview
        unfold Counts
        rw [hdirect, hstale]
        exact and_congr_left fun _ => iff_of_true (Nat.sub_pos_of_lt hmany)
          (Nat.lt_trans Nat.one_pos hmany)
      · exact h.keep (counts_of_tally (Store.tally_of_ne htally (Ne.symm hx))) hview
    · by_cases hx : x = rid
      · -- a stale resource is not counted, neither before nor after
        subst hx
        have hzero := Store.direct_self htally
        refine h.keep (iff_of_false (fun hcounts => ?_) fun hcounts => ?_) hview
        · exact absurd hcounts.1 (Nat.not_lt.mpr (Nat.le_of_eq hzero))
        · exact hnot (hiff.mp hcounts.2)
      · exact h.keep (counts_of_tally (Store.tally_of_ne htally (Ne.symm hx))) hview

theorem Agrees.slips (hfair : w.cache.store.Fair) (hfollows : w.Follows rid line)
    (hacts : w.Acts action err w') (htalks : w.Talks rid action line line')
    (hnot : ¬ w'.Agrees line' rid) : Exchange.Slips ⟨⟨w, action, err, w'⟩, line, line'⟩ rid := by
  have hacts' := hacts
  cases hacts with
  | add batch x =>
    have hview := htalks.view_of_posts nofun rfl nofun
    have htally := (Cache.merge_tally hfair batch x 1).imp_left And.left
    obtain ⟨rfl, hcounts, hheld⟩ := h.claim htally hview hnot
    exact .unasked (.inl rfl) hcounts hheld
  | resubscribe batch x =>
    have hview := htalks.view_of_posts nofun rfl nofun
    have htally := (Cache.merge_tally hfair batch x 0).imp_left And.left
    obtain ⟨rfl, hcounts, hheld⟩ := h.claim htally hview hnot
    exact .unasked (.inr rfl) hcounts hheld
  | event x name data =>
    have hview := htalks.view_of_posts nofun rfl nofun
    have htally := Cache.handleEvent_tally hfair x name data
    obtain ⟨rfl, hfewer, hheld, hasked⟩ := h.drop (htally.imp_right And.right) hview hnot
    rcases htally with hsame | ⟨rfl, _⟩
    · exact absurd (h.keep (counts_of_tally (congrFun hsame x)) hview) hnot
    · exact .dropped ⟨hfewer, .inl ⟨data, rfl⟩⟩ hheld hasked
  | setAllStale =>
    cases htalks with
    | cut _ =>
      obtain ⟨hdirect, hunmarked⟩ := w.cache.setAllStale_unmarked rid
      rcases not_agrees_iff.mp hnot with ⟨⟨hpos, hstale⟩, _⟩ | ⟨_, hheld, _⟩
      · obtain ⟨hfresh, hloaded⟩ := hunmarked.mp hstale
        have hbefore : 0 < w.cache.store.direct rid := Nat.lt_of_lt_of_eq hpos hdirect
        exact .unmarked rfl ⟨hbefore, hfresh⟩ (hloaded hbefore)
      · cases (Prod.mk.inj line.view_cut).1.symm.trans hheld
    | answer hreply _ => cases hreply
    | post haction _ => exact absurd rfl haction
  | subscribe x =>
    have hview := htalks.view_of_posts nofun rfl nofun
    rcases Cache.subscribe_tally hfair x with ⟨hpos, _, hcounted⟩ | ⟨_, _, hsame⟩
    · obtain ⟨rfl, hzero, _⟩ := h.subscribe hfair (.inr hcounted) hview hnot
      omega
    · exact absurd (h.keep (counts_of_tally (congrFun hsame rid)) hview) hnot
  | fetched _ _ => exact h.fetched hfair hacts' htalks hnot
  | @join x t pending outcome hmem houtcome hjoin =>
    have hview := htalks.view_of_posts nofun rfl nofun
    rcases w.cache.join_tally x outcome with ⟨_, fault, hfailed⟩ | ⟨hcounted, _⟩
    · cases hfailed.symm.trans hjoin
    · obtain ⟨rfl, hzero, hheld⟩ := h.subscribe hfair (.inr hcounted) hview hnot
      exact .late rfl hzero ((Store.direct_self hcounted).symm ▸ Nat.succ_pos _) hheld
  | @refuse x t outcome fault hmem houtcome hjoin =>
    have hview := htalks.view_of_posts nofun rfl nofun
    rcases w.cache.join_tally x outcome with ⟨hsame, _⟩ | ⟨_, pending, hcounted⟩
    · exact absurd (h.keep (counts_of_tally (congrFun hsame rid)) hview) hnot
    · cases hcounted.symm.trans hjoin
  | loaded _ _ => exact absurd (h.keep Iff.rfl (htalks.view_of_posts nofun rfl nofun)) hnot
  | ask hask => exact absurd (h.unsubscribe hfair hacts' htalks) hnot
  | unsubscribe _ => exact absurd (h.unsubscribe hfair hacts' htalks) hnot
  | released _ _ => exact h.released hfair hfollows hacts' htalks hnot
  | subscribeStale =>
    have hview := htalks.view_of_posts nofun rfl nofun
    exact absurd (h.keep Iff.rfl hview) hnot
  | resubscribed _ _ => exact h.resubscribed hfair hacts' htalks hnot

end

theorem Acts.zero_of_ends (hacts : w.Acts action err w') (hfair : w.cache.store.Fair)
    (hends : Step.Ends ⟨w, action, err, w'⟩ rid) : w'.cache.store.direct rid = 0 := by
  obtain ⟨hfewer, ⟨data, rfl⟩ | ⟨reply, rfl⟩⟩ := hends
  · cases hacts with
    | event _ _ _ =>
      rcases Cache.handleEvent_tally hfair rid "unsubscribe" data with hsame | ⟨_, hended⟩
      · exact absurd hfewer (Nat.not_lt.mpr (Nat.le_of_eq
          (congrFun (Store.direct_of_tally hsame) rid).symm))
      · exact Store.direct_self hended
  · cases hacts with
    | resubscribed _ _ =>
      have htally := Cache.resubscribed_tally hfair rid reply
      split at htally
      · exact absurd hfewer (Nat.not_lt.mpr (Nat.le_of_eq (Store.direct_self htally).symm))
      · exact Store.direct_self htally

theorem Exchange.Slips.not_agrees (h : Exchange.Slips ⟨⟨w, action, err, w'⟩, line, line'⟩ rid)
    (hfair : w.cache.store.Fair) (hacts : w.Acts action err w')
    (htalks : w.Talks rid action line line') : ¬ w'.Agrees line' rid := by
  rw [not_agrees_iff]
  cases h with
  | uncounted hperforms hsubscribes hcounts hasked =>
    exact .inr ⟨hcounts, hperforms.holds.trans hsubscribes, hasked⟩
  | overtaken hreply hsubscribes hnot hcounts hheld =>
    rcases htalks.view_of_answers hreply hsubscribes with ⟨_, hperforms⟩ | hview
    · exact absurd hperforms hnot
    · exact .inl ⟨hcounts, (Prod.mk.inj hview).1.trans hheld⟩
  | late haction hzero hpos hheld =>
    cases haction
    have hholds := (Prod.mk.inj (htalks.view_of_posts nofun rfl nofun)).1
    refine .inl ⟨⟨hpos, ?_⟩, hholds.trans hheld⟩
    rw [← Bool.not_eq_true]
    intro hstale
    have hbefore := hacts.isStale hfair nofun hstale
    rw [hfair rid hzero] at hbefore
    cases hbefore
  | @restored fault haction hzero hcached hheld =>
    cases haction
    have hreply : Action.reply? rid (.released rid (.error fault)) = some (.leave, false) :=
      if_pos rfl
    obtain ⟨hholds, _⟩ := (htalks.answers hreply).resolve_left nofun
    cases hacts with
    | released _ _ =>
      have htally := Cache.restored_tally hcached fault
      exact .inl ⟨⟨Nat.lt_of_lt_of_eq (Nat.succ_pos _) (Store.direct_self htally).symm,
        (congrArg Prod.snd (Store.tally_self htally)).trans (hfair rid hzero)⟩, hholds.trans hheld⟩
  | unasked haction hcounts hheld =>
    have hview : line'.view = line.view := by
      rcases haction with haction | haction <;> cases haction <;>
        exact htalks.view_of_posts nofun rfl nofun
    exact .inl ⟨hcounts, (Prod.mk.inj hview).1.trans hheld⟩
  | ended haction hperforms hcounts =>
    cases haction
    cases hacts with
    | released _ _ =>
      have hsame := congrFun (Cache.leave_tally hfair rid) rid
      exact .inl ⟨(counts_of_tally hsame).mpr hcounts, hperforms.holds⟩
  | unmarked haction hcounts hloaded =>
    cases haction
    cases hacts with
    | setAllStale =>
      obtain ⟨hdirect, hunmarked⟩ := w.cache.setAllStale_unmarked rid
      cases htalks with
      | cut _ =>
        exact .inl ⟨⟨Nat.lt_of_lt_of_eq hcounts.1 hdirect.symm,
          hunmarked.mpr ⟨hcounts.2, fun _ => hloaded⟩⟩, (Prod.mk.inj line.view_cut).1⟩
      | answer hreply _ => cases hreply
      | post hnot _ => exact absurd rfl hnot
  | dropped hends hheld hasked =>
    refine .inr ⟨not_counts_of_zero (hacts.zero_of_ends hfair hends), ?_⟩
    obtain ⟨_, ⟨data, rfl⟩ | ⟨reply, rfl⟩⟩ := hends
    · obtain ⟨hholds, hsame⟩ := Prod.mk.inj (htalks.view_of_posts nofun rfl nofun)
      exact ⟨hholds.trans hheld, hsame.trans hasked⟩
    · have hreply : Action.reply? rid (.resubscribed rid reply) = some (.renew, reply.isOk) :=
        if_pos rfl
      rcases htalks.view_of_answers hreply rfl with ⟨_, hperforms⟩ | hview
      · exact ⟨hperforms.holds, hperforms.asked hasked⟩
      · obtain ⟨hholds, hsame⟩ := Prod.mk.inj hview
        exact ⟨hholds.trans hheld, hsame.trans hasked⟩
  | @unrestored fault haction hnone hheld hasked =>
    cases haction
    have hreply : Action.reply? rid (.released rid (.error fault)) = some (.leave, false) :=
      if_pos rfl
    obtain ⟨hholds, _⟩ := (htalks.answers hreply).resolve_left nofun
    cases hacts with
    | released _ _ =>
      have hzero : w.cache.store.direct rid = 0 := congrArg Prod.fst (Store.tally_of_none hnone)
      have hsame := congrFun (Store.direct_of_tally (Cache.lost_tally hnone fault)) rid
      exact .inr ⟨not_counts_of_zero (hsame.trans hzero), hholds.trans hheld, hasked⟩

theorem Dialogue.trace {dialogue : List Exchange} (h : Dialogue registry rid dialogue w line) :
    Trace registry (dialogue.map Exchange.step) w := by
  induction h with
  | start => exact .refl
  | step _ hstep _ ih =>
    rw [List.map_append]
    exact ih.next _ hstep

theorem Dialogue.follows {dialogue : List Exchange} (h : Dialogue registry rid dialogue w line) :
    w.Follows rid line := by
  induction h with
  | start => exact ⟨fun errand => by cases errand <;> rfl, fun _ hmem => by cases hmem⟩
  | step hdialogue hstep htalks ih =>
    exact ih.step (Trace.fair hdialogue.trace) (acts_of_perform hstep) htalks

/-- Whatever a cache has been through, a server may have taken part in it. -/
theorem Trace.exists_dialogue {trace : List Step} (h : Trace registry trace w) (rid : String) :
    ∃ dialogue line, dialogue.map Exchange.step = trace ∧
      Dialogue registry rid dialogue w line := by
  unfold Trace at h
  induction h with
  | refl => exact ⟨[], [], rfl, .start⟩
  | step _ hstep ih =>
    obtain ⟨dialogue, line, hsteps, hdialogue⟩ := ih
    obtain ⟨line', htalks⟩ := hdialogue.follows.exists_talks (acts_of_perform hstep)
    exact ⟨_, line', by rw [List.map_append, hsteps]; rfl, hdialogue.step hstep htalks⟩

/-- The agreement holds after every step exactly if no step slips. -/
theorem Dialogue.agrees_iff {dialogue : List Exchange}
    (h : Dialogue registry rid dialogue w line) :
    ((∀ e ∈ dialogue, e.step.after.Agrees e.line' rid) ↔ ∀ e ∈ dialogue, ¬ e.Slips rid) ∧
      ((∀ e ∈ dialogue, ¬ e.Slips rid) → w.Agrees line rid) := by
  induction h with
  | start =>
    have hzero : (World.start registry).cache.store.direct rid = 0 := rfl
    have hnone {p : Exchange → Prop} : ∀ e ∈ [], p e := fun _ hmem => absurd hmem List.not_mem_nil
    refine ⟨iff_of_true hnone hnone, fun _ => ?_⟩
    exact ⟨fun hcounts => absurd hcounts (not_counts_of_zero hzero), fun hheld => by cases hheld⟩
  | @step dialogue w w' line line' action err hdialogue hstep htalks ih =>
    obtain ⟨hiff, hlast⟩ := ih
    have hacts := acts_of_perform hstep
    have hfair := Trace.fair hdialogue.trace
    have hnew (hagrees : w.Agrees line rid) : w'.Agrees line' rid ↔
        ¬ Exchange.Slips ⟨⟨w, action, err, w'⟩, line, line'⟩ rid :=
      ⟨fun hafter hslips => hslips.not_agrees hfair hacts htalks hafter, fun hnot =>
        not_not.mp fun hafter => hnot (hagrees.slips hfair hdialogue.follows hacts htalks hafter)⟩
    simp only [List.forall_mem_append, List.forall_mem_singleton]
    refine ⟨?_, fun ⟨hpast, hnot⟩ => (hnew (hlast hpast)).mpr hnot⟩
    rw [hiff]
    exact and_congr_right fun hpast => hnew (hlast hpast)

/-- No network call for the resource is unanswered, no caller waits for it, and it is not stale. -/
def Calm (w : World) (rid : String) : Prop :=
  (∀ call ∈ w.callers, call.rid ≠ rid) ∧ rid ∉ w.leaving ∧ rid ∉ w.resubscribing ∧
    w.cache.store.isStale rid = false

theorem Calm.answered (h : w.Calm rid) (hfollows : w.Follows rid line) :
    ∀ sent ∈ line, sent.answer.isSome = true := by
  obtain ⟨hcallers, hleaving, hresubscribing, _⟩ := h
  have hzero (errand : Errand) : w.inFlight rid errand = 0 := by
    cases errand with
    | fetch t => exact List.count_eq_zero.mpr fun hmem => hcallers _ hmem rfl
    | renew => exact List.count_eq_zero.mpr hresubscribing
    | leave => exact List.count_eq_zero.mpr hleaving
  intro sent hmem
  have hnone := (hfollows.waiting sent.errand).trans (hzero sent.errand)
  have hawaits := List.countP_eq_zero.mp hnone sent hmem
  rw [Option.isSome_iff_ne_none]
  intro hopen
  simp [Sent.awaits, hopen] at hawaits

theorem Calm.agrees_iff (h : w.Calm rid) (hfollows : w.Follows rid line) :
    w.Agrees line rid ↔ (line.holds = true ↔ 0 < w.cache.store.direct rid) := by
  have hasked : line.asked = false := Line.asked_eq_false fun sent hmem => by
    have hanswered := h.answered hfollows sent hmem
    simp [Sent.asks, Sent.awaits, Option.isNone_eq_false_iff.mpr hanswered]
  unfold Agrees Counts
  rw [hasked, h.2.2.2]
  constructor
  · rintro ⟨hholds, hcounts⟩
    exact ⟨fun hheld => ((hcounts hheld).resolve_right nofun).1, fun hpos => hholds ⟨hpos, rfl⟩⟩
  · intro hiff
    exact ⟨fun hcounts => hiff.mpr hcounts.1, fun hheld => .inl ⟨hiff.mp hheld, rfl⟩⟩

/-- Whatever a cache has been through, a server may have taken part in it. What the client counts
the server holds, and what the server holds the client counts or has asked it to end, after every
step exactly if no step is a slip. When all is calm this agreement says that the server holds a
subscription exactly if the client counts one. -/
theorem holds_iff_subscribed {trace : List Step} (h : Trace registry trace w) (rid : String) :
    (∃ dialogue line, dialogue.map Exchange.step = trace ∧
      Dialogue registry rid dialogue w line) ∧
    ∀ dialogue line, Dialogue registry rid dialogue w line →
      ((∀ e ∈ dialogue, e.step.after.Agrees e.line' rid) ↔ ∀ e ∈ dialogue, ¬ e.Slips rid) ∧
      (w.Calm rid → (∀ sent ∈ line, sent.answer.isSome = true) ∧
        (w.Agrees line rid ↔ (line.holds = true ↔ 0 < w.cache.store.direct rid)) ∧
        ((∀ e ∈ dialogue, ¬ e.Slips rid) →
          (line.holds = true ↔ 0 < w.cache.store.direct rid))) := by
  refine ⟨h.exists_dialogue rid, fun dialogue line hdialogue => ?_⟩
  obtain ⟨hiff, hlast⟩ := hdialogue.agrees_iff
  refine ⟨hiff, fun hcalm => ?_⟩
  have hagrees := hcalm.agrees_iff hdialogue.follows
  exact ⟨hcalm.answered hdialogue.follows, hagrees, fun hnot => hagrees.mp (hlast hnot)⟩

def obtained : World := { awaiting with
  cache := (awaiting.cache.fetched "m" 1 (.ok loneSnapshot)).2
  callers := [] }

def cutOff : World := { obtained with cache := obtained.cache.setAllStale.2 }

def renewing : World := { cutOff with resubscribing := cutOff.cache.store.staleRids }

def forsaken : World := { renewing with cache := (renewing.cache.unsubscribe "m").2 }

def upheld : World := { forsaken with
  cache := forsaken.cache.resubscribed "m" (.ok loneSnapshot)
  resubscribing := [] }

def opening : Sent := .fresh (.fetch 1)

def renewal : Sent := .fresh .renew

def upheldExchange : Exchange :=
  ⟨⟨forsaken, .resubscribed "m" (.ok loneSnapshot), none, upheld⟩,
    [renewal, (opening.answered true).cut], [renewal.answered true, (opening.answered true).cut]⟩

def beforeUpheld : List Exchange :=
  [⟨⟨start .empty, .subscribe "m", none, awaiting⟩, [], [opening]⟩,
    ⟨⟨awaiting, .fetched "m" 1 (.ok loneSnapshot), none, obtained⟩, [opening],
      [opening.answered true]⟩,
    ⟨⟨obtained, .setAllStale, none, cutOff⟩, [opening.answered true],
      [(opening.answered true).cut]⟩,
    ⟨⟨cutOff, .subscribeStale, none, renewing⟩, [(opening.answered true).cut],
      [renewal, (opening.answered true).cut]⟩,
    ⟨⟨renewing, .unsubscribe "m", none, forsaken⟩, [renewal, (opening.answered true).cut],
      [renewal, (opening.answered true).cut]⟩]

theorem Dialogue.next {dialogue : List Exchange} (h : Dialogue registry rid dialogue w line)
    (action : Action) (hstep : w.perform action = some (err, w'))
    (htalks : w.Talks rid action line line') :
    Dialogue registry rid (dialogue ++ [⟨⟨w, action, err, w'⟩, line, line'⟩]) w' line' :=
  .step h hstep htalks

theorem perform_unsubscribe (hnot : (w.cache.unsubscribe x).1 ≠ .ok .asking) :
    w.perform (.unsubscribe x) = some (none, { w with cache := (w.cache.unsubscribe x).2 }) := by
  simp only [perform]

theorem dialogue_renewing : Dialogue .empty "m" (beforeUpheld.take 4) renewing
    [renewal, (opening.answered true).cut] := by
  have hawaiting : Dialogue .empty "m" _ awaiting [opening] :=
    .next .start (.subscribe "m") rfl (.post nofun rfl)
  have hserved : Dialogue .empty "m" _ obtained [opening.answered true] :=
    .next hawaiting (.fetched "m" 1 (.ok loneSnapshot)) rfl
      (@Talks.answer _ _ _ opening [] [] true rfl rfl)
  have hcutOff : Dialogue .empty "m" _ cutOff [(opening.answered true).cut] :=
    .next hserved .setAllStale rfl (.cut rfl)
  exact .next hcutOff .subscribeStale rfl (.post nofun rfl)

theorem tally_renewing : renewing.cache.store.tally "m" = (1, true) := by rfl

theorem forsaken_not_asking : (renewing.cache.unsubscribe "m").1 ≠ .ok .asking ∧
    forsaken.cache.store.tally "m" = (0, false) := by
  have hfair := Trace.fair dialogue_renewing.trace
  have hdirect : renewing.cache.store.direct "m" = 1 := congrArg Prod.fst tally_renewing
  have hstale : renewing.cache.store.isStale "m" = true := congrArg Prod.snd tally_renewing
  rcases Cache.unsubscribe_tally hfair "m" with ⟨hzero, _⟩ | ⟨hmany, _⟩ | ⟨_, hiff, htally⟩
  · omega
  · omega
  · refine ⟨fun hask => ?_, Store.tally_self htally⟩
    cases hstale.symm.trans (hiff.mpr hask)

theorem dialogue_forsaken : Dialogue .empty "m" beforeUpheld forsaken
    [renewal, (opening.answered true).cut] := by
  have hnot := forsaken_not_asking.1
  refine dialogue_renewing.next (.unsubscribe "m") (perform_unsubscribe hnot) ?_
  have hpost := @Talks.post renewing "m" (.unsubscribe "m") [renewal, (opening.answered true).cut]
    nofun rfl
  rwa [posted_unsubscribe hnot] at hpost

theorem dialogue_upheld : Dialogue .empty "m" (beforeUpheld ++ [upheldExchange]) upheld
    [renewal.answered true, (opening.answered true).cut] :=
  dialogue_forsaken.next (.resubscribed "m" (.ok loneSnapshot)) rfl
    (@Talks.answer _ _ _ renewal [] [(opening.answered true).cut] true rfl rfl)

theorem direct_upheld : upheld.cache.store.direct "m" = 0 := by
  have hfair := Trace.fair dialogue_forsaken.trace
  have hbefore : forsaken.cache.store.direct "m" = 0 := congrArg Prod.fst forsaken_not_asking.2
  have htally := Cache.resubscribed_tally hfair "m" (.ok loneSnapshot)
  rw [hbefore, ite_self] at htally
  exact Store.direct_self htally

/-- All is calm, and the server holds a subscription that the client does not count. -/
theorem holds_iff_subscribed_upheld : upheld.Calm "m" ∧
    Line.holds [renewal.answered true, (opening.answered true).cut] = true ∧
    upheld.cache.store.direct "m" = 0 ∧
    ¬ ∀ e ∈ beforeUpheld ++ [upheldExchange], ¬ e.Slips "m" := by
  have hfresh := Trace.fair dialogue_upheld.trace "m" direct_upheld
  have hcalm : upheld.Calm "m" := ⟨nofun, nofun, nofun, hfresh⟩
  refine ⟨hcalm, rfl, direct_upheld, fun hnot => ?_⟩
  obtain ⟨_, hall⟩ := holds_iff_subscribed dialogue_upheld.trace "m"
  obtain ⟨_, _, hheld⟩ := (hall _ _ dialogue_upheld).2 hcalm
  have hpos := (hheld hnot).mp rfl
  rw [direct_upheld] at hpos
  cases hpos

end World

end LiveResource
