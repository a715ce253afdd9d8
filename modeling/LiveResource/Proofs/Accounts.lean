import LiveResource.Proofs.Fetches
import LiveResource.Proofs.Traces

set_option autoImplicit false

/-!
# The account of subscriptions

Whoever has been served holds a subscription until it gives it up. Those who wait for first contents
are counted before they are served, and those who give up a last subscription are not counted while
the server is asked. Apart from these, a resource has as many subscriptions as have been taken and
not given up, and one more or less for each call that has failed and yet counted.
-/

namespace LiveResource

def Call.loads (rid : String) : Call → Bool
  | .loading x _ => x == rid
  | _ => false

def Call.rid : Call → String
  | .fetching rid _ => rid
  | .joined rid _ => rid
  | .loading rid _ => rid

def Action.rid? : Action → Option String
  | .add _ rid => some rid
  | .fetched rid _ _ => some rid
  | .join rid _ => some rid
  | .loaded rid _ => some rid
  | .unsubscribe rid => some rid
  | .released rid _ => some rid
  | _ => none

namespace World

variable {registry : Registry} {w w' : World} {action : Action} {err : Option CacheError}
  {rid x : String} {trace : List Step} {step : Step}

def farewell? (w : World) : Action → Option (Outcome Unit)
  | .unsubscribe rid =>
    match (w.cache.unsubscribe rid).1 with
    | .ok .asking => none
    | .ok .done => some (.ok ())
    | .error fault => some (.error fault)
  | .released rid reply => some (w.cache.released rid reply).1
  | _ => none

def loads (w : World) (rid : String) : Nat := w.callers.countP (Call.loads rid)

/-- The subscriptions held by callers who have been served and have not given them up. -/
def held (w : World) (rid : String) : Int :=
  w.cache.store.direct rid + w.leaving.count rid - w.loads rid

def Step.subscribed? (step : Step) (rid : String) : Option (Outcome Handle) :=
  if step.action.rid? = some rid then step.answer? else none

def Step.unsubscribed? (step : Step) (rid : String) : Option (Outcome Unit) :=
  if step.action.rid? = some rid then step.before.farewell? step.action else none

/-- A caller is told that it has subscribed. -/
def Step.gains (rid : String) (step : Step) : Bool := (step.subscribed? rid).any (·.isOk)

/-- A caller is told that it has unsubscribed. -/
def Step.yields (rid : String) (step : Step) : Bool := (step.unsubscribed? rid).any (·.isOk)

/-- A caller is told that it could not subscribe, and yet it is counted. -/
def Step.strays (rid : String) (step : Step) : Bool :=
  (step.subscribed? rid).any (!·.isOk) && step.before.held rid < step.after.held rid

/-- A caller is told that it could not unsubscribe, and yet it is not counted any more. -/
def Step.loses (rid : String) (step : Step) : Bool :=
  (step.unsubscribed? rid).any (!·.isOk) && step.after.held rid < step.before.held rid

/-- The server ends the subscriptions of the resource, or they could not be renewed. -/
def Step.Ends (step : Step) (rid : String) : Prop :=
  step.after.cache.store.direct rid < step.before.cache.store.direct rid ∧
    ((∃ data, step.action = .event rid "unsubscribe" data) ∨
      ∃ reply, step.action = .resubscribed rid reply)

def share (x rid : String) : Nat := if x = rid then 1 else 0

theorem share_self (rid : String) : share rid rid = 1 := if_pos rfl

theorem share_of_ne (hx : x ≠ rid) : share x rid = 0 := if_neg hx

inductive Step.Books (step : Step) (rid : String) : Prop
  | gain {handle : Handle} : step.subscribed? rid = some (.ok handle) →
    step.unsubscribed? rid = none → step.after.held rid = step.before.held rid + 1 → Books step rid
  | refusal {fault : Fault} : step.subscribed? rid = some (.error fault) →
    step.unsubscribed? rid = none → (step.after.held rid = step.before.held rid ∨
      step.after.held rid = step.before.held rid + 1) → Books step rid
  | yield : step.subscribed? rid = none → step.unsubscribed? rid = some (.ok ()) →
    step.after.held rid = step.before.held rid - 1 → Books step rid
  | failure {fault : Fault} : step.subscribed? rid = none →
    step.unsubscribed? rid = some (.error fault) → (step.after.held rid = step.before.held rid ∨
      step.after.held rid = step.before.held rid - 1) → Books step rid
  | nothing : step.subscribed? rid = none → step.unsubscribed? rid = none →
    step.after.held rid = step.before.held rid → Books step rid

theorem Step.Books.of_ne (haction : step.action.rid? ≠ some rid)
    (hheld : step.after.held rid = step.before.held rid) : step.Books rid :=
  .nothing (if_neg haction) (if_neg haction) hheld

theorem Step.Books.of_none (haction : step.action.rid? = none)
    (hheld : step.after.held rid = step.before.held rid) : step.Books rid :=
  .of_ne (fun heq => by cases haction.symm.trans heq) hheld

theorem held_congr (hdirect : w'.cache.store.direct rid = w.cache.store.direct rid)
    (hleaving : w'.leaving = w.leaving) (hloads : w'.loads rid = w.loads rid) :
    w'.held rid = w.held rid := by
  unfold held
  rw [hdirect, hleaving, hloads]

theorem direct_of_marked {s s' : Store} {mark : Bool}
    (htally : s'.tally = Function.update s.tally x (s.direct x, mark)) : s'.direct = s.direct := by
  rw [Store.direct_of_update htally, Function.update_eq_self]

theorem direct_of_ended {s s' : Store} (htally : s'.tally = Function.update s.tally x (0, false))
    (hends : ¬ (x = rid ∧ s'.direct rid < s.direct rid)) : s'.direct rid = s.direct rid := by
  by_cases hx : x = rid
  · subst hx
    have hzero := Store.direct_self htally
    have hnot := not_and.mp hends rfl
    omega
  · exact congrArg Prod.fst (Store.tally_of_ne htally (Ne.symm hx))

theorem loads_loading (x : String) (pending : Ticket) :
    (if (Call.loading x pending).loads rid = true then 1 else 0) = share x rid := by
  simp only [share, Call.loads, beq_iff_eq]

theorem countP_loading (rid x : String) (callers : List Call) (pending : Ticket) :
    (callers ++ [Call.loading x pending]).countP (Call.loads rid) =
      callers.countP (Call.loads rid) + share x rid := by
  rw [List.countP_append, List.countP_singleton, loads_loading]

theorem countP_erase_waiting {callers : List Call} {call : Call} (hmem : call ∈ callers)
    (hcall : call.loads rid = false) :
    (callers.erase call).countP (Call.loads rid) = callers.countP (Call.loads rid) := by
  rw [(List.perm_cons_erase hmem).countP_eq, List.countP_cons, hcall]
  rfl

theorem countP_erase_loading (rid : String) {callers : List Call} {pending : Ticket}
    (hmem : .loading x pending ∈ callers) :
    (callers.erase (.loading x pending)).countP (Call.loads rid) + share x rid =
      callers.countP (Call.loads rid) := by
  rw [(List.perm_cons_erase hmem).countP_eq, List.countP_cons, loads_loading]

theorem direct_counted (rid : String) {s s' : Store}
    (hdirect : s'.direct = Function.update s.direct x (s.direct x + 1)) :
    s'.direct rid = s.direct rid + share x rid := by
  rw [hdirect]
  by_cases hx : x = rid
  · subst hx
    rw [Function.update_self, share_self]
  · rw [Function.update_of_ne (Ne.symm hx), share_of_ne hx]
    rfl

theorem counted_held {mark : Bool} (htally : w'.cache.store.tally =
      Function.update w.cache.store.tally x (w.cache.store.direct x + 1, mark))
    (hloads : w'.loads rid = w.loads rid) (hleaving : w'.leaving = w.leaving) :
    w'.held rid = w.held rid + share x rid := by
  have hcounted := direct_counted rid (Store.direct_of_update htally)
  unfold held
  rw [hcounted, hloads, hleaving]
  push_cast
  omega

theorem held_of_waiting {callers : List Call} {pending : Ticket}
    (hdirect : w'.cache.store.direct =
      Function.update w.cache.store.direct x (w.cache.store.direct x + 1))
    (hcallers : w'.callers = callers ++ [.loading x pending])
    (hloads : callers.countP (Call.loads rid) = w.loads rid)
    (hleaving : w'.leaving = w.leaving) : w'.held rid = w.held rid := by
  have hcounted := direct_counted rid hdirect
  have hwaits := countP_loading rid x callers pending
  rw [← hcallers, hloads] at hwaits
  unfold held
  change ((w'.cache.store.direct rid : Nat) : Int) + _ - (w'.callers.countP _ : Nat) = _
  rw [hcounted, hwaits, hleaving]
  push_cast
  omega

theorem subscribe_held (hfair : w.cache.store.Fair) (x : String) : held { w with
    cache := (w.cache.subscribe x).2, callers := w.callers ++ [(w.cache.subscribe x).1] } rid =
      w.held rid := by
  rcases Cache.subscribe_tally hfair x with ⟨_, ⟨pending, hcall⟩, hcounted⟩ | ⟨_, hwaits, hsame⟩
  · refine held_of_waiting (Store.direct_of_update hcounted)
      (congrArg (fun call => w.callers ++ [call]) hcall) rfl rfl
  · refine held_congr (congrFun (Store.direct_of_tally hsame) rid) rfl ?_
    unfold loads
    rw [List.countP_append, List.countP_singleton]
    rcases hwaits with ⟨shared, hcall | hcall⟩ <;> rw [hcall] <;> rfl

theorem join_held {shared pending : Ticket} {outcome : Outcome Unit}
    (hmem : .joined x shared ∈ w.callers) (hjoin : (w.cache.join x outcome).1 = .ok pending) :
    held { w with
      cache := (w.cache.join x outcome).2
      callers := w.callers.erase (.joined x shared) ++ [.loading x pending] } rid =
      w.held rid := by
  rcases w.cache.join_tally x outcome with ⟨_, fault, hfailed⟩ | ⟨hcounted, _⟩
  · cases hfailed.symm.trans hjoin
  · exact held_of_waiting (x := x) (Store.direct_of_update hcounted) rfl
      (countP_erase_waiting hmem rfl) rfl

theorem refuse_held {shared : Ticket} {outcome : Outcome Unit} {fault : Fault}
    (hmem : .joined x shared ∈ w.callers) (hjoin : (w.cache.join x outcome).1 = .error fault) :
    held { w with
      cache := (w.cache.join x outcome).2, callers := w.callers.erase (.joined x shared) } rid =
      w.held rid := by
  rcases w.cache.join_tally x outcome with ⟨hsame, _⟩ | ⟨_, pending, hcounted⟩
  · exact held_congr (congrFun (Store.direct_of_tally hsame) rid) rfl (countP_erase_waiting hmem rfl)
  · cases hcounted.symm.trans hjoin

theorem loaded_held {pending : Ticket} (hmem : .loading x pending ∈ w.callers) :
    held { w with callers := w.callers.erase (.loading x pending) } rid =
      w.held rid + share x rid := by
  have hfewer := countP_erase_loading rid hmem
  unfold held loads
  dsimp only
  omega

theorem ask_held (hdirect : w.cache.store.direct x = 1)
    (htally : w'.cache.store.tally = Function.update w.cache.store.tally x (0, false))
    (hleaving : w'.leaving = x :: w.leaving) (hcallers : w'.callers = w.callers) :
    w'.held rid = w.held rid := by
  unfold held loads
  rw [Store.direct_of_update htally, hleaving, hcallers, List.count_cons]
  by_cases hx : x = rid
  · subst hx
    rw [Function.update_self, hdirect, if_pos (beq_self_eq_true x)]
    omega
  · rw [Function.update_of_ne (Ne.symm hx), if_neg (by rw [beq_iff_eq]; exact hx)]
    rfl

theorem unsubscribe_held {mark : Bool} (hpos : 0 < w.cache.store.direct x)
    (htally : w'.cache.store.tally =
      Function.update w.cache.store.tally x (w.cache.store.direct x - 1, mark))
    (hleaving : w'.leaving = w.leaving) (hcallers : w'.callers = w.callers) :
    w'.held rid = w.held rid - share x rid := by
  unfold held loads
  rw [Store.direct_of_update htally, hleaving, hcallers]
  by_cases hx : x = rid
  · subst hx
    rw [Function.update_self, share_self]
    omega
  · rw [Function.update_of_ne (Ne.symm hx), share_of_ne hx]
    omega

theorem count_erase_leaving (rid : String) (hmem : x ∈ w.leaving) :
    (w.leaving.erase x).count rid + share x rid = w.leaving.count rid := by
  rw [(List.perm_cons_erase hmem).count_eq, List.count_cons]
  simp only [share, beq_iff_eq]

theorem left_held (hmem : x ∈ w.leaving) (htally : w'.cache.store.tally = w.cache.store.tally)
    (hleaving : w'.leaving = w.leaving.erase x) (hcallers : w'.callers = w.callers) :
    w'.held rid = w.held rid - share x rid := by
  have hfewer := count_erase_leaving rid hmem
  unfold held loads
  rw [Store.direct_of_tally htally, hleaving, hcallers]
  omega

theorem restored_held {mark : Bool} (hmem : x ∈ w.leaving)
    (htally : w'.cache.store.tally =
      Function.update w.cache.store.tally x (w.cache.store.direct x + 1, mark))
    (hleaving : w'.leaving = w.leaving.erase x) (hcallers : w'.callers = w.callers) :
    w'.held rid = w.held rid := by
  have hfewer := count_erase_leaving rid hmem
  have hcounted := direct_counted rid (Store.direct_of_update htally)
  unfold held loads
  rw [hcounted, hleaving, hcallers]
  omega

theorem Step.Books.of_held (hsub : step.action.rid? = some rid → step.answer? = none)
    (hunsub : step.action.rid? = some rid → step.before.farewell? step.action = none)
    (hheld : step.after.held rid = step.before.held rid) : step.Books rid :=
  .nothing (ite_eq_right_iff.mpr hsub) (ite_eq_right_iff.mpr hunsub) hheld

section

variable {fault : Fault} (haction : step.action.rid? = some x)
include haction

theorem Step.Books.of_service {result : Outcome Handle} (hanswer : step.answer? = some result)
    (hfarewell : step.before.farewell? step.action = none)
    (hheld : step.after.held rid = step.before.held rid + share x rid) :
    step.Books rid := by
  by_cases hx : x = rid
  · subst hx
    rw [share_self] at hheld
    have hsub : step.subscribed? x = some result := (if_pos haction).trans hanswer
    have hunsub : step.unsubscribed? x = none := (if_pos haction).trans hfarewell
    cases result with
    | ok handle => exact .gain hsub hunsub hheld
    | error fault => exact .refusal hsub hunsub (.inr hheld)
  · rw [share_of_ne hx, Int.natCast_zero, Int.add_zero] at hheld
    exact .of_ne (by rw [haction, Option.some_inj.ne]; exact hx) hheld

theorem Step.Books.of_refusal (hanswer : step.answer? = some (.error fault))
    (hfarewell : step.before.farewell? step.action = none)
    (hheld : step.after.held rid = step.before.held rid) : step.Books rid := by
  by_cases hx : x = rid
  · subst hx
    exact .refusal ((if_pos haction).trans hanswer) ((if_pos haction).trans hfarewell) (.inl hheld)
  · exact .of_ne (by rw [haction, Option.some_inj.ne]; exact hx) hheld

theorem Step.Books.of_farewell {result : Outcome Unit} (hanswer : step.answer? = none)
    (hfarewell : step.before.farewell? step.action = some result)
    (hheld : step.after.held rid = step.before.held rid - share x rid) :
    step.Books rid := by
  by_cases hx : x = rid
  · subst hx
    rw [share_self] at hheld
    have hsub : step.subscribed? x = none := (if_pos haction).trans hanswer
    have hunsub : step.unsubscribed? x = some result := (if_pos haction).trans hfarewell
    cases result with
    | ok _ => exact .yield hsub hunsub hheld
    | error fault => exact .failure hsub hunsub (.inr hheld)
  · rw [share_of_ne hx, Int.natCast_zero, Int.sub_zero] at hheld
    exact .of_ne (by rw [haction, Option.some_inj.ne]; exact hx) hheld

theorem Step.Books.of_failure (hanswer : step.answer? = none)
    (hfarewell : step.before.farewell? step.action = some (.error fault))
    (hheld : step.after.held rid = step.before.held rid) : step.Books rid := by
  by_cases hx : x = rid
  · subst hx
    exact .failure ((if_pos haction).trans hanswer) ((if_pos haction).trans hfarewell) (.inl hheld)
  · exact .of_ne (by rw [haction, Option.some_inj.ne]; exact hx) hheld

theorem Step.Books.of_result {result : Outcome Handle} (hanswer : step.answer? = some result)
    (hfarewell : step.before.farewell? step.action = none)
    (hloads : step.after.loads rid = step.before.loads rid)
    (hleaving : step.after.leaving = step.before.leaving)
    (htally : (step.after.cache.store.tally = step.before.cache.store.tally ∧
        ∃ fault, result = .error fault) ∨
      step.after.cache.store.tally = Function.update step.before.cache.store.tally x
        (step.before.cache.store.direct x + 1, false)) : step.Books rid := by
  rcases htally with ⟨hsame, fault, rfl⟩ | hcounted
  · have hdirect := congrFun (Store.direct_of_tally hsame) rid
    exact .of_refusal haction hanswer hfarewell (held_congr hdirect hleaving hloads)
  · exact .of_service haction hanswer hfarewell (counted_held hcounted hloads hleaving)

end

theorem farewell_unsubscribe {result : Outcome Unit}
    (hresult : (w.cache.unsubscribe x).1 = result.map fun _ => .done) :
    w.farewell? (.unsubscribe x) = some result := by
  cases result <;> simp only [farewell?, hresult] <;> rfl

theorem Step.Books.of_unsubscribe (hfair : w.cache.store.Fair)
    (hnot : (w.cache.unsubscribe x).1 ≠ .ok .asking) : Step.Books
      ⟨w, .unsubscribe x, err, { w with cache := (w.cache.unsubscribe x).2 }⟩ rid := by
  obtain ⟨result, hresult⟩ :
      ∃ result : Outcome Unit, (w.cache.unsubscribe x).1 = result.map fun _ => .done := by
    cases hcases : (w.cache.unsubscribe x).1 with
    | error fault => exact ⟨.error fault, rfl⟩
    | ok leaving =>
      cases leaving with
      | asking => exact absurd hcases hnot
      | done => exact ⟨.ok (), rfl⟩
  have hfarewell := farewell_unsubscribe hresult
  rcases Cache.unsubscribe_tally hfair x with ⟨_, fault, heq⟩ | ⟨hmany, _, htally⟩ |
    ⟨hone, _, htally⟩
  · have hfailed : w.farewell? (.unsubscribe x) = some (.error fault) :=
      farewell_unsubscribe (by rw [heq]; rfl)
    exact .of_failure rfl rfl hfailed (held_congr (by rw [heq]) rfl rfl)
  · exact .of_farewell rfl rfl hfarewell
      (unsubscribe_held (Nat.lt_trans Nat.one_pos hmany) htally rfl rfl)
  · -- the last one is given up at once if the resource awaits resubscription
    rw [show (0, false) = (w.cache.store.direct x - 1, false) by rw [hone]] at htally
    exact .of_farewell rfl rfl hfarewell (unsubscribe_held (hone ▸ Nat.one_pos) htally rfl rfl)

theorem Acts.books (hacts : w.Acts action err w') (hfair : w.cache.store.Fair)
    (hends : ¬ Step.Ends ⟨w, action, err, w'⟩ rid) : Step.Books ⟨w, action, err, w'⟩ rid := by
  cases hacts with
  | add batch x =>
    refine .of_result (x := x) rfl rfl rfl rfl rfl ?_
    rcases Cache.merge_tally hfair batch x 1 with ⟨hsame, error, herr⟩ | hcounted
    · refine .inl ⟨hsame, error.toFault, ?_⟩
      change ((w.cache.merge batch x 1).1.mapError _) = _
      rw [herr]
      rfl
    · exact .inr hcounted
  | resubscribe batch x =>
    refine .of_none rfl (held_congr (congrFun ?_ rid) rfl rfl)
    rcases Cache.merge_tally hfair batch x 0 with ⟨hsame, _⟩ | hmarked
    · exact Store.direct_of_tally hsame
    · exact direct_of_marked hmarked
  | event x name data =>
    refine .of_none rfl (held_congr ?_ rfl rfl)
    rcases Cache.handleEvent_tally hfair x name data with hsame | ⟨rfl, hended⟩
    · exact congrFun (Store.direct_of_tally hsame) rid
    · refine direct_of_ended hended fun hfewer => hends ⟨hfewer.2, .inl ⟨data, ?_⟩⟩
      rw [hfewer.1]
  | setAllStale =>
    exact .of_none rfl (held_congr (congrArg Prod.fst (w.cache.setAllStale_tally rid)) rfl rfl)
  | subscribe x => exact .of_none rfl (subscribe_held hfair x)
  | @fetched x t reply hmem =>
    exact .of_result (x := x) rfl rfl rfl (countP_erase_waiting hmem rfl) rfl
      (Cache.fetched_tally hfair x t reply)
  | @join x t pending outcome hmem houtcome hjoin =>
    have hanswer : w.answer? (.join x t) = none := by rw [answer_join houtcome, hjoin]
    exact .of_held (fun _ => hanswer) (fun _ => rfl) (join_held hmem hjoin)
  | @refuse x t outcome fault hmem houtcome hjoin =>
    have hanswer : w.answer? (.join x t) = some (.error fault) := by
      rw [answer_join houtcome, hjoin]
    exact .of_refusal rfl hanswer rfl (refuse_held hmem hjoin)
  | @loaded x pending outcome hmem houtcome =>
    have hanswer : w.answer? (.loaded x pending) = some (w.cache.loaded x outcome) := by
      simp only [answer?, houtcome, Option.map_some]
    exact .of_service rfl hanswer rfl (loaded_held hmem)
  | @ask x hask =>
    have hfarewell : w.farewell? (.unsubscribe x) = none := by simp only [farewell?, hask]
    refine .of_held (fun _ => rfl) (fun _ => hfarewell) ?_
    rcases Cache.unsubscribe_tally hfair x with ⟨_, fault, heq⟩ | ⟨_, hdone, _⟩ | ⟨hone, _, htally⟩
    · rw [heq] at hask
      cases hask
    · rw [hdone] at hask
      cases hask
    · exact ask_held hone htally rfl rfl
  | unsubscribe hnot => exact .of_unsubscribe hfair hnot
  | @released x reply hmem =>
    rcases Cache.released_tally hfair x reply with ⟨⟨fault, rfl⟩, htally⟩ | htally
    · exact .of_failure rfl rfl rfl (restored_held hmem htally rfl rfl)
    · exact .of_farewell rfl rfl rfl (left_held hmem htally rfl rfl)
  | subscribeStale => exact .of_none rfl rfl
  | @resubscribed x reply hmem =>
    refine .of_none rfl (held_congr ?_ rfl rfl)
    have htally := Cache.resubscribed_tally hfair x reply
    split at htally
    · exact congrFun (direct_of_marked htally) rid
    · refine direct_of_ended htally fun hfewer => hends ⟨hfewer.2, .inr ⟨reply, ?_⟩⟩
      rw [hfewer.1]

theorem Step.Books.balance (h : step.Books rid) : step.after.held rid = step.before.held rid +
    (step.gains rid).toNat + (step.strays rid).toNat - (step.yields rid).toNat -
      (step.loses rid).toNat := by
  unfold Step.gains Step.strays Step.yields Step.loses
  cases h with
  | gain hsub hunsub hheld =>
    rw [hsub, hunsub]
    exact (hheld.trans (by simp [Except.isOk, Except.toBool]))
  | refusal hsub hunsub hheld =>
    have hstray : step.after.held rid = step.before.held rid +
        ((decide (step.before.held rid < step.after.held rid)).toNat : Int) := by
      rcases hheld with hsame | hmore
      · rw [decide_eq_false (by omega), hsame]
        exact (Int.add_zero _).symm
      · rw [decide_eq_true (by omega), hmore]
        rfl
    rw [hsub, hunsub]
    exact hstray.trans (by simp [Except.isOk, Except.toBool])
  | yield hsub hunsub hheld =>
    rw [hsub, hunsub]
    exact (hheld.trans (by simp [Except.isOk, Except.toBool]))
  | failure hsub hunsub hheld =>
    have hloss : step.after.held rid = step.before.held rid -
        ((decide (step.after.held rid < step.before.held rid)).toNat : Int) := by
      rcases hheld with hsame | hless
      · rw [decide_eq_false (by omega), hsame]
        exact (Int.sub_zero _).symm
      · rw [decide_eq_true (by omega), hless]
        rfl
    rw [hsub, hunsub]
    exact hloss.trans (by simp [Except.isOk, Except.toBool])
  | nothing hsub hunsub hheld =>
    rw [hsub, hunsub]
    exact hheld.trans (by simp)

/-- What callers hold are the subscriptions that were taken and not given up, with those that were
counted and those that were not counted any more though the call had failed. -/
theorem Trace.account (h : Trace registry trace w) (hends : ∀ step ∈ trace, ¬ step.Ends rid) :
    w.held rid = trace.countP (Step.gains rid) + trace.countP (Step.strays rid) -
      trace.countP (Step.yields rid) - trace.countP (Step.loses rid) := by
  unfold Trace at h
  induction h with
  | refl => rfl
  | @step trace w' w'' action err htrace hstep ih =>
    have hbefore := ih fun step hmem => hends step (List.mem_append_left _ hmem)
    have hlast := hends _ (List.mem_append_right _ List.mem_cons_self)
    have hbooks := ((acts_of_perform hstep).books (Trace.fair htrace) hlast).balance
    have hcount (p : Step → Bool) : (trace ++ [Step.mk w' action err w'']).countP p =
        trace.countP p + (p ⟨w', action, err, w''⟩).toNat := by
      rw [List.countP_append, List.countP_singleton]
      cases p (Step.mk w' action err w'') <;> rfl
    rw [hcount, hcount, hcount, hcount]
    dsimp only at hbooks
    push_cast
    omega

theorem failed_of_any {α : Type} {p : Prop} [Decidable p] {result : Option (Outcome α)}
    (h : (if p then result else none).any (!·.isOk) = true) :
    p ∧ ∃ fault, result = some (.error fault) := by
  split at h
  · rename_i hp
    refine ⟨hp, ?_⟩
    cases result with
    | none => cases h
    | some outcome =>
      cases outcome with
      | ok _ => cases h
      | error fault => exact ⟨fault, rfl⟩
  · cases h

theorem Step.answer_of_strays (h : step.strays rid = true) : step.action.rid? = some rid ∧
    (∃ fault, step.answer? = some (.error fault)) ∧ step.after.held rid ≠ step.before.held rid := by
  obtain ⟨hrefused, hmore⟩ := Bool.and_eq_true_iff.mp h
  obtain ⟨haction, hfault⟩ := failed_of_any hrefused
  exact ⟨haction, hfault, (Int.ne_of_lt (of_decide_eq_true hmore)).symm⟩

theorem Step.farewell_of_loses (h : step.loses rid = true) : step.action.rid? = some rid ∧
    (∃ fault, step.before.farewell? step.action = some (.error fault)) ∧
      step.after.held rid ≠ step.before.held rid := by
  obtain ⟨hfailed, hless⟩ := Bool.and_eq_true_iff.mp h
  obtain ⟨haction, hfault⟩ := failed_of_any hfailed
  exact ⟨haction, hfault, Int.ne_of_lt (of_decide_eq_true hless)⟩

/-- In order, only who waits for first contents is counted and yet refused. -/
theorem Acts.strays_tidy (hacts : w.Acts action err w') (htidy : w.Tidy) (hlegal : action.Legal)
    (hfair : w.cache.store.Fair) (h : Step.strays rid ⟨w, action, err, w'⟩ = true) :
    ∃ pending, action = .loaded rid pending := by
  obtain ⟨haction, ⟨fault, hanswer⟩, hne⟩ := Step.answer_of_strays h
  cases hacts with
  | add batch x =>
    have hrefused : ∃ error, (w.cache.merge batch x 1).1 = .error error := by
      have hmapped := Option.some_inj.mp hanswer
      change (w.cache.merge batch x 1).1.mapError _ = _ at hmapped
      cases hresult : (w.cache.merge batch x 1).1 with
      | ok handle =>
        rw [hresult] at hmapped
        cases hmapped
      | error error => exact ⟨error, rfl⟩
    obtain ⟨error, herr⟩ := hrefused
    have hsame := Cache.direct_of_refused htidy hlegal herr
    exact (hne (held_congr (congrFun hsame rid) rfl rfl)).elim
  | @fetched x t reply hmem =>
    have hsame := Cache.direct_of_fetched htidy hfair hlegal (Option.some_inj.mp hanswer)
    exact (hne (held_congr (congrFun hsame rid) rfl (countP_erase_waiting hmem rfl))).elim
  | @join x t pending outcome hmem houtcome hjoin =>
    have hnone : w.answer? (.join x t) = none := by rw [answer_join houtcome, hjoin]
    cases hnone.symm.trans hanswer
  | refuse hmem houtcome hjoin => exact absurd (refuse_held hmem hjoin) hne
  | @loaded x pending _ _ _ =>
    cases Option.some_inj.mp haction
    exact ⟨pending, rfl⟩
  | _ => cases hanswer

/-- In order, only a server that refuses to end the subscription of an evicted resource costs a
subscription that is not given up. -/
theorem Acts.loses_tidy (hacts : w.Acts action err w') (htidy : w.Tidy)
    (hfair : w.cache.store.Fair) (h : Step.loses rid ⟨w, action, err, w'⟩ = true) :
    (∃ fault, action = .released rid (.error fault)) ∧ w.cache.store.get? rid = none := by
  obtain ⟨haction, ⟨fault, hfarewell⟩, hne⟩ := Step.farewell_of_loses h
  cases hacts with
  | @ask x hask =>
    have hnone : w.farewell? (.unsubscribe x) = none := by simp only [farewell?, hask]
    cases hnone.symm.trans hfarewell
  | @unsubscribe x hnot =>
    rcases Nat.eq_zero_or_pos (w.cache.store.direct x) with hzero | hpos
    · have hsame : (w.cache.unsubscribe x).2.store.direct = w.cache.store.direct := by
        rcases Cache.unsubscribe_tally hfair x with ⟨_, _, heq⟩ | ⟨hmany, _⟩ | ⟨hone, _⟩
        · rw [heq]
        · omega
        · omega
      exact (hne (held_congr (congrFun hsame rid) rfl rfl)).elim
    · obtain ⟨leaving, hleaving⟩ := Cache.unsubscribe_ok htidy hpos
      simp only [farewell?, hleaving] at hfarewell
      cases leaving with
      | asking => cases hfarewell
      | done => cases hfarewell
  | @released x reply hmem =>
    cases Option.some_inj.mp haction
    cases reply with
    | ok _ =>
      have hrooted : w.cache.Tidy fun r => r ∈ w.leaving.erase rid ∨ r = rid :=
        htidy.weaken fun r hr => by
          by_cases hrid : r = rid
          · exact .inr hrid
          · exact .inl ((List.mem_erase_of_ne hrid).mpr hr)
      have hok : (w.cache.released rid (.ok ())).1 = .ok () := Cache.leave_ok hrooted
      cases hok.symm.trans (Option.some_inj.mp hfarewell)
    | error fault =>
      refine ⟨⟨fault, rfl⟩, ?_⟩
      by_contra hcached
      have htally := Cache.restored_tally (Option.isSome_iff_ne_none.mpr hcached) fault
      exact hne (restored_held hmem htally rfl rfl)
  | _ => cases hfarewell

/-- When the server refuses to end the subscription of a resource, the subscription is restored if
the resource is cached, and lost if it is not. -/
theorem Acts.refused_release {fault : Fault}
    (hacts : w.Acts (.released rid (.error fault)) err w') :
    ((w.cache.store.get? rid).isSome = true →
      w'.cache.store.direct rid = w.cache.store.direct rid + 1) ∧
    (w.cache.store.get? rid = none →
      Step.loses rid ⟨w, .released rid (.error fault), err, w'⟩ = true) := by
  cases hacts with
  | released _ hleaving =>
    constructor
    · exact fun hcached => Store.direct_self (Cache.restored_tally hcached fault)
    · intro hnone
      have htally := Cache.lost_tally hnone fault
      have htold (after : World) :
          Step.unsubscribed? ⟨w, .released rid (.error fault), none, after⟩ rid =
            some (.error fault) := if_pos rfl
      refine Bool.and_eq_true_iff.mpr ⟨?_, decide_eq_true ?_⟩
      · rw [htold]
        rfl
      · refine Int.lt_of_le_of_lt (Int.le_of_eq (left_held hleaving htally rfl rfl)) ?_
        rw [share_self]
        exact Int.sub_lt_self _ Int.one_pos

/-- As long as the server ends no subscription of a resource and each resubscription of it succeeds,
its callers hold what they have taken and not given up, give or take those calls that have failed
and yet counted. So when no call for the resource is unfinished, its count is the number of
subscriptions taken less those given up exactly if these two balance. When the server refuses to end
the subscription of a resource that is cached, it is restored; of one that was evicted meanwhile, it
is lost. If every batch lists a resource once and hooks do not edit values, no other call that gives
a subscription up loses one by its failure, and no call that takes one gains one by its failure
unless it had waited for first contents. -/
theorem direct_eq_taken_iff (h : Trace registry trace w) (rid : String)
    (hends : ∀ step ∈ trace, ¬ step.Ends rid) :
    w.held rid = trace.countP (Step.gains rid) + trace.countP (Step.strays rid) -
      trace.countP (Step.yields rid) - trace.countP (Step.loses rid) ∧
    ((∀ call ∈ w.callers, call.rid ≠ rid) → rid ∉ w.leaving →
      ((w.cache.store.direct rid : Int) =
          trace.countP (Step.gains rid) - trace.countP (Step.yields rid) ↔
        trace.countP (Step.strays rid) = trace.countP (Step.loses rid))) ∧
    (∀ step ∈ trace, ∀ fault, step.action = .released rid (.error fault) →
      ((step.before.cache.store.get? rid).isSome = true →
        step.after.cache.store.direct rid = step.before.cache.store.direct rid + 1) ∧
      (step.before.cache.store.get? rid = none → step.loses rid = true)) ∧
    (registry.Quiet → (∀ step ∈ trace, step.action.Legal) → ∀ step ∈ trace,
      (step.strays rid = true → ∃ pending, step.action = .loaded rid pending) ∧
      (step.loses rid = true → (∃ fault, step.action = .released rid (.error fault)) ∧
        step.before.cache.store.get? rid = none)) := by
  have haccount := h.account hends
  refine ⟨haccount, fun hcallers hleaving => ?_, fun step hmem fault haction => ?_,
    fun hquiet hlegal step hmem => ?_⟩
  · have hloads : w.loads rid = 0 := by
      refine List.countP_eq_zero.mpr fun call hmem hwaits => hcallers call hmem ?_
      cases call with
      | loading x pending => exact eq_of_beq hwaits
      | fetching x t => cases hwaits
      | joined x t => cases hwaits
    have hheld : w.held rid = w.cache.store.direct rid := by
      unfold held
      rw [hloads, List.count_eq_zero.mpr hleaving]
      omega
    rw [hheld] at haccount
    omega
  · obtain ⟨past, later, rfl⟩ := List.append_of_mem hmem
    obtain ⟨hpast, hperform, _⟩ := Passes.at_step h
    obtain ⟨before, action, told, after⟩ := step
    cases haction
    exact (acts_of_perform hperform).refused_release
  · obtain ⟨past, later, rfl⟩ := List.append_of_mem hmem
    obtain ⟨hpast, hperform, _⟩ := Passes.at_step h
    have hrun := Trace.run hpast fun step hstep => hlegal step (List.mem_append_left _ hstep)
    have htidy := tidy_of_run hquiet hrun
    have hacts := acts_of_perform hperform
    exact ⟨hacts.strays_tidy htidy (hlegal step hmem) (Trace.fair hpast),
      hacts.loses_tidy htidy (Trace.fair hpast)⟩

def linking : Batch := ⟨Dict.ofList [("p", Dict.ofList [("r", .obj [("rid", .str "m")])])], ∅, ∅⟩

def unlinking : Json := .obj [("values", .obj [("r", .null)])]

def refusal : Fault := ⟨"system.timeout", "timeout", none⟩

def taken : World := { start .empty with cache := ((start .empty).cache.add lone "m").2 }

def linked : World := { taken with cache := (taken.cache.add linking "p").2 }

def doubtful : World :=
  { linked with cache := (linked.cache.unsubscribe "m").2, leaving := ["m"] }

def unlinked : World :=
  { doubtful with cache := (doubtful.cache.handleEvent "p" "change" (some unlinking)).2 }

def lost : World :=
  { unlinked with cache := (unlinked.cache.released "m" (.error refusal)).2, leaving := [] }

def lostStep : Step := ⟨unlinked, .released "m" (.error refusal), none, lost⟩

def unlinkedStep : Step := ⟨doubtful, .event "p" "change" (some unlinking),
  told (doubtful.cache.handleEvent "p" "change" (some unlinking)).1, unlinked⟩

def beforeLost : List Step :=
  [⟨start .empty, .add lone "m", none, taken⟩, ⟨taken, .add linking "p", none, linked⟩,
    ⟨linked, .unsubscribe "m", none, doubtful⟩, unlinkedStep]

theorem trace_lost : Trace .empty (beforeLost ++ [lostStep]) lost := by
  have htaken : Trace .empty _ taken := .next .refl (.add lone "m") rfl
  have hlinked : Trace .empty _ linked := .next htaken (.add linking "p") rfl
  have hdoubtful : Trace .empty _ doubtful := .next hlinked (.unsubscribe "m") rfl
  have hunlinked : Trace .empty _ unlinked :=
    .next hdoubtful (.event "p" "change" (some unlinking)) rfl
  exact .next hunlinked (.released "m" (.error refusal)) rfl

theorem run_doubtful : Run .empty doubtful := by
  have htaken : Run .empty taken := .next .start (.add lone "m") lone_disjoint rfl
  have hlinked : Run .empty linked :=
    .next htaken (.add linking "p") (Batch.disjoint_of_models rfl rfl) rfl
  exact .next hlinked (.unsubscribe "m") trivial rfl

theorem tidy_doubtful : doubtful.cache.Tidy fun _ => False := by
  have htidy := tidy_of_run Registry.quiet_empty run_doubtful
  have hrooted : doubtful.cache.store.Rooted fun r => False ∨ r = "m" :=
    htidy.rooted.weaken fun r hr => .inr (List.mem_singleton.mp hr)
  have hlink : "m" ∈ doubtful.cache.store.links "p" := by decide
  have hsubscribed : 0 < doubtful.cache.store.direct "p" := by decide
  exact htidy.withStore htidy.rest ((hrooted.of_linked (.inl hsubscribed) hlink).weaken fun _ => .inl)

theorem get?_unlinked : unlinked.cache.store.get? "m" = none := by
  have hdisjoint : EmbedsDisjoint (some unlinking) := fun members batch hmembers hbatch => by
    cases hmembers
    cases hbatch
    exact Batch.disjoint_of_models rfl rfl
  exact Cache.get?_handleEvent tidy_doubtful hdisjoint rfl rfl rfl rfl ⟨rfl, rfl, rfl⟩ id

/-- The one subscription that was taken was not given up, and it is gone. -/
theorem direct_eq_taken_iff_lost : (beforeLost ++ [lostStep]).countP (Step.gains "m") = 1 ∧
    (beforeLost ++ [lostStep]).countP (Step.yields "m") = 0 ∧
    ¬ (lost.cache.store.direct "m" : Int) = (beforeLost ++ [lostStep]).countP (Step.gains "m") -
      (beforeLost ++ [lostStep]).countP (Step.yields "m") := by
  have hends : ∀ step ∈ beforeLost ++ [lostStep], ¬ step.Ends "m" := by
    rintro step hmem ⟨_, hends⟩
    have haction := List.mem_map_of_mem (f := Step.action) hmem
    rcases hends with ⟨data, heq⟩ | ⟨reply, heq⟩ <;>
      simp [heq, beforeLost, unlinkedStep, lostStep] at haction
  obtain ⟨_, hiff, hreleased, _⟩ := direct_eq_taken_iff trace_lost "m" hends
  have hmem : lostStep ∈ beforeLost ++ [lostStep] := by simp
  have hloses := (hreleased lostStep hmem refusal rfl).2 get?_unlinked
  have hstrays : (beforeLost ++ [lostStep]).countP (Step.strays "m") = 0 := by rfl
  refine ⟨by rfl, by rfl, fun hsame => ?_⟩
  have hbalance := (hiff (fun _ hcall => by cases hcall) (by simp [lost])).mp hsame
  have hpos := List.countP_pos_iff.mpr ⟨lostStep, hmem, hloses⟩
  omega

end World

end LiveResource
