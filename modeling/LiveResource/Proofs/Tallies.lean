import LiveResource.Proofs.Stages
import Mathlib.Logic.Function.Basic

set_option autoImplicit false

/-!
# What a call counts

Each call changes the count and the mark of one resource at most. Batches and events change those of
no resource, unless they end its subscriptions; nor does an eviction, since only what is subscribed
awaits resubscription.
-/

namespace LiveResource

namespace Store

def tally (s : Store) (x : String) : Nat × Bool := (s.direct x, s.isStale x)

/-- Only what is subscribed awaits resubscription. -/
def Fair (s : Store) : Prop := ∀ x, s.direct x = 0 → s.isStale x = false

def Tallied (s s' : Store) : Prop := s.Fair → s'.tally = s.tally

variable {s s' : Store} {rid x : String} {e e' : Entry} {n : Nat} {b : Bool}

theorem tally_of_get? (he : s.get? x = some e) : s.tally x = (e.direct, e.stale) := by
  unfold tally direct isStale
  rw [he]

theorem tally_of_none (he : s.get? x = none) : s.tally x = (0, false) := by
  unfold tally direct isStale
  rw [he]

theorem tally_congr (h : s'.get? x = s.get? x) : s'.tally x = s.tally x := by
  unfold tally direct isStale
  rw [h]

theorem tally_put (s : Store) (rid : String) (e' : Entry) :
    (s.put rid e').tally = Function.update s.tally rid (e'.direct, e'.stale) := by
  funext x
  by_cases hx : x = rid
  · subst hx
    rw [Function.update_self]
    exact tally_of_get? ((get?_put s x e' x).trans (if_pos rfl))
  · rw [Function.update_of_ne hx]
    exact tally_congr ((get?_put s rid e' x).trans (if_neg (Ne.symm hx)))

theorem tally_modify (he : s.get? rid = some e) (f : Entry → Entry) :
    (s.modify rid f).tally = Function.update s.tally rid ((f e).direct, (f e).stale) := by
  rw [modify_eq_put he, tally_put]

theorem tally_put_of_eq (he : s.get? rid = some e) (hdirect : e'.direct = e.direct)
    (hstale : e'.stale = e.stale) : (s.put rid e').tally = s.tally := by
  rw [tally_put, hdirect, hstale, ← tally_of_get? he, Function.update_eq_self]

theorem tally_modify_of_eq {f : Entry → Entry} (hdirect : ∀ e, (f e).direct = e.direct)
    (hstale : ∀ e, (f e).stale = e.stale) : (s.modify rid f).tally = s.tally := by
  cases he : s.get? rid with
  | none => rw [modify_of_none he]
  | some e =>
    rw [modify_eq_put he]
    exact tally_put_of_eq he (hdirect e) (hstale e)

theorem Fair.tally_eq_zero (h : s.Fair) (hzero : s.direct x = 0) : s.tally x = (0, false) :=
  Prod.ext hzero (h x hzero)

theorem Fair.of_tally (h : s.Fair) (htally : s'.tally = s.tally) : s'.Fair := by
  intro x hzero
  have hx := congrFun htally x
  exact (congrArg Prod.snd hx).trans (h x ((congrArg Prod.fst hx).symm.trans hzero))

/-! A call changes the count and the mark of one resource. -/

theorem tally_self {v : Nat × Bool} (h : s'.tally = Function.update s.tally rid v) :
    s'.tally rid = v := by
  rw [h, Function.update_self]

theorem tally_of_ne {v : Nat × Bool} (h : s'.tally = Function.update s.tally rid v)
    (hx : x ≠ rid) : s'.tally x = s.tally x := by
  rw [h, Function.update_of_ne hx]

theorem direct_self (h : s'.tally = Function.update s.tally rid (n, b)) : s'.direct rid = n :=
  congrArg Prod.fst (tally_self h)

theorem Fair.of_update (h : s.Fair) (htally : s'.tally = Function.update s.tally rid (n, b))
    (hb : n = 0 → b = false) : s'.Fair := by
  intro x hzero
  by_cases hx : x = rid
  · subst hx
    exact (congrArg Prod.snd (tally_self htally)).trans
      (hb ((direct_self htally).symm.trans hzero))
  · have hsame := tally_of_ne htally hx
    exact (congrArg Prod.snd hsame).trans (h x ((congrArg Prod.fst hsame).symm.trans hzero))

theorem direct_of_tally (h : s'.tally = s.tally) : s'.direct = s.direct := by
  funext x
  exact congrArg Prod.fst (congrFun h x)

theorem direct_of_update (h : s'.tally = Function.update s.tally rid (n, b)) :
    s'.direct = Function.update s.direct rid n := by
  funext x
  by_cases hx : x = rid
  · subst hx
    rw [Function.update_self, direct_self h]
  · rw [Function.update_of_ne hx]
    exact congrArg Prod.fst (tally_of_ne h hx)

theorem fair_empty : empty.Fair := fun _ _ => rfl

theorem Tallied.upkeep : Upkeep (fun _ => True) Tallied where
  refl _ _ := rfl
  trans h h' hs := (h' (hs.of_tally (h hs))).trans (h hs)
  recount _ _ _ _ := tally_modify_of_eq (fun _ => rfl) fun _ => rfl
  edit _ he _ _ _ := tally_put_of_eq he rfl rfl
  obtain s rid _ := by
    cases he : s.get? rid with
    | some e => rw [obtain_of_get? he]
    | none =>
      rw [obtain_of_none he]
      refine (tally_put _ _ _).trans ?_
      change Function.update s.tally rid (0, false) = s.tally
      rw [← tally_of_none he, Function.update_eq_self]
  create _ _ _ _ _ _ := tally_modify_of_eq (fun _ => rfl) fun _ => rfl
  load _ _ _ _ := tally_modify_of_eq (fun _ => rfl) fun _ => rfl
  evict {s gone} h hs := by
    funext x
    by_cases hx : x ∈ gone
    · rw [hs.tally_eq_zero (h x hx)]
      exact tally_of_none ((get?_foldl_remove s gone x).trans (if_pos hx))
    · exact tally_congr ((get?_foldl_remove s gone x).trans (if_neg hx))
  tell _ _ _ _ := rfl

end Store

namespace Cache

variable {c : Cache} {rid name : String} {batch : Batch} {reply : Outcome Json}

theorem tally_claimed {s s' : Store} {e : Entry} {subscriptions : Nat} (h : c.store.Fair)
    (hbefore : c.store.Tallied s) (he : s.get? rid = some e)
    (hafter : (s.put rid (e.claimed subscriptions)).Tallied s') :
    s'.tally =
      Function.update c.store.tally rid (c.store.direct rid + subscriptions, false) := by
  have htally := hbefore h
  have hdirect : e.direct = c.store.direct rid :=
    (Store.direct_of_get? he).symm.trans (congrArg Prod.fst (congrFun htally rid))
  have hput := Store.tally_put s rid (e.claimed subscriptions)
  have hfair := (h.of_tally htally).of_update hput fun _ => rfl
  rw [hafter hfair, hput, htally, ← hdirect]
  rfl

/-- A merge counts its subscriptions unless it fails. -/
theorem merge_tally (h : c.store.Fair) (batch : Batch) (rid : String) (subscriptions : Nat) :
    ((c.merge batch rid subscriptions).2.store.tally = c.store.tally ∧
      ∃ err, (c.merge batch rid subscriptions).1 = .error err) ∨
    (c.merge batch rid subscriptions).2.store.tally =
      Function.update c.store.tally rid (c.store.direct rid + subscriptions, false) := by
  rcases Store.Tallied.upkeep.merge c batch (fun _ _ => trivial) rid subscriptions with
    ⟨hsame, herr⟩ | ⟨s, e, hbefore, he, _, _, hafter, _⟩
  · exact .inl ⟨hsame h, herr⟩
  · exact .inr (tally_claimed h hbefore he hafter)

theorem mergeReply_tally (h : c.store.Fair) (rid : String) (subscriptions : Nat)
    (reply : Outcome Json) :
    ((c.mergeReply rid subscriptions reply).2.store.tally = c.store.tally ∧
      ∃ fault, (c.mergeReply rid subscriptions reply).1 = .error fault) ∨
    (c.mergeReply rid subscriptions reply).2.store.tally =
      Function.update c.store.tally rid (c.store.direct rid + subscriptions, false) := by
  rcases Store.Tallied.upkeep.mergeReply c (fun _ _ => trivial) rid subscriptions with
    ⟨hsame, herr⟩ | ⟨s, e, hbefore, he, _, _, hafter, _⟩
  · exact .inl ⟨hsame h, herr⟩
  · exact .inr (tally_claimed h hbefore he hafter)

theorem get?_mergeReply {handle : Handle} {subscriptions : Nat}
    (hok : (c.mergeReply rid subscriptions reply).1 = .ok handle) (hpos : 0 < subscriptions) :
    ∃ e, (c.mergeReply rid subscriptions reply).2.store.get? rid = some e ∧ e.loaded = true ∧
      e.fault? = none ∧ e.handle? rid = some handle ∧ 0 < e.direct := by
  rcases Store.Tallied.upkeep.mergeReply c (fun _ _ => trivial) rid subscriptions with
    ⟨_, fault, herr⟩ | ⟨s, e, _, _, hl, hfault, _, hpurged, hhandle⟩
  · rw [hok] at herr
    cases herr
  · have hget : (s.put rid (e.claimed subscriptions)).get? rid = some (e.claimed subscriptions) :=
      (Store.get?_put _ _ _ _).trans (if_pos rfl)
    have hcounted : 0 < (e.claimed subscriptions).direct := Nat.lt_of_lt_of_le hpos
      (Nat.le_add_left _ _)
    obtain ⟨e', he', heq⟩ := hpurged.held hget hcounted
    rw [heq] at he'
    exact ⟨_, he', hl, hfault, hhandle handle hok, hcounted⟩

theorem closeFetch_tally {s : Store} (h : s.Fair) (rid : String) (result : Outcome Handle) :
    (closeFetch s rid result).tally = s.tally := by
  unfold closeFetch
  cases he : s.get? rid with
  | none => rfl
  | some e =>
    dsimp only
    have hput : (s.put rid { e with subscribing := none }).tally = s.tally :=
      Store.tally_put_of_eq he rfl rfl
    split
    · exact hput
    · split
      · rename_i hidle
        rw [Bool.and_eq_true, Bool.and_eq_true, beq_iff_eq, beq_iff_eq] at hidle
        have hfair := h.of_tally hput
        have hzero : (s.put rid { e with subscribing := none }).direct rid = 0 := by
          rw [Store.direct_put, if_pos rfl]
          exact hidle.1.2
        have hgone : ∀ x ∈ [rid], (s.put rid { e with subscribing := none }).direct x = 0 :=
          fun x hx => by
            rw [List.mem_singleton.mp hx]
            exact hzero
        exact (Store.Tallied.upkeep.evict hgone hfair).trans hput
      · exact hput

/-- The reply to a network subscribe counts one subscription unless it is refused. -/
theorem fetched_tally (h : c.store.Fair) (rid : String) (shared : Ticket) (reply : Outcome Json) :
    ((c.fetched rid shared reply).2.store.tally = c.store.tally ∧
      ∃ fault, (c.fetched rid shared reply).1 = .error fault) ∨
    (c.fetched rid shared reply).2.store.tally =
      Function.update c.store.tally rid (c.store.direct rid + 1, false) := by
  have hclose (hfair : (c.mergeReply rid 1 reply).2.store.Fair) :
      (c.fetched rid shared reply).2.store.tally = (c.mergeReply rid 1 reply).2.store.tally :=
    closeFetch_tally hfair rid (c.mergeReply rid 1 reply).1
  rcases mergeReply_tally h rid 1 reply with ⟨hsame, herr⟩ | hcounted
  · exact .inl ⟨(hclose (h.of_tally hsame)).trans hsame, herr⟩
  · exact .inr ((hclose (h.of_update hcounted fun _ => rfl)).trans hcounted)

theorem get?_fetched {handle : Handle} {shared : Ticket}
    (hok : (c.fetched rid shared reply).1 = .ok handle) :
    ∃ e, (c.fetched rid shared reply).2.store.get? rid = some e ∧ e.loaded = true ∧
      e.fault? = none ∧ e.handle? rid = some handle ∧ 0 < e.direct := by
  have hmerged : (c.mergeReply rid 1 reply).1 = .ok handle := hok
  obtain ⟨e, he, hl, hfault, hhandle, hpos⟩ := get?_mergeReply hmerged Nat.one_pos
  refine ⟨{ e with subscribing := none }, ?_, hl, hfault, hhandle, hpos⟩
  change (closeFetch (c.mergeReply rid 1 reply).2.store rid
    (c.mergeReply rid 1 reply).1).get? rid = _
  unfold closeFetch
  simp only [he, hmerged]
  exact (Store.get?_put _ _ _ _).trans (if_pos rfl)

theorem subscribed_tally {s : Store} {e : Entry} (he : s.get? rid = some e) :
    (s.put rid e.subscribed).tally =
      Function.update s.tally rid (s.direct rid + 1, s.isStale rid) := by
  have htally := Store.tally_of_get? he
  rw [show s.direct rid = e.direct from congrArg Prod.fst htally,
    show s.isStale rid = e.stale from congrArg Prod.snd htally]
  exact Store.tally_put s rid e.subscribed

/-- A caller is counted at once if the resource is subscribed, and not before it is served if it is
not. -/
theorem subscribe_tally (h : c.store.Fair) (rid : String) :
    (0 < c.store.direct rid ∧ (∃ pending, (c.subscribe rid).1 = .loading rid pending) ∧
      (c.subscribe rid).2.store.tally =
        Function.update c.store.tally rid (c.store.direct rid + 1, c.store.isStale rid)) ∨
    (c.store.direct rid = 0 ∧ (∃ shared, (c.subscribe rid).1 = .joined rid shared ∨
        (c.subscribe rid).1 = .fetching rid shared) ∧
      (c.subscribe rid).2.store.tally = c.store.tally) := by
  obtain ⟨e, s, hobtain, hget, hdirect, hcases⟩ := c.subscribe_cases rid
  have htally : s.tally = c.store.tally := by
    have hsame := Store.Tallied.upkeep.obtain c.store rid h
    rw [hobtain] at hsame
    exact hsame
  rcases hcases with ⟨hpos, heq⟩ | ⟨hzero, shared, _, heq⟩ | ⟨hzero, _, heq⟩
  · refine .inl ⟨hdirect ▸ hpos, ⟨e.pending, by rw [heq]⟩, ?_⟩
    have hsame := congrFun htally rid
    rw [heq, ← htally, ← show s.direct rid = c.store.direct rid from congrArg Prod.fst hsame,
      ← show s.isStale rid = c.store.isStale rid from congrArg Prod.snd hsame]
    exact subscribed_tally hget
  · rw [heq]
    exact .inr ⟨hdirect ▸ hzero, ⟨shared, .inl rfl⟩, htally⟩
  · rw [heq]
    refine .inr ⟨hdirect ▸ hzero, ⟨_, .inr rfl⟩, ?_⟩
    rw [← htally]
    have hissued : s.issued.get? rid = some e := hget
    exact Store.tally_put_of_eq hissued rfl rfl

/-- Who has joined a network subscribe is counted when it is over, unless it has failed or its entry
is gone. -/
theorem join_tally (c : Cache) (rid : String) (outcome : Outcome Unit) :
    ((c.join rid outcome).2.store.tally = c.store.tally ∧
      ∃ fault, (c.join rid outcome).1 = .error fault) ∨
    ((c.join rid outcome).2.store.tally =
      Function.update c.store.tally rid (c.store.direct rid + 1, c.store.isStale rid) ∧
      ∃ pending, (c.join rid outcome).1 = .ok pending) := by
  rcases c.join_cases rid outcome with ⟨fault, _, heq⟩ | ⟨_, _, heq⟩ | ⟨e, _, he, heq⟩
  · exact .inl ⟨by rw [heq], fault, by rw [heq]⟩
  · exact .inl ⟨by rw [heq], _, congrArg Prod.fst heq⟩
  · refine .inr ⟨?_, e.pending, by rw [heq]⟩
    rw [heq]
    exact subscribed_tally he

theorem leave_tally (h : c.store.Fair) (rid : String) :
    (c.leave rid).2.store.tally = c.store.tally := by
  rcases Store.Tallied.upkeep.leave c rid with ⟨_, hsame⟩ | ⟨e, he, hzero, hafter⟩
  · rw [hsame]
  · have hstale : e.stale = false := by
      have hfair := h rid ((Store.direct_of_get? he).trans hzero)
      unfold Store.isStale at hfair
      rw [he] at hfair
      exact hfair
    have hput : (c.store.put rid e.left).tally = c.store.tally :=
      Store.tally_put_of_eq he rfl hstale.symm
    exact (hafter (h.of_tally hput)).trans hput

/-- To unsubscribe takes one subscription away, if there is one. For the last one the server is
asked, unless the resource awaits resubscription. -/
theorem unsubscribe_tally (h : c.store.Fair) (rid : String) :
    (c.store.direct rid = 0 ∧ (∃ fault, c.unsubscribe rid = (.error fault, c))) ∨
    (1 < c.store.direct rid ∧ (c.unsubscribe rid).1 = .ok .done ∧
      (c.unsubscribe rid).2.store.tally =
        Function.update c.store.tally rid (c.store.direct rid - 1, c.store.isStale rid)) ∨
    (c.store.direct rid = 1 ∧ (c.store.isStale rid = false ↔ (c.unsubscribe rid).1 = .ok .asking) ∧
      (c.unsubscribe rid).2.store.tally = Function.update c.store.tally rid (0, false)) := by
  rcases c.unsubscribe_cases rid with ⟨hzero, heq⟩ | ⟨e, he, _, hcases⟩
  · exact .inl ⟨hzero, _, heq⟩
  · have htally := Store.tally_of_get? he
    have hput := Store.tally_put c.store rid e.unsubscribed
    have hdirect : c.store.direct rid = e.direct := congrArg Prod.fst htally
    have hstale : c.store.isStale rid = e.stale := congrArg Prod.snd htally
    rcases hcases with ⟨hmany, heq⟩ | ⟨hone, hfresh, heq⟩ | ⟨hone, hawaits, left, hleave, heq⟩
    · rw [heq, hdirect, hstale]
      exact .inr (.inl ⟨hmany, rfl, hput⟩)
    · rw [heq, hdirect, hstale]
      refine .inr (.inr ⟨hone, iff_of_true hfresh rfl, ?_⟩)
      refine hput.trans ?_
      change Function.update c.store.tally rid (e.direct - 1, e.stale) = _
      rw [hone, hfresh]
    · have hresult : (left.1.map fun _ => Leaving.done) ≠ .ok .asking := by
        cases left.1 <;> exact fun hsame => by cases hsame
      rw [heq, hdirect, hstale]
      refine .inr (.inr ⟨hone, iff_of_false (by rw [hawaits]; decide) hresult, ?_⟩)
      have hget : (c.store.put rid e.unsubscribed).get? rid = some e.unsubscribed :=
        (Store.get?_put _ _ _ _).trans (if_pos rfl)
      have hzero : e.unsubscribed.direct = 0 := by
        change e.direct - 1 = 0
        omega
      rcases Store.Tallied.upkeep.leave { c with store := c.store.put rid e.unsubscribed } rid with
        ⟨hheld, _⟩ | ⟨e', he', _, hafter⟩
      · exact absurd (hheld _ hget) (Nat.not_lt.mpr (Nat.le_of_eq hzero))
      · cases hget.symm.trans he'
        have hleft : ((c.store.put rid e.unsubscribed).put rid e.unsubscribed.left).tally =
            Function.update c.store.tally rid (0, false) := by
          rw [Store.put_put, Store.tally_put, ← hzero]
          rfl
        rw [hleave] at hafter
        exact (hafter (h.of_update hleft fun _ => rfl)).trans hleft

/-- After a failed network unsubscribe the subscription is restored if the resource is cached. -/
theorem restored_tally (hcached : (c.store.get? rid).isSome = true) (fault : Fault) :
    (c.released rid (.error fault)).2.store.tally =
      Function.update c.store.tally rid (c.store.direct rid + 1, c.store.isStale rid) := by
  obtain ⟨e, he⟩ := Option.isSome_iff_exists.mp hcached
  exact (congrArg Store.tally (Store.modify_eq_put he _)).trans (subscribed_tally he)

theorem lost_tally (hnone : c.store.get? rid = none) (fault : Fault) :
    (c.released rid (.error fault)).2.store.tally = c.store.tally :=
  congrArg Store.tally (Store.modify_of_none hnone _)

theorem released_tally (h : c.store.Fair) (rid : String) (reply : Outcome Unit) :
    ((∃ fault, reply = .error fault) ∧ (c.released rid reply).2.store.tally =
      Function.update c.store.tally rid (c.store.direct rid + 1, c.store.isStale rid)) ∨
    (c.released rid reply).2.store.tally = c.store.tally := by
  cases reply with
  | ok _ => exact .inr (leave_tally h rid)
  | error fault =>
    cases he : c.store.get? rid with
    | none => exact .inr (lost_tally he fault)
    | some e => exact .inl ⟨⟨fault, rfl⟩, restored_tally (by rw [he]; rfl) fault⟩

/-- All directly subscribed resources that are loaded await resubscription from now on. -/
theorem setAllStale_tally (c : Cache) (x : String) : c.setAllStale.2.store.tally x =
    (c.store.direct x, c.store.isStale x || (c.store.isLoaded x && 0 < c.store.direct x)) := by
  have hget := c.get?_setAllStale x
  cases he : c.store.get? x with
  | none =>
    rw [he] at hget
    rw [Store.tally_of_none hget]
    unfold Store.direct Store.isStale Store.isLoaded
    rw [he]
    rfl
  | some e =>
    rw [he, Option.map_some] at hget
    rw [Store.tally_of_get? hget]
    unfold Store.direct Store.isStale Store.isLoaded
    rw [he]
    dsimp only
    split
    · rename_i hmarked
      rw [hmarked, Bool.or_true]
    · rename_i hmarked
      rw [Bool.not_eq_true] at hmarked
      rw [hmarked, Bool.or_false]

theorem setAllStale_unmarked (c : Cache) (x : String) :
    c.setAllStale.2.store.direct x = c.store.direct x ∧
    (c.setAllStale.2.store.isStale x = false ↔
      c.store.isStale x = false ∧ (0 < c.store.direct x → c.store.isLoaded x = false)) := by
  have htally := c.setAllStale_tally x
  have hstale : c.setAllStale.2.store.isStale x =
      (c.store.isStale x || (c.store.isLoaded x && 0 < c.store.direct x)) :=
    congrArg Prod.snd htally
  refine ⟨congrArg Prod.fst htally, ?_⟩
  rw [hstale, Bool.or_eq_false_iff, Bool.and_eq_false_iff, decide_eq_false_iff_not]
  refine and_congr_right fun _ => ⟨fun h hpos => h.resolve_right (not_not.mpr hpos), fun h => ?_⟩
  by_cases hpos : 0 < c.store.direct x
  · exact .inl (h hpos)
  · exact .inr hpos

theorem dropped_tally {s s' : Store} {v : Nat × Bool} (h : c.store.Fair)
    (hs : s.tally = Function.update c.store.tally rid v)
    (hdrop : (s.modify rid Entry.dropped).Tallied s') :
    s'.tally = Function.update c.store.tally rid (0, false) := by
  have hdropped : (s.modify rid Entry.dropped).tally =
      Function.update c.store.tally rid (0, false) := by
    cases he : s.get? rid with
    | none =>
      have hv := congrFun hs rid
      rw [Store.tally_of_none he, Function.update_self] at hv
      rw [Store.modify_of_none he, hs, hv]
    | some e => rw [Store.tally_modify he, hs, Function.update_idem]; rfl
  exact (hdrop (h.of_update hdropped fun _ => rfl)).trans hdropped

/-- An event leaves the subscriptions as they are, or ends those of its resource. -/
theorem handleEvent_tally (h : c.store.Fair) (rid name : String) (data : Option Json) :
    (c.handleEvent rid name data).2.store.tally = c.store.tally ∨
    (name = "unsubscribe" ∧ (c.handleEvent rid name data).2.store.tally =
      Function.update c.store.tally rid (0, false)) := by
  rcases Store.Tallied.upkeep.handleEvent c rid name data trivial fun _ _ => trivial with
    hsame | ⟨hname, hafter⟩ | ⟨_, hafter⟩
  · exact .inl (by rw [hsame])
  · exact .inr ⟨hname, dropped_tally h (Function.update_eq_self rid _).symm hafter⟩
  · exact .inl (hafter h)

/-- The reply to a resubscription makes a resource up to date, or ends its subscriptions. -/
theorem resubscribed_tally (h : c.store.Fair) (rid : String) (reply : Outcome Json) :
    (c.resubscribed rid reply).store.tally = Function.update c.store.tally rid
      (if (c.mergeReply rid 0 reply).1.isOk then (c.store.direct rid, false) else (0, false)) := by
  have hmerge := mergeReply_tally h rid 0 reply
  unfold resubscribed
  generalize c.mergeReply rid 0 reply = merged at hmerge
  obtain ⟨result, c'⟩ := merged
  cases result with
  | ok handle =>
    rcases hmerge with ⟨_, fault, herr⟩ | hcounted
    · cases herr
    · exact hcounted
  | error fault =>
    have hdrop := Store.Tallied.upkeep.dropSubscription c' rid fault
    rcases hmerge with ⟨hsame, _⟩ | hcounted
    · exact dropped_tally h (hsame.trans (Function.update_eq_self rid _).symm) hdrop
    · exact dropped_tally h hcounted hdrop

theorem unsubscribe_fair (h : c.store.Fair) (rid : String) : (c.unsubscribe rid).2.store.Fair := by
  rcases unsubscribe_tally h rid with ⟨_, fault, heq⟩ | ⟨hmany, _, htally⟩ | ⟨_, _, htally⟩
  · rw [heq]
    exact h
  · exact h.of_update htally fun hzero => by omega
  · exact h.of_update htally fun _ => rfl

theorem released_fair (h : c.store.Fair) (rid : String) (reply : Outcome Unit) :
    (c.released rid reply).2.store.Fair := by
  rcases released_tally h rid reply with ⟨_, htally⟩ | htally
  · exact h.of_update htally fun hzero => absurd hzero (Nat.succ_ne_zero _)
  · exact h.of_tally htally

theorem subscribe_fair (h : c.store.Fair) (rid : String) : (c.subscribe rid).2.store.Fair := by
  rcases subscribe_tally h rid with ⟨_, _, htally⟩ | ⟨_, _, htally⟩
  · exact h.of_update htally fun hzero => absurd hzero (Nat.succ_ne_zero _)
  · exact h.of_tally htally

theorem join_fair (h : c.store.Fair) (rid : String) (outcome : Outcome Unit) :
    (c.join rid outcome).2.store.Fair := by
  rcases c.join_tally rid outcome with ⟨htally, _⟩ | ⟨htally, _⟩
  · exact h.of_tally htally
  · exact h.of_update htally fun hzero => absurd hzero (Nat.succ_ne_zero _)

theorem merge_fair (h : c.store.Fair) (batch : Batch) (rid : String) (subscriptions : Nat) :
    (c.merge batch rid subscriptions).2.store.Fair := by
  rcases merge_tally h batch rid subscriptions with ⟨htally, _⟩ | htally
  · exact h.of_tally htally
  · exact h.of_update htally fun _ => rfl

theorem fetched_fair (h : c.store.Fair) (rid : String) (shared : Ticket) (reply : Outcome Json) :
    (c.fetched rid shared reply).2.store.Fair := by
  rcases fetched_tally h rid shared reply with ⟨htally, _⟩ | htally
  · exact h.of_tally htally
  · exact h.of_update htally fun _ => rfl

theorem handleEvent_fair (h : c.store.Fair) (rid name : String) (data : Option Json) :
    (c.handleEvent rid name data).2.store.Fair := by
  rcases handleEvent_tally h rid name data with htally | ⟨_, htally⟩
  · exact h.of_tally htally
  · exact h.of_update htally fun _ => rfl

theorem resubscribed_fair (h : c.store.Fair) (rid : String) (reply : Outcome Json) :
    (c.resubscribed rid reply).store.Fair := by
  have htally := resubscribed_tally h rid reply
  split at htally
  · exact h.of_update htally fun _ => rfl
  · exact h.of_update htally fun _ => rfl

theorem setAllStale_fair (h : c.store.Fair) : c.setAllStale.2.store.Fair := by
  intro x hzero
  have hx := c.setAllStale_tally x
  have hdirect := (congrArg Prod.fst hx).symm.trans hzero
  refine (congrArg Prod.snd hx).trans ?_
  dsimp only at hdirect ⊢
  rw [hdirect, h x hdirect]
  simp

section

variable {root : String → Prop}

theorem direct_of_refused {subscriptions : Nat} {err : CacheError} (h : c.Tidy root)
    (hdisjoint : batch.Disjoint) (herr : (c.merge batch rid subscriptions).1 = .error err) :
    (c.merge batch rid subscriptions).2.store.direct = c.store.direct := by
  rcases merge_run h hdisjoint rid subscriptions with
    ⟨_, hmerge, _⟩ | ⟨created, w, c', _, hmerges, hmerge, _, hpruned⟩
  · rw [hmerge]
  · have hget := Store.announces_settleLoaded.get?_foldl w.store created
    rw [hmerge] at herr ⊢
    rcases Store.claim_cases (created.foldl Store.settleLoaded w.store) rid subscriptions with
      ⟨_, hclaim⟩ | ⟨e, he, hl, _, _, hclaim⟩
    · rw [hclaim] at hpruned
      funext x
      refine (hpruned.direct x).trans (Eq.trans ?_ (hmerges.direct x))
      unfold Store.direct
      rw [hget]
    · rw [hget] at he
      have hsound := hmerges.sturdy.entry he
      obtain ⟨r, hr⟩ := Option.isSome_iff_exists.mp (hsound.filled hl)
      have hkind := hsound.kind
      rw [hr] at hkind
      have hok := (hclaim _).mpr (Entry.handle?_of_filled hkind hr hl)
      cases hok.symm.trans herr

theorem direct_of_fetched {shared : Ticket} {fault : Fault} (h : c.Tidy root)
    (hfair : c.store.Fair) (hdisjoint : RepliesDisjoint reply)
    (herr : (c.fetched rid shared reply).1 = .error fault) :
    (c.fetched rid shared reply).2.store.direct = c.store.direct := by
  have hrefused : (c.mergeReply rid 1 reply).1 = .error fault := herr
  have hfair' : (c.mergeReply rid 1 reply).2.store.Fair := by
    rcases mergeReply_tally hfair rid 1 reply with ⟨hsame, _⟩ | hcounted
    · exact hfair.of_tally hsame
    · exact hfair.of_update hcounted fun _ => rfl
  have hclose : (c.fetched rid shared reply).2.store.direct =
      (c.mergeReply rid 1 reply).2.store.direct :=
    Store.direct_of_tally (closeFetch_tally hfair' rid (c.mergeReply rid 1 reply).1)
  rw [hclose]
  unfold mergeReply at hrefused ⊢
  cases reply with
  | error fault => rfl
  | ok snapshot =>
    dsimp only at hrefused ⊢
    cases hbatch : Batch.ofJson snapshot with
    | error err => rfl
    | ok batch =>
      rw [hbatch] at hrefused
      dsimp only at hrefused ⊢
      cases hmerge : (c.merge batch rid 1).1 with
      | ok handle =>
        rw [show c.merge batch rid 1 = (.ok handle, (c.merge batch rid 1).2) from
          Prod.ext hmerge rfl] at hrefused
        cases hrefused
      | error err =>
        have hsame := direct_of_refused h (hdisjoint snapshot batch rfl hbatch) hmerge
        rw [show c.merge batch rid 1 = (.error err, (c.merge batch rid 1).2) from
          Prod.ext hmerge rfl]
        exact hsame

theorem leave_ok (h : c.Tidy fun r => root r ∨ r = rid) : (c.leave rid).1 = .ok () := by
  unfold leave
  cases he : c.store.get? rid with
  | none => rfl
  | some e =>
    dsimp only
    split
    · have hput : ({ c with store := c.store.put rid { e with stale := false } } : Cache).Tidy
          fun r => root r ∨ r = rid := h.put he rfl .inl
      obtain ⟨gone, s', hrun, _⟩ :=
        @Op.tryDelete_spec _ rid {} _ _ hput.rest (fun _ => .inr) hput.held_or
      simp only [run, hrun]
    · rfl

/-- To give up a subscription that is there fails only if the server refuses. -/
theorem unsubscribe_ok (h : c.Tidy root) (hpos : 0 < c.store.direct rid) :
    ∃ leaving, (c.unsubscribe rid).1 = .ok leaving := by
  rcases c.unsubscribe_cases rid with ⟨hzero, _⟩ | ⟨e, he, _, hcases⟩
  · omega
  · rcases hcases with ⟨_, heq⟩ | ⟨_, _, heq⟩ | ⟨_, _, left, hleave, heq⟩
    · exact ⟨.done, by rw [heq]⟩
    · exact ⟨.asking, by rw [heq]⟩
    · have hput : ({ c with store := c.store.put rid e.unsubscribed } : Cache).Tidy
          fun r => root r ∨ r = rid :=
        (h.weaken fun _ => .inl).put he rfl fun _ => .inr (.inr rfl)
      refine ⟨.done, ?_⟩
      rw [heq, ← hleave, leave_ok hput]
      rfl

end

end Cache

end LiveResource
