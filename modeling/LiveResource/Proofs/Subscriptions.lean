import LiveResource.Proofs.Stages

set_option autoImplicit false

/-!
# What becomes of subscriptions

Only to unsubscribe, to be unsubscribed by the server and to fail to resubscribe cost a
subscription. As long as a resource is subscribed, only events and snapshots of its own change its
replica.
-/

namespace LiveResource

/-- Nothing but what is `lost` has fewer subscriptions than before, and what is still subscribed and
not `touched` has the same contents. -/
structure Store.Holds (lost touched : String → Prop) (s s' : Store) : Prop where
  direct : ∀ x, ¬ lost x → s.direct x ≤ s'.direct x
  held : ∀ {x e}, s.get? x = some e → 0 < e.direct → 0 < s'.direct x → ¬ touched x →
    ∃ e', s'.get? x = some e' ∧ e'.replica = e.replica ∧ e'.loaded = e.loaded

namespace Store

variable {lost touched touched' : String → Prop} {s s' s'' : Store} {rid : String} {e e' : Entry}

theorem Keeps.holds (h : s.Keeps touched s') : s.Holds lost touched s' := by
  exact ⟨fun x _ => Nat.le_of_eq (h.direct x).symm, fun he hpos _ hx => h.held he hpos hx⟩

namespace Holds

theorem refl (s : Store) : s.Holds lost touched s := (Keeps.refl s).holds

theorem mono (h : s.Holds lost touched s') (himp : ∀ x, touched x → touched' x) :
    s.Holds lost touched' s' :=
  ⟨h.direct, fun he hpos hpos' hx => h.held he hpos hpos' fun ht => hx (himp _ ht)⟩

theorem weaken (h : s.Holds (fun _ => False) touched s') : s.Holds lost touched s' :=
  ⟨fun x _ => h.direct x id, h.held⟩

theorem trans (h : s.Holds (fun _ => False) touched s') (h' : s'.Holds lost touched s'') :
    s.Holds lost touched s'' := by
  refine ⟨fun x hx => Nat.le_trans (h.direct x id) (h'.direct x hx),
    fun {x e} he hpos hpos'' hx => ?_⟩
  have hle := h.direct x id
  rw [direct_of_get? he] at hle
  have hpos' : 0 < s'.direct x := by omega
  obtain ⟨e', he', hreplica, hloaded⟩ := h.held he hpos hpos' hx
  rw [direct_of_get? he'] at hpos'
  obtain ⟨e'', he'', hreplica', hloaded'⟩ := h'.held he' hpos' hpos'' hx
  exact ⟨e'', he'', hreplica'.trans hreplica, hloaded'.trans hloaded⟩

theorem trans_keeps (h : s.Holds lost touched s') (h' : s'.Keeps touched s'') :
    s.Holds lost touched s'' := by
  refine ⟨fun x hx => ?_, fun {x e} he hpos hpos'' hx => ?_⟩
  · rw [h'.direct]
    exact h.direct x hx
  · rw [h'.direct] at hpos''
    obtain ⟨e', he', hreplica, hloaded⟩ := h.held he hpos hpos'' hx
    rw [direct_of_get? he'] at hpos''
    obtain ⟨e'', he'', hreplica', hloaded'⟩ := h'.held he' hpos'' hx
    exact ⟨e'', he'', hreplica'.trans hreplica, hloaded'.trans hloaded⟩

theorem put (he : s.get? rid = some e) (hdirect : lost rid ∨ e.direct ≤ e'.direct)
    (hreplica : e'.replica = e.replica) (hloaded : e'.loaded = e.loaded) :
    s.Holds lost touched (s.put rid e') := by
  refine ⟨fun x hx => ?_, fun {x ex} hget _ _ _ => ?_⟩
  · rw [direct_put]
    by_cases heq : rid = x
    · subst heq
      rw [if_pos rfl, direct_of_get? he]
      exact hdirect.resolve_left hx
    · exact Nat.le_of_eq (if_neg heq).symm
  · rw [get?_put]
    by_cases heq : rid = x
    · subst heq
      rw [he] at hget
      cases hget
      exact ⟨e', if_pos rfl, hreplica, hloaded⟩
    · exact ⟨ex, by rw [if_neg heq, hget], rfl, rfl⟩

theorem modify {f : Entry → Entry} (hdirect : lost rid ∨ ∀ e, e.direct ≤ (f e).direct)
    (hcontent : ∀ e, (f e).replica = e.replica ∧ (f e).loaded = e.loaded) :
    s.Holds lost touched (s.modify rid f) := by
  cases he : s.get? rid with
  | none =>
    rw [modify_of_none he]
    exact refl s
  | some e =>
    rw [modify_eq_put he]
    exact put he (hdirect.imp_right fun h => h e) (hcontent e).1 (hcontent e).2

end Holds

theorem keeps_settle (s : Store) (t : Ticket) (outcome : Outcome Unit) :
    s.Keeps touched (s.settle t outcome) := .of_get? fun _ => rfl

theorem direct_modify_dropped (s : Store) (rid : String) :
    (s.modify rid Entry.dropped).direct rid = 0 := by
  unfold direct
  rw [get?_modify, if_pos rfl]
  cases s.get? rid <;> rfl

theorem holds_claimed (he : s.get? rid = some e) (subscriptions : Nat) :
    s.Holds lost touched (s.put rid (e.claimed subscriptions)) :=
  .put he (.inr (Nat.le_add_right _ _)) rfl rfl

theorem holds_dropped (s : Store) (rid : String) :
    s.Holds (· = rid) touched (s.modify rid Entry.dropped) :=
  .modify (.inl rfl) fun _ => ⟨rfl, rfl⟩

end Store

namespace Op

variable {touched lost : String → Prop} {registry : Registry} {rid name : String}
  {data : Option Json}

theorem keeps_applyEvent (registry : Registry) (hrid : touched rid)
    (h : ∀ x, Embeds data x → touched x) (kind : Option Kind) (name : String) :
    (applyEvent registry rid kind name data).Keeps touched :=
  (Store.Keeps.upkeep touched).applyEvent registry hrid h kind name

theorem endSubscription_holds (rid : String) (reason : Fault) (w : Work) :
    w.store.Holds (· = rid) touched ((endSubscription rid reason).left w).store ∧
      ((endSubscription rid reason).left w).store.direct rid = 0 := by
  have hkeeps := (Store.Keeps.upkeep touched).endSubscription rid reason w
  exact ⟨(Store.holds_dropped w.store rid).trans_keeps hkeeps,
    (hkeeps.direct rid).trans (Store.direct_modify_dropped w.store rid)⟩

end Op

namespace Cache

variable {lost touched : String → Prop} {c : Cache} {rid name : String} {batch : Batch}
  {reply : Outcome Json}

theorem flush_keeps (c : Cache) (out : Output) : c.store.Keeps touched (c.flush out).2.store :=
  (Store.Keeps.upkeep touched).flush c out

theorem merge_holds (c : Cache) (h : ∀ x, batch.contains x = true → touched x) (rid : String)
    (subscriptions : Nat) : c.store.Holds lost touched (c.merge batch rid subscriptions).2.store := by
  rcases (Store.Keeps.upkeep touched).merge c batch h rid subscriptions with
    ⟨hkept, _⟩ | ⟨s, e, hbefore, he, _, _, hafter, _⟩
  · exact hkept.holds
  · exact (hbefore.holds.trans (Store.holds_claimed he subscriptions)).trans_keeps hafter

theorem mergeReply_holds (c : Cache) (rid : String) (subscriptions : Nat) (reply : Outcome Json) :
    c.store.Holds lost (Brings reply) (c.mergeReply rid subscriptions reply).2.store := by
  rcases (Store.Keeps.upkeep (Brings reply)).mergeReply c (fun _ => id) rid subscriptions with
    ⟨hkept, _⟩ | ⟨s, e, hbefore, he, _, _, hafter, _⟩
  · exact hkept.holds
  · exact (hbefore.holds.trans (Store.holds_claimed he subscriptions)).trans_keeps hafter

theorem closeFetch_keeps (s : Store) (rid : String) (result : Outcome Handle) :
    s.Keeps touched (closeFetch s rid result) := by
  unfold closeFetch
  cases he : s.get? rid with
  | none => exact .refl s
  | some e =>
    dsimp only
    have hput : s.Keeps touched (s.put rid { e with subscribing := none }) :=
      .put he rfl (.inr ⟨rfl, rfl⟩)
    split
    · exact hput
    · split
      · rename_i hidle
        rw [Bool.and_eq_true, Bool.and_eq_true, beq_iff_eq, beq_iff_eq] at hidle
        refine (hput.trans (Store.keeps_settle _ _ _)).trans
          (@Store.Keeps.foldl_remove touched _ [rid] fun x hx => ?_)
        rw [List.mem_singleton.mp hx]
        change (s.put rid { e with subscribing := none }).direct rid = 0
        rw [Store.direct_put, if_pos rfl]
        exact hidle.1.2
      · exact hput

theorem fetched_holds (c : Cache) (rid : String) (shared : Ticket) (reply : Outcome Json) :
    c.store.Holds lost (Brings reply) (c.fetched rid shared reply).2.store := by
  have hmerge : c.store.Holds lost (Brings reply) (c.mergeReply rid 1 reply).2.store :=
    c.mergeReply_holds rid 1 reply
  exact hmerge.trans_keeps ((closeFetch_keeps _ rid _).trans (Store.keeps_settle _ _ _))

theorem subscribe_holds (c : Cache) (rid : String) :
    c.store.Holds lost touched (c.subscribe rid).2.store := by
  have hobtain : c.store.Keeps touched (c.store.obtain rid).2 := .obtain c.store rid
  have hget := Store.get?_obtain c.store rid
  unfold subscribe
  generalize c.store.obtain rid = obtained at hobtain hget
  obtain ⟨e, s⟩ := obtained
  dsimp only at hobtain hget ⊢
  split
  · exact hobtain.holds.trans (.put hget (.inr (Nat.le_succ _)) rfl rfl)
  · split
    · exact hobtain.holds
    · have hissue : s.Keeps touched { s with ledger := s.ledger.issue.2 } := .of_get? fun _ => rfl
      have hput : ({ s with ledger := s.ledger.issue.2 } : Store).Keeps touched
          (({ s with ledger := s.ledger.issue.2 } : Store).put rid
            { e with subscribing := some s.ledger.issue.1 }) := .put hget rfl (.inr ⟨rfl, rfl⟩)
      exact (hobtain.trans (hissue.trans hput)).holds

theorem join_holds (c : Cache) (rid : String) (outcome : Outcome Unit) :
    c.store.Holds lost touched (c.join rid outcome).2.store := by
  unfold join
  split
  · exact .refl _
  · split
    · exact .refl _
    · rename_i e he
      exact .put he (.inr (Nat.le_succ _)) rfl rfl

theorem leave_keeps (c : Cache) (rid : String) : c.store.Keeps touched (c.leave rid).2.store := by
  rcases (Store.Keeps.upkeep touched).leave c rid with ⟨_, hsame⟩ | ⟨e, he, _, hafter⟩
  · rw [hsame]
    exact .refl _
  · have hput : c.store.Keeps touched (c.store.put rid e.left) := .put he rfl (.inr ⟨rfl, rfl⟩)
    exact hput.trans hafter

theorem unsubscribe_holds (c : Cache) (rid : String) :
    c.store.Holds (· = rid) touched (c.unsubscribe rid).2.store := by
  rcases c.unsubscribe_cases rid with ⟨_, hsame⟩ | ⟨e, he, _, hcases⟩
  · rw [hsame]
    exact .refl _
  · have hput : c.store.Holds (· = rid) touched (c.store.put rid e.unsubscribed) :=
      .put he (.inl rfl) rfl rfl
    rcases hcases with ⟨_, heq⟩ | ⟨_, _, heq⟩ | ⟨_, _, left, hleave, heq⟩
    · rw [heq]
      exact hput
    · rw [heq]
      exact hput
    · rw [heq, ← hleave]
      exact hput.trans_keeps (leave_keeps { c with store := c.store.put rid e.unsubscribed } rid)

theorem released_holds (c : Cache) (rid : String) (reply : Outcome Unit) :
    c.store.Holds lost touched (c.released rid reply).2.store := by
  unfold released
  split
  · exact (c.leave_keeps rid).holds
  · exact .modify (.inr fun e => Nat.le_succ _) fun _ => ⟨rfl, rfl⟩

theorem setAllStale_keeps (c : Cache) : c.store.Keeps touched c.setAllStale.2.store := by
  refine ⟨c.direct_setAllStale, fun {x e} he _ _ => ?_⟩
  rw [get?_setAllStale, he]
  refine ⟨_, rfl, ?_, ?_⟩
  · dsimp only
    split <;> rfl
  · dsimp only
    split <;> rfl

theorem dropSubscription_holds (c : Cache) (rid : String) (reason : Fault) :
    c.store.Holds (· = rid) touched (c.dropSubscription rid reason).store ∧
      (c.dropSubscription rid reason).store.direct rid = 0 := by
  have hkeeps := (Store.Keeps.upkeep touched).dropSubscription c rid reason
  exact ⟨(Store.holds_dropped c.store rid).trans_keeps hkeeps,
    (hkeeps.direct rid).trans (Store.direct_modify_dropped c.store rid)⟩

theorem resubscribed_holds (c : Cache) (rid : String) (reply : Outcome Json) :
    c.store.Holds (· = rid) (Brings reply) (c.resubscribed rid reply).store := by
  have hmerge : c.store.Holds (fun _ => False) (Brings reply) (c.mergeReply rid 0 reply).2.store :=
    c.mergeReply_holds rid 0 reply
  unfold resubscribed
  split
  · rename_i hdone
    rw [hdone] at hmerge
    exact hmerge.weaken
  · rename_i reason c' hfailed
    rw [hfailed] at hmerge
    exact hmerge.trans (c'.dropSubscription_holds rid reason).1

/-- A resubscription whose reply can be merged costs nothing. -/
theorem direct_le_resubscribed {handle : Handle} (h : (c.mergeReply rid 0 reply).1 = .ok handle) :
    c.store.direct rid ≤ (c.resubscribed rid reply).store.direct rid := by
  have hmerge : c.store.Holds (fun _ => False) (Brings reply) (c.mergeReply rid 0 reply).2.store :=
    c.mergeReply_holds rid 0 reply
  have hdirect := hmerge.direct rid id
  unfold resubscribed
  generalize c.mergeReply rid 0 reply = merged at h hdirect
  obtain ⟨result, c'⟩ := merged
  cases h
  exact hdirect

/-- A failed resubscription costs all subscriptions of its resource. -/
theorem direct_resubscribed_error (c : Cache) (rid : String) (fault : Fault) :
    (c.resubscribed rid (.error fault)).store.direct rid = 0 :=
  (@dropSubscription_holds (fun _ => False) c rid fault).2

theorem handleEvent_holds (c : Cache) (rid name : String) (data : Option Json) :
    c.store.Holds (fun x => x = rid ∧ name = "unsubscribe") (fun x => x = rid ∨ Embeds data x)
      (c.handleEvent rid name data).2.store := by
  have hU := Store.Keeps.upkeep fun x => x = rid ∨ Embeds data x
  rcases hU.handleEvent c rid name data (.inl rfl) fun _ => .inr with
    hsame | ⟨hname, hafter⟩ | ⟨_, hafter⟩
  · rw [hsame]
    exact .refl _
  · have hdropped := (Store.holds_dropped c.store rid).trans_keeps hafter
    exact ⟨fun x hx => hdropped.direct x fun heq => hx ⟨heq, hname⟩, hdropped.held⟩
  · exact hafter.holds

end Cache

end LiveResource
