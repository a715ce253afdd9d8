import LiveResource.Cache.Call
import LiveResource.Proofs.Operations

set_option autoImplicit false

/-!
# Calls in progress

Every step of a call leaves the cache in order. While the server is asked to end a subscription its
resource is kept as a root, and it is no root any more once the answer is there.
-/

namespace LiveResource

namespace Store

variable {s : Store} {rid : String} {e : Entry} {root : String → Prop} {extra : String → Nat}

theorem get?_of_remove {x : String} {ex : Entry} (hx : (s.remove rid).get? x = some ex) :
    s.get? x = some ex ∧ rid ≠ x := by
  rw [get?_remove] at hx
  split at hx
  · cases hx
  · rename_i hne
    exact ⟨hx, hne⟩

theorem linked_remove_unloaded (he : s.get? rid = some e) (hunloaded : e.loaded = false)
    (t : String) : (s.remove rid).linked t = s.linked t := by
  have hget : s.entries.get? rid = some e := he
  have herase := Dict.total_erase s.entries (fun _ e => e.links.count t) rid
  rw [hget, Option.map_some, Option.getD_some, Entry.links_of_not_loaded hunloaded] at herase
  exact herase

theorem Sturdy.remove_unloaded (h : s.Sturdy) (he : s.get? rid = some e)
    (hunloaded : e.loaded = false) (hindirect : e.indirect = 0) : (s.remove rid).Sturdy := by
  refine ⟨fun {x ex} hx => h.entry (get?_of_remove hx).1, fun {x ex} hx => ?_,
    fun {x ex t} hx ht => ?_⟩
  · rw [linked_remove_unloaded he hunloaded]
    exact h.enough (get?_of_remove hx).1
  · obtain ⟨et, het, hr⟩ := hasReplica_iff.mp (h.closed (get?_of_remove hx).1 ht)
    have hne : rid ≠ t := fun heq => by
      subst heq
      have hpos := List.count_pos_iff.mpr ht
      have hle : ex.links.count rid ≤ s.linked rid := links_le_linked (get?_of_remove hx).1
      have henough := h.enough he
      omega
    exact hasReplica_iff.mpr ⟨et, by rw [get?_remove, if_neg hne, het], hr⟩

theorem remove_unloaded (h : s.Rests extra) (hrooted : s.Rooted root) (he : s.get? rid = some e)
    (hunloaded : e.loaded = false) (hdirect : e.direct = 0) (hindirect : e.indirect = 0) :
    (s.remove rid).Rests extra ∧ (s.remove rid).Rooted root := by
  have hold {x : String} {ex : Entry} (hx : (s.remove rid).get? x = some ex) :=
    (get?_of_remove hx).1
  refine ⟨⟨.of_sturdy (h.sound.sturdy.remove_unloaded he hunloaded hindirect) (fun {x ex} hx => ?_)
    fun {x} hpos => ?_, fun x ex hx => h.settled x ex (hold hx),
    fun {x ex} hx => h.announced (hold hx)⟩, ?_⟩
  · rw [linked_remove_unloaded he hunloaded]
    exact h.sound.balance (hold hx)
  · obtain ⟨ex, hex, hr⟩ := hasReplica_iff.mp (h.sound.resident hpos)
    have hne : rid ≠ x := fun heq => by
      subst heq
      have hbalance := h.sound.balance he
      omega
    exact hasReplica_iff.mpr ⟨ex, by rw [get?_remove, if_neg hne, hex], hr⟩
  · refine hrooted.mono (fun r hr => hr.imp_left fun hpos => ?_) (fun x hx => ?_)
      (fun a b hab => .inl ?_)
    · have hne : rid ≠ r := fun heq => by
        rw [← heq, direct_of_get? he] at hpos
        omega
      unfold direct at hpos ⊢
      rw [get?_remove, if_neg hne]
      exact hpos
    · obtain ⟨ex, hex, hl⟩ := isLoaded_iff.mp hx
      exact .inl (isLoaded_iff.mpr ⟨ex, hold hex, hl⟩)
    · obtain ⟨ea, hea, hb⟩ := get?_of_mem_links hab
      have hne : rid ≠ a := fun heq => by
        rw [← heq, he] at hea
        cases hea
        rw [Entry.links_of_not_loaded hunloaded] at hb
        cases hb
      rw [links_of_get? (by rw [get?_remove, if_neg hne, hea])]
      exact hb

end Store

namespace Cache

variable {root root' : String → Prop} {c : Cache} {rid : String} {extra : String → Nat}

theorem subscribe_spec (h : c.Kept extra root) (rid : String) :
    (c.subscribe rid).2.Kept extra root := by
  obtain ⟨e, s', hobtain, hget, hrest, hrooted, _⟩ := Store.obtain_spec h.rest h.held rid
  have hobtained : ({ c with store := s' } : Cache).Kept extra root := h.withStore hrest hrooted
  unfold subscribe
  rw [hobtain]
  dsimp only
  split
  · exact hobtained.put hget rfl fun _ => .inl (Nat.succ_pos _)
  · split
    · exact hobtained
    · have hissue : s'.Agrees { s' with ledger := s'.ledger.issue.2 } := ⟨fun _ => rfl, fun _ => id⟩
      have hissued : ({ c with store := { s' with ledger := s'.ledger.issue.2 } } : Cache).Kept
          extra root := hobtained.agrees hissue fun _ => id
      have hget' : ({ s' with ledger := s'.ledger.issue.2 } : Store).get? rid = some e := hget
      exact hissued.put hget' rfl .inl

def RepliesDisjoint (reply : Outcome Json) : Prop :=
  ∀ snapshot batch, reply = .ok snapshot → Batch.ofJson snapshot = .ok batch → batch.Disjoint

theorem mergeReply_spec {reply : Outcome Json} (h : c.Kept extra root)
    (hbare : c.registry.Bare ∨ RepliesDisjoint reply) (rid : String) (subscriptions : Nat) :
    (c.mergeReply rid subscriptions reply).2.KeptUnless (RepliesDisjoint reply) extra root := by
  unfold mergeReply
  cases reply with
  | error fault => exact .of_kept h
  | ok snapshot =>
    dsimp only
    cases hbatch : Batch.ofJson snapshot with
    | error err =>
      refine .of_kept (h.report fun x heq => ?_)
      cases heq
    | ok batch =>
      dsimp only
      have hlegal (hdisjoint : RepliesDisjoint (.ok snapshot)) := hdisjoint snapshot batch rfl hbatch
      obtain ⟨hkept, herr⟩ := merge_kept h (hbare.imp_right hlegal) rid subscriptions
      cases hmerge : c.merge batch rid subscriptions with
      | mk result c' =>
        rw [hmerge] at hkept herr
        refine hkept.imp hlegal fun extra hkept => ?_
        cases result with
        | ok handle => exact hkept
        | error err => exact hkept.report (herr err rfl)

theorem closeFetch_spec {s : Store} (h : s.Rests extra) (hrooted : s.Rooted root) (rid : String)
    (result : Outcome Handle) :
    (closeFetch s rid result).Rests extra ∧ (closeFetch s rid result).Rooted root := by
  unfold closeFetch
  cases he : s.get? rid with
  | none => exact ⟨h, hrooted⟩
  | some e =>
    dsimp only
    have hagrees : s.Agrees (s.put rid { e with subscribing := none }) := Store.agrees_put he rfl
    have hheld : 0 < e.direct → 0 < { e with subscribing := none }.direct ∨ root rid := .inl
    have hroot : ∀ r, 0 < s.direct r ∨ root r →
        0 < (s.put rid { e with subscribing := none }).direct r ∨ root r := fun r hr =>
      Store.held_put he hheld hr
    have hput := hagrees.rests h
    have hputRooted := hagrees.rooted hrooted hroot
    cases result with
    | ok handle => exact ⟨hput, hputRooted⟩
    | error fault =>
      dsimp only
      split
      · rename_i hidle
        rw [Bool.and_eq_true, Bool.and_eq_true, Bool.not_eq_true', beq_iff_eq, beq_iff_eq] at hidle
        have hsettle := Store.agrees_settle (s.put rid { e with subscribing := none }) e.pending
          (.error fault)
        have hget : ((s.put rid { e with subscribing := none }).settle e.pending
            (.error fault)).get? rid = some { e with subscribing := none } := by
          rw [Store.get?_settle, Store.get?_put, if_pos rfl]
        exact Store.remove_unloaded (hsettle.rests hput)
          (hsettle.rooted hputRooted fun r hr => hr) hget hidle.1.1 hidle.1.2 hidle.2
      · exact ⟨hput, hputRooted⟩

theorem fetched_spec {reply : Outcome Json} (h : c.Kept extra root)
    (hbare : c.registry.Bare ∨ RepliesDisjoint reply) (rid : String) (shared : Ticket) :
    (c.fetched rid shared reply).2.KeptUnless (RepliesDisjoint reply) extra root := by
  refine (mergeReply_spec h hbare rid 1).imp id fun extra hmerged => ?_
  unfold fetched
  dsimp only
  obtain ⟨hrest, hrooted⟩ := closeFetch_spec hmerged.rest hmerged.held rid
    (c.mergeReply rid 1 reply).1
  have hsettle := Store.agrees_settle (closeFetch (c.mergeReply rid 1 reply).2.store rid
    (c.mergeReply rid 1 reply).1) shared ((c.mergeReply rid 1 reply).1.map fun _ => ())
  exact hmerged.withStore (hsettle.rests hrest) (hsettle.rooted hrooted fun r hr => hr)

theorem join_spec (h : c.Kept extra root) (rid : String) (outcome : Outcome Unit) :
    (c.join rid outcome).2.Kept extra root := by
  unfold join
  cases outcome with
  | error fault => exact h
  | ok _ =>
    dsimp only
    split
    · exact h
    · rename_i e he
      exact h.put he rfl fun _ => .inl (Nat.succ_pos _)

theorem Kept.held_or (h : c.Kept extra fun r => root r ∨ r = rid) :
    c.store.Rooted fun r => (root r ∨ 0 < extra r) ∨ r = rid :=
  h.held.weaken fun _ => or_right_comm.mp

theorem leave_spec (h : c.Kept extra fun r => root r ∨ r = rid) :
    (c.leave rid).2.Kept extra root := by
  unfold leave
  cases he : c.store.get? rid with
  | none =>
    refine h.withStore h.rest (h.held_or.drop (.inr ?_))
    unfold Store.isLoaded
    rw [he]
  | some e =>
    dsimp only
    split
    · rename_i hzero
      have hput : ({ c with store := c.store.put rid { e with stale := false } } : Cache).Kept
          extra fun r => root r ∨ r = rid := h.put he rfl .inl
      obtain ⟨gone, s', hrun, hrest, _, hroots⟩ :=
        @Op.tryDelete_spec _ rid {} _ _ hput.rest (fun _ => .inr) hput.held_or
      simp only [run, hrun]
      exact h.withStore hrest hroots
    · rename_i hpos
      refine h.withStore h.rest (h.held_or.drop (.inl ?_))
      rw [Store.direct_of_get? he]
      omega

/-- A resource that was left is evicted if nothing refers to it. -/
theorem get?_leave {e : Entry} (h : c.store.Rests extra) (he : c.store.get? rid = some e)
    (hdirect : e.direct = 0) (hloaded : e.loaded = true) (hindirect : e.indirect = 0) :
    (c.leave rid).2.store.get? rid = none := by
  have hagrees : c.store.Agrees (c.store.put rid { e with stale := false }) :=
    Store.agrees_put he rfl
  have hrest := hagrees.rests h
  have hget : (c.store.put rid { e with stale := false }).get? rid =
      some { e with stale := false } := by rw [Store.get?_put, if_pos rfl]
  have hrun := @Op.tryDelete_run _ _ _ {} hrest.accounted.backed hget hdirect hloaded
  unfold leave
  simp only [he]
  rw [if_pos hdirect]
  simp only [run, hrun]
  rw [Store.get?_evict, if_pos]
  exact Store.mem_doomed_of_unreferenced hrest.accounted hget hdirect hindirect

theorem unsubscribe_spec (h : c.Kept extra root) (rid : String) : (c.unsubscribe rid).2.Kept extra
    fun r => root r ∨ (c.unsubscribe rid).1 = .ok .asking ∧ r = rid := by
  unfold unsubscribe
  cases he : c.store.get? rid with
  | none => exact h.weaken fun _ => .inl
  | some e =>
    dsimp only
    split
    · exact h.weaken fun _ => .inl
    · split
      · rename_i hmany
        have hput : ({ c with store := c.store.put rid { e with direct := e.direct - 1 } } :
            Cache).Kept extra root :=
          h.put he rfl fun _ => .inl (by change 0 < e.direct - 1; omega)
        exact hput.weaken fun _ => .inl
      · have hasked : ({ c with store := c.store.put rid { e with direct := e.direct - 1 } } :
            Cache).Kept extra fun r => root r ∨ r = rid :=
          (h.weaken fun _ => .inl).put he rfl fun _ => .inr (.inr rfl)
        split
        · have hleft := leave_spec hasked
          split
          · rename_i c' hleave
            rw [hleave] at hleft
            exact hleft.weaken fun _ => .inl
          · rename_i fault c' hleave
            rw [hleave] at hleft
            exact hleft.weaken fun _ => .inl
        · exact hasked.weaken fun r hr => hr.imp_right fun heq => ⟨rfl, heq⟩

theorem released_spec (h : c.Kept extra fun r => root r ∨ r = rid) (reply : Outcome Unit) :
    (c.released rid reply).2.Kept extra root := by
  unfold released
  cases reply with
  | ok _ => exact leave_spec h
  | error fault =>
    dsimp only
    cases he : c.store.get? rid with
    | none =>
      rw [Store.modify_of_none he]
      refine h.withStore h.rest (h.held_or.drop (.inr ?_))
      unfold Store.isLoaded
      rw [he]
    | some e =>
      rw [Store.modify_eq_put he]
      have hput : ({ c with store := c.store.put rid { e with direct := e.direct + 1 } } :
          Cache).Kept extra fun r => root r ∨ r = rid :=
        h.put he rfl fun _ => .inl (Nat.succ_pos _)
      refine h.withStore hput.rest (hput.held_or.drop (.inl ?_))
      rw [Store.direct_put, if_pos rfl]
      exact Nat.succ_pos _

theorem dropSubscription_spec (h : c.Kept extra root) (rid : String) (reason : Fault) :
    (c.dropSubscription rid reason).Kept extra root := by
  obtain ⟨w', hrun, hsteady⟩ := @Op.endSubscription_spec _ _ rid _ h.steady reason
  obtain ⟨c', hflush, hkept, _⟩ :=
    @flush_spec root ⟨c.registry, w'.store, c.channel⟩ extra w'.out h.registry hsteady h.silent
  simp only [dropSubscription, run, hrun, hflush]
  exact hkept

theorem resubscribed_spec {reply : Outcome Json} (h : c.Kept extra root)
    (hbare : c.registry.Bare ∨ RepliesDisjoint reply) (rid : String) :
    (c.resubscribed rid reply).KeptUnless (RepliesDisjoint reply) extra root := by
  refine (mergeReply_spec h hbare rid 0).imp id fun extra hmerged => ?_
  unfold resubscribed
  split
  · rename_i handle c' hreply
    rw [hreply] at hmerged
    exact hmerged
  · rename_i reason c' hreply
    rw [hreply] at hmerged
    exact dropSubscription_spec hmerged rid reason

end Cache

end LiveResource
