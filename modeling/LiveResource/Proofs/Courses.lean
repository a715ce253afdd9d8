import LiveResource.Proofs.Filling
import LiveResource.Proofs.Stages

set_option autoImplicit false

/-!
# The course of a merge, an event and a reply

Whatever a cache takes from the server is merged or edits a loaded resource first, and then what has
become unreachable is evicted. So the store in between is reached by a relation that goes through
merges and edits, and what is left by one that goes through evictions. Unlike an upkeep this needs a
store at rest and quiet hooks, for only then a merge is refused or done as a whole.
-/

namespace LiveResource

namespace Store

/-- `R` goes through merges, edits, announcements and claims, and `P` through evictions. -/
structure Course (registry : Registry) (R P : Store → Store → Prop) : Prop extends Purge P where
  begins : ∀ s, R s s
  goes : ∀ {s s' s''}, R s s' → R s' s'' → R s s''
  add : ∀ {w : Work} {batch : Batch} {extra : String → Nat}, registry.Bare ∨ batch.Disjoint →
    w.store.Rests extra → R w.store ((Op.addResources registry batch).left w).store
  edit : ∀ {touched : String → Prop} {w w' : Work}, w.Alters touched w' → R w.store w'.store
  tell : ∀ {s s'}, s.Agrees s' → (∀ x, s'.get? x = s.get? x) → R s s'
  claim : ∀ {s rid e} (subscriptions : Nat), s.get? rid = some e → e.loaded = true →
    R s (s.put rid (e.claimed subscriptions))
  drop : ∀ {s rid e}, s.get? rid = some e → e.loaded = true → P s (s.put rid e.dropped)

end Store

namespace Store.Course

open Op

variable {registry : Registry} {R P : Store → Store → Prop} (hC : Course registry R P) {w : Work}
  {batch : Batch} {rid name : String} {data : Option Json} {extra : String → Nat}
  {root : String → Prop}

include hC

theorem announce {tell : Store → String → Store} (h : Announces tell) (s : Store)
    (created : List String) : R s (created.foldl tell s) :=
  hC.tell (h.agrees_foldl s created) (h.get?_foldl s created)

theorem mergeEmbedded (rid name : String) {json : Json}
    (hbare : ∀ batch, Batch.ofJson json = .ok batch → registry.Bare ∨ batch.Disjoint)
    (h : w.store.Rests extra) :
    R w.store ((Op.mergeEmbedded registry rid name json).left w).store := by
  cases hof : Batch.ofJson json with
  | error flaw =>
    rw [left_of_error (mergeEmbedded_of_malformed hof)]
    exact hC.begins _
  | ok batch =>
    have hadd := hC.add (hbare batch hof) h
    cases hrun : Op.addResources registry batch w with
    | error err w' =>
      rw [left_of_error hrun] at hadd
      rw [left_of_error (mergeEmbedded_of_refused hof hrun)]
      exact hadd
    | ok created w' =>
      rw [left_of_ok hrun] at hadd
      rw [left_of_ok (mergeEmbedded_of_ok hof hrun)]
      exact hC.goes hadd (hC.announce announces_settlePresent _ _)

theorem revises {op : Op Unit} (h : Revises rid w (op w)) : R w.store (op.left w).store := by
  unfold left
  cases hrun : op w with
  | ok _ w' =>
    rw [hrun] at h
    exact hC.edit h.toAlters
  | error err w' =>
    rw [hrun] at h
    rw [h.1]
    exact hC.begins _

theorem applyEvent {e : Entry} (hregistry : registry.Quiet)
    (hbare : registry.Bare ∨ EmbedsDisjoint data) (h : w.Steady extra root)
    (he : w.store.get? rid = some e) (hloaded : e.loaded = true) :
    R w.store ((Op.applyEvent registry rid e.kind name data).left w).store := by
  cases hbatch : hasBatch (membersOf data) with
  | false =>
    rw [applyEvent_of_not_hasBatch hbatch]
    exact hC.revises (revises_named data h.rest.sound.sturdy he hloaded rfl)
  | true =>
    have hembedded (batch : Batch) (hof : Batch.ofJson (.obj (membersOf data)) = .ok batch) :
        registry.Bare ∨ batch.Disjoint :=
      hbare.imp_right fun hdisjoint => embedded_disjoint hbatch hdisjoint hof
    have hmerged := hC.mergeEmbedded rid name hembedded h.rest
    rw [applyEvent_of_hasBatch hbatch, left_bind]
    cases hrun : Op.mergeEmbedded registry rid name (.obj (membersOf data)) w with
    | error err w' =>
      rw [left_of_error hrun] at hmerged
      exact hmerged
    | ok _ w' =>
      rw [left_of_ok hrun] at hmerged
      refine hC.goes hmerged ?_
      cases hof : Batch.ofJson (.obj (membersOf data)) with
      | error flaw =>
        rw [mergeEmbedded_of_malformed hof] at hrun
        cases hrun
      | ok batch =>
        rcases @mergeEmbedded_spec root w registry rid name batch extra _ hregistry hof
          (hembedded batch hof) h with ⟨err, _, hrefused, _⟩ | ⟨_, _, _, _, hrun', hsteady, hkept⟩
        · cases hrun.symm.trans hrefused
        · cases hrun.symm.trans hrun'
          obtain ⟨e', he', hl', hkind'⟩ := hkept rid e he hloaded
          exact hC.revises (revises_named data hsteady.rest.sound.sturdy he' hl' hkind')

end Store.Course

namespace Store.Course

variable {R P : Store → Store → Prop} {c : Cache} (hC : Course c.registry R P) {batch : Batch}
  {data : Option Json} {reply : Outcome Json} {extra : String → Nat} {root : String → Prop}

include hC

theorem merge (h : c.Kept extra root) (hbare : c.registry.Bare ∨ batch.Disjoint) (rid : String)
    (subscriptions : Nat) :
    ∃ m, R c.store m ∧ P m (c.merge batch rid subscriptions).2.store := by
  have hadd : R c.store ((Op.addResources c.registry batch).left ⟨c.store, {}⟩).store :=
    hC.add (w := ⟨c.store, {}⟩) hbare h.rest
  unfold Cache.merge Cache.run
  cases hrun : Op.addResources c.registry batch ⟨c.store, {}⟩ with
  | error err w =>
    rw [Op.left_of_error hrun] at hadd
    exact ⟨_, hadd, hC.refl _⟩
  | ok created w =>
    rw [Op.left_of_ok hrun] at hadd
    have htold := hC.goes hadd (hC.announce announces_settleLoaded w.store created)
    have hclaim : R c.store
        ((created.foldl Store.settleLoaded w.store).claim rid subscriptions).2 := by
      rcases claim_cases (created.foldl Store.settleLoaded w.store) rid subscriptions with
        ⟨err, hclaim⟩ | ⟨e, he, hl, _, hclaim, _⟩
      · rw [hclaim]
        exact htold
      · rw [hclaim]
        exact hC.goes htold (hC.claim subscriptions he hl)
    refine ⟨_, hclaim, ?_⟩
    dsimp only
    generalize (created.foldl Store.settleLoaded w.store).claim rid subscriptions = claimed
    obtain ⟨result, s⟩ := claimed
    have hflush := hC.flush { c with store := s }
      { w.out with orphans := w.out.orphans ++ created }
    dsimp only at hflush ⊢
    split <;> rename_i hend <;> rw [hend] at hflush <;> exact hflush

theorem mergeReply (h : c.Kept extra root)
    (hbare : c.registry.Bare ∨ Cache.RepliesDisjoint reply) (rid : String) (subscriptions : Nat) :
    ∃ m, R c.store m ∧ P m (c.mergeReply rid subscriptions reply).2.store := by
  unfold Cache.mergeReply
  cases reply with
  | error fault => exact ⟨_, hC.begins _, hC.refl _⟩
  | ok snapshot =>
    dsimp only
    cases hbatch : Batch.ofJson snapshot with
    | error err => exact ⟨_, hC.begins _, hC.refl _⟩
    | ok batch =>
      have hmerged := hC.merge h (hbare.imp_right fun hdisjoint =>
        hdisjoint snapshot batch rfl hbatch) rid subscriptions
      dsimp only
      cases hmerge : c.merge batch rid subscriptions with
      | mk result c' =>
        rw [hmerge] at hmerged
        cases result <;> exact hmerged

theorem handleEvent (h : c.Kept extra root) (hbare : c.registry.Bare ∨ EmbedsDisjoint data)
    (rid name : String) : ∃ m, R c.store m ∧ P m (c.handleEvent rid name data).2.store := by
  unfold Cache.handleEvent
  cases he : c.store.get? rid with
  | none => exact ⟨_, hC.begins _, hC.refl _⟩
  | some e =>
    dsimp only
    split
    · exact ⟨_, hC.begins _, hC.refl _⟩
    · rename_i hready
      have hloaded : e.loaded = true := by
        simp only [Bool.or_eq_true, Bool.not_eq_true', not_or, Bool.not_eq_false] at hready
        exact hready.2
      have happlied : ∃ m, R c.store m ∧
          P m (c.run (Cache.eventOp c.registry e rid name data)).2.2.store := by
        rw [Cache.store_run]
        unfold Cache.eventOp
        by_cases hname : name = "unsubscribe"
        · simp only [if_pos hname]
          have hended := hC.endSubscription rid (Cache.reasonOf data) ⟨c.store, {}⟩
          rw [modify_eq_put he] at hended
          exact ⟨_, hC.begins _, hC.trans (hC.drop he hloaded) hended⟩
        · simp only [if_neg hname]
          exact ⟨_, hC.applyEvent h.registry hbare h.steady he hloaded, hC.refl _⟩
      obtain ⟨m, hbefore, hafter⟩ := happlied
      have hflushed := hC.trans hafter (hC.flush _
        (c.run (Cache.eventOp c.registry e rid name data)).2.1)
      refine ⟨m, hbefore, ?_⟩
      generalize c.run (Cache.eventOp c.registry e rid name data) = ran at hflushed
      obtain ⟨applied, out, c'⟩ := ran
      dsimp only at hflushed ⊢
      generalize c'.flush out = flushed at hflushed
      obtain ⟨result, c''⟩ := flushed
      cases result with
      | error err => exact hflushed
      | ok _ => cases applied <;> exact hflushed

end Store.Course

end LiveResource
