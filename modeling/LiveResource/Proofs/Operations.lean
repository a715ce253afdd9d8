import LiveResource.Cache.Basic
import LiveResource.Proofs.Filling
import LiveResource.Proofs.Upkeep

set_option autoImplicit false

/-!
# Operations of a cache

Whatever an operation on a cache does, and whether it succeeds or not, it leaves the store at rest,
with everything that is loaded kept by a subscription or a root.
-/

namespace LiveResource

namespace Store

structure Announces (tell : Store → String → Store) : Prop where
  get? : ∀ s rid x, (tell s rid).get? x = s.get? x
  kept : ∀ s rid t, s.ledger.isSettled t = true → (tell s rid).ledger.isSettled t = true
  told : ∀ s rid e, s.get? rid = some e → (tell s rid).ledger.isSettled e.pending = true

theorem announces_settleLoaded : Announces settleLoaded := by
  refine ⟨fun s rid x => ?_, fun s rid t ht => ?_, fun s rid e he => ?_⟩
  · unfold settleLoaded
    split <;> rfl
  · unfold settleLoaded
    split
    · exact ht
    · exact (agrees_settle s _ _).told t ht
  · simp only [settleLoaded, he]
    change (s.ledger.settle e.pending _).isSettled e.pending = true
    rw [Ledger.isSettled_settle, BEq.rfl, Bool.true_or]

theorem announces_settlePresent : Announces settlePresent := by
  refine ⟨fun s rid x => ?_, fun s rid t ht => ?_, fun s rid e he => ?_⟩
  · unfold settlePresent
    split <;> rfl
  · unfold settlePresent
    split
    · exact ht
    · exact (agrees_settle s _ _).told t ht
  · simp only [settlePresent, he]
    change (s.ledger.settle e.pending _).isSettled e.pending = true
    rw [Ledger.isSettled_settle, BEq.rfl, Bool.true_or]

namespace Announces

variable {tell : Store → String → Store} (h : Announces tell)

include h

theorem get?_foldl (s : Store) (created : List String) (x : String) :
    (created.foldl tell s).get? x = s.get? x := by
  induction created generalizing s with
  | nil => rfl
  | cons rid rest ih => rw [List.foldl_cons, ih, h.get?]

theorem kept_foldl (s : Store) (created : List String) (t : Ticket)
    (ht : s.ledger.isSettled t = true) : (created.foldl tell s).ledger.isSettled t = true := by
  induction created generalizing s with
  | nil => exact ht
  | cons rid rest ih => exact ih _ (h.kept s rid t ht)

theorem agrees_foldl (s : Store) (created : List String) : s.Agrees (created.foldl tell s) :=
  ⟨fun x => by rw [h.get?_foldl], fun t ht => h.kept_foldl s created t ht⟩

theorem told_foldl {s : Store} {created : List String} {x : String} (hx : x ∈ created) {e : Entry}
    (he : s.get? x = some e) : (created.foldl tell s).ledger.isSettled e.pending = true := by
  induction created generalizing s with
  | nil => cases hx
  | cons rid rest ih =>
    rw [List.foldl_cons]
    rcases List.mem_cons.mp hx with rfl | hx
    · exact h.kept_foldl _ rest _ (h.told s x e he)
    · exact ih hx (by rw [h.get?]; exact he)

end Announces

end Store

def EmbedsDisjoint (data : Option Json) : Prop :=
  ∀ members batch, data.bind Json.members? = some members →
    Batch.ofJson (.obj members) = .ok batch → batch.Disjoint

namespace Op

variable {root : String → Prop} {w w' : Work} {registry : Registry} {rid name : String}
  {batch : Batch} {extra : String → Nat}

theorem orphans_run (created : List String) (w : Work) : created.forM orphan w =
    .ok () { w with out := { w.out with orphans := w.out.orphans ++ created } } := by
  induction created generalizing w with
  | nil =>
    rw [List.append_nil]
    rfl
  | cons x rest ih =>
    change (orphan x >>= fun _ => rest.forM orphan) w = _
    have hrun : orphan x w =
        .ok () { w with out := { w.out with orphans := w.out.orphans ++ [x] } } := rfl
    rw [bind_of_ok _ hrun, ih]
    simp

theorem endSubscription_spec (h : w.Steady extra root) (reason : Fault) :
    ∃ w', endSubscription rid reason w = .ok () w' ∧ w'.Steady extra root := by
  have hagrees : w.store.Agrees
      (w.store.modify rid fun e => { e with direct := 0, stale := false }) :=
    Store.agrees_modify fun _ => rfl
  have hrooted : (w.store.modify rid fun e => { e with direct := 0, stale := false }).Rooted
      fun r => ((root r ∨ 0 < extra r) ∨ r ∈ w.out.orphans) ∨ r = rid := by
    refine hagrees.rooted h.rooted fun r hr => ?_
    by_cases hrid : r = rid
    · exact .inr (.inr hrid)
    · refine hr.imp (fun hpos => ?_) .inl
      unfold Store.direct at hpos ⊢
      rw [Store.get?_modify, if_neg (Ne.symm hrid)]
      exact hpos
  obtain ⟨gone, s', hrun, hrest, _, hroots⟩ := @tryDelete_spec _ rid w.out extra _
    (hagrees.rests h.rest) (fun r hr => .inl (.inr hr)) hrooted
  refine ⟨⟨s', { w.out with events := w.out.events ++ [.unsubscribe rid reason] }⟩, ?_,
    ⟨hrest, hroots, h.errors⟩⟩
  rw [endSubscription, bind_of_ok _ (modifyStore_run _), bind_of_ok _ hrun]
  rfl

theorem mergeEmbedded_of_malformed {data : Json} {flaw : DecodeError}
    (hof : Batch.ofJson data = .error flaw) : mergeEmbedded registry rid name data w =
      .error (.invalidEvent rid name (.batch flaw)) w := by
  unfold mergeEmbedded
  simp only [hof]
  rfl

theorem mergeEmbedded_of_refused {data : Json} {err : CacheError} {left : Work}
    (hof : Batch.ofJson data = .ok batch)
    (hrun : addResources registry batch w = .error err left) :
    mergeEmbedded registry rid name data w = .error err left := by
  unfold mergeEmbedded
  simp only [hof]
  exact bind_of_error _ hrun

theorem mergeEmbedded_of_ok {data : Json} {created : List String}
    (hof : Batch.ofJson data = .ok batch)
    (hrun : addResources registry batch w = .ok created w') :
    mergeEmbedded registry rid name data w = .ok () ⟨created.foldl Store.settlePresent w'.store,
      { w'.out with orphans := w'.out.orphans ++ created }⟩ := by
  unfold mergeEmbedded
  simp only [hof]
  rw [bind_of_ok _ hrun, bind_of_ok _ (modifyStore_run _), orphans_run]

/-- An embedded batch is refused, or merged as a whole. -/
theorem mergeEmbedded_spec {data : Json} (hregistry : registry.Quiet)
    (hof : Batch.ofJson data = .ok batch) (hbare : registry.Bare ∨ batch.Disjoint)
    (h : w.Steady extra root) :
    (∃ err, addResources registry batch w = .error err w ∧
      mergeEmbedded registry rid name data w = .error err w ∧
      ∀ x, err ≠ .negativeReferences x) ∨
    ∃ created w₁ w', addResources registry batch w = .ok created w₁ ∧
      mergeEmbedded registry rid name data w = .ok () w' ∧
      w'.Steady (fun t => extra t + batch.unshown.count t) root ∧
      ∀ x e, w.store.get? x = some e → e.loaded = true →
        ∃ e', w'.store.get? x = some e' ∧ e'.loaded = true ∧ e'.kind = e.kind := by
  rcases addResources_merged hregistry hbare h.rest.sound.sturdy with
    ⟨err, hrun, herr⟩ | ⟨created, w₁, hrun, hmerges⟩
  · exact .inl ⟨err, hrun, mergeEmbedded_of_refused hof hrun, herr⟩
  · have htell := Store.announces_settlePresent
    refine .inr ⟨created, w₁, _, hrun, mergeEmbedded_of_ok hof hrun, ?_, ?_⟩
    · refine h.merges hmerges (htell.agrees_foldl _ _) (fun x hx e he => htell.told_foldl hx he)
        (fun x => ?_) rfl rfl
      apply Nat.le_of_eq
      unfold Store.direct
      rw [htell.get?_foldl]
    · intro x e he hl
      obtain ⟨e', he', _, _, _, _, hloaded, _⟩ := hmerges.kept he
      obtain ⟨hl', hkind, _⟩ := hloaded hl
      exact ⟨e', by rw [htell.get?_foldl]; exact he', hl', hkind⟩

/-- An operation edits a single replica, or it is refused and changes nothing. -/
def Revises (rid : String) (w : Work) : EStateM.Result CacheError Work Unit → Prop
  | .ok _ w' => w.Evolves (· = rid) w'
  | .error err w' => w' = w ∧ ∀ x, err ≠ .negativeReferences x

theorem revises_of_evolves {op : Op Unit} (hop : ∃ w', op w = .ok () w' ∧ w.Evolves (· = rid) w') :
    Revises rid w (op w) := by
  obtain ⟨w', hrun, hevolves⟩ := hop
  rw [hrun]
  exact hevolves

theorem revises_invalidEvent (rid name : String) (flaw : EventFlaw) (w : Work) :
    Revises rid w ((throw (.invalidEvent rid name flaw) : Op Unit) w) :=
  ⟨rfl, fun x heq => by cases heq⟩

/-- What an event cannot do without is there, or the event is refused. -/
theorem revises_need {α : Type} {flaw : EventFlaw} {part : Option α} {f : α → Op Unit}
    (hf : ∀ a, part = some a → Revises rid w (f a w)) :
    Revises rid w ((need rid name flaw part >>= f) w) := by
  cases part with
  | none => exact revises_invalidEvent rid name flaw w
  | some a => exact hf a rfl

theorem revises_read {α : Type} {read : Store → Except CacheError α} {f : α → Op Unit}
    (hread : ∀ err, read w.store = .error err → Store.Unreadable err)
    (hf : ∀ a, read w.store = .ok a → Revises rid w (f a w)) :
    Revises rid w ((liftStore read >>= f) w) := by
  cases ha : read w.store with
  | error err =>
    rw [bind_of_error _ (liftStore_of_error ha)]
    refine ⟨rfl, fun x heq => ?_⟩
    rcases hread err ha with ⟨_, hinvalid⟩ | ⟨_, hnotfound⟩
    · rw [heq] at hinvalid
      cases hinvalid
    · rw [heq] at hnotfound
      cases hnotfound
  | ok a =>
    rw [bind_of_ok _ (liftStore_of_ok ha)]
    exact hf a ha

theorem revises_custom (h : w.store.Sturdy) (hloaded : w.store.isLoaded rid = true)
    (data : Option Json) : Revises rid w (applyCustom rid name data w) := by
  obtain ⟨w', hrun, hevolves, _⟩ := applyCustom_spec h hloaded name data
  exact revises_of_evolves ⟨w', hrun, hevolves⟩

theorem revises_change {changes : Fields} (h : w.store.Sturdy)
    (hloaded : w.store.isLoaded rid = true)
    (hkind : ∃ fields, w.store.content? rid = some (.model fields))
    (hchanges : ∀ v ∈ changes.values, w.store.Reads v) :
    Revises rid w (applyChange rid changes w) := by
  obtain ⟨fields, hcontent⟩ := hkind
  obtain ⟨w', hrun, hevolves, _⟩ := applyChange_spec h hloaded hcontent hchanges
  exact revises_of_evolves ⟨w', hrun, hevolves⟩

theorem revises_add {index : Nat} {value : Value} (h : w.store.Sturdy)
    (hloaded : w.store.isLoaded rid = true)
    (hkind : ∃ values, w.store.content? rid = some (.collection values))
    (hvalue : w.store.Reads value) :
    Revises rid w (applyAdd rid index value w) := by
  obtain ⟨values, hcontent⟩ := hkind
  by_cases hindex : index ≤ values.length
  · obtain ⟨w', hrun, hevolves, _⟩ := applyAdd_spec h hloaded hcontent hindex hvalue
    exact revises_of_evolves ⟨w', hrun, hevolves⟩
  · rw [applyAdd_refused hcontent (by omega)]
    exact revises_invalidEvent rid _ _ w

theorem revises_remove {index : Nat} (h : w.store.Sturdy) (hloaded : w.store.isLoaded rid = true)
    (hkind : ∃ values, w.store.content? rid = some (.collection values)) :
    Revises rid w (applyRemove rid index w) := by
  obtain ⟨values, hcontent⟩ := hkind
  by_cases hindex : index < values.length
  · obtain ⟨w', hrun, hevolves, _⟩ := applyRemove_spec h hloaded hcontent hindex
    exact revises_of_evolves ⟨w', hrun, hevolves⟩
  · rw [applyRemove_refused hcontent (by omega)]
    exact revises_invalidEvent rid _ _ w

def membersOf (data : Option Json) : List (String × Json) := (data.bind Json.members?).getD []

def applyNamed (rid : String) (kind : Option Kind) (name : String) (data : Option Json) :
    Op Unit := do
  let members := membersOf data
  let index := (Dict.lookup "idx" members).bind Json.natural?
  match kind with
  | some .model =>
    if name = "change" then
      let tokens ← need rid name .missingValues
        ((Dict.lookup "values" members).bind Json.members?)
      let changes ← liftStore (·.parseChanges tokens)
      applyChange rid changes
    else applyCustom rid name data
  | some .collection =>
    if name = "add" then
      let index ← need rid name .missingIndex index
      let token ← need rid name .missingValue (Dict.lookup "value" members)
      let value ← liftStore (·.parseStored token)
      applyAdd rid index value
    else if name = "remove" then
      let index ← need rid name .missingIndex index
      applyRemove rid index
    else applyCustom rid name data
  | some .error => pure ()
  | none => applyCustom rid name data

theorem applyEvent_of_hasBatch {kind : Option Kind} {data : Option Json}
    (h : hasBatch (membersOf data) = true) : applyEvent registry rid kind name data =
      (do mergeEmbedded registry rid name (.obj (membersOf data)); applyNamed rid kind name data) := by
  unfold membersOf at h
  unfold applyEvent
  simp only [h, if_true]
  rfl

theorem applyEvent_of_not_hasBatch {kind : Option Kind} {data : Option Json}
    (h : hasBatch (membersOf data) = false) :
    applyEvent registry rid kind name data = applyNamed rid kind name data := by
  unfold membersOf at h
  unfold applyEvent
  simp only [h, Bool.false_eq_true, if_false]
  rfl

theorem revises_named {kind : Option Kind} (data : Option Json) (h : w.store.Sturdy) {e : Entry}
    (he : w.store.get? rid = some e) (hloaded : e.loaded = true) (hkind : e.kind = kind) :
    Revises rid w (applyNamed rid kind name data w) := by
  have hl : w.store.isLoaded rid = true := Store.isLoaded_iff.mpr ⟨e, he, hloaded⟩
  obtain ⟨r, hr⟩ := Option.isSome_iff_exists.mp ((h.entry he).filled hloaded)
  have hcached : kind = some r.content.kind := by
    rw [← hkind, (h.entry he).kind, hr]
    rfl
  have hcontent : w.store.content? rid = some r.content := Store.content?_of_get? he hr
  subst hcached
  cases hc : r.content with
  | model fields =>
    rw [hc] at hcontent
    change Revises rid w ((if name = "change" then _ else _ : Op Unit) w)
    by_cases hname : name = "change"
    · rw [if_pos hname]
      refine revises_need fun tokens _ => revises_read (fun err => Store.parseChanges_error)
        fun changes hchanges => ?_
      exact revises_change h hl ⟨fields, hcontent⟩ (Store.reads_of_parseChanges hchanges)
    · rw [if_neg hname]
      exact revises_custom h hl data
  | collection values =>
    rw [hc] at hcontent
    change Revises rid w ((if name = "add" then _ else _ : Op Unit) w)
    by_cases hname : name = "add"
    · rw [if_pos hname]
      refine revises_need fun index _ => revises_need fun token _ =>
        revises_read (fun err => Store.parseStored_error) fun value hvalue => ?_
      exact revises_add h hl ⟨values, hcontent⟩ (Store.reads_of_parseStored hvalue)
    · rw [if_neg hname]
      by_cases hname' : name = "remove"
      · rw [if_pos hname']
        exact revises_need fun index _ => revises_remove h hl ⟨values, hcontent⟩
      · rw [if_neg hname']
        exact revises_custom h hl data
  | error fault => exact .refl h

/-- An operation ends in a steady state. If it fails no count has become negative. -/
def Ends {α : Type} (extra : String → Nat) (root : String → Prop) :
    EStateM.Result CacheError Work α → Prop
  | .ok _ w => w.Steady extra root
  | .error err w => w.Steady extra root ∧ ∀ x, err ≠ .negativeReferences x

theorem ends_of_revises {result : EStateM.Result CacheError Work Unit} (h : w.Steady extra root)
    (hloaded : w.store.isLoaded rid = true) (hrevises : Revises rid w result) :
    Ends extra root result := by
  cases result with
  | ok _ w' => exact h.evolves hrevises fun x hx => hx ▸ hloaded
  | error err w' =>
    obtain ⟨rfl, herr⟩ := hrevises
    exact ⟨h, herr⟩

theorem ends_named {kind : Option Kind} (data : Option Json) (h : w.Steady extra root) {e : Entry}
    (he : w.store.get? rid = some e) (hloaded : e.loaded = true) (hkind : e.kind = kind) :
    Ends extra root (applyNamed rid kind name data w) :=
  ends_of_revises h (Store.isLoaded_iff.mpr ⟨e, he, hloaded⟩)
    (revises_named data h.rest.sound.sturdy he hloaded hkind)

theorem embedded_disjoint {data : Option Json} (hbatch : hasBatch (membersOf data) = true)
    (hdisjoint : EmbedsDisjoint data) {batch : Batch}
    (hof : Batch.ofJson (.obj (membersOf data)) = .ok batch) : batch.Disjoint := by
  cases hmembers : data.bind Json.members? with
  | none =>
    rw [membersOf, hmembers] at hbatch
    cases hbatch
  | some members =>
    rw [membersOf, hmembers] at hof
    exact hdisjoint members batch hmembers hof

theorem ends_embedded {kind : Option Kind} {data : Option Json} (hregistry : registry.Quiet)
    (hbatch : hasBatch (membersOf data) = true)
    (hof : Batch.ofJson (.obj (membersOf data)) = .ok batch)
    (hbare : registry.Bare ∨ batch.Disjoint) (h : w.Steady extra root) {e : Entry}
    (he : w.store.get? rid = some e) (hloaded : e.loaded = true) (hkind : e.kind = kind) :
    (∃ err, addResources registry batch w = .error err w ∧
      applyEvent registry rid kind name data w = .error err w ∧
      ∀ x, err ≠ .negativeReferences x) ∨
    ∃ created w', addResources registry batch w = .ok created w' ∧
      Ends (fun t => extra t + batch.unshown.count t) root
        (applyEvent registry rid kind name data w) := by
  rw [applyEvent_of_hasBatch hbatch]
  rcases @mergeEmbedded_spec root w registry rid name batch extra _ hregistry hof hbare h with
    ⟨err, hadd, hrun, herr⟩ | ⟨created, w₁, w', hadd, hrun, hsteady, hkept⟩
  · exact .inl ⟨err, hadd, bind_of_error _ hrun, herr⟩
  · obtain ⟨e', he', hl', hkind'⟩ := hkept rid e he hloaded
    refine .inr ⟨created, w₁, hadd, ?_⟩
    rw [bind_of_ok _ hrun]
    exact ends_named data hsteady he' hl' (hkind'.trans hkind)

/-- After an event more may be counted too much, but only if it embeds a batch with
contradictions. -/
theorem ends_event {kind : Option Kind} {data : Option Json} (hregistry : registry.Quiet)
    (hbare : registry.Bare ∨ EmbedsDisjoint data) (h : w.Steady extra root) {e : Entry}
    (he : w.store.get? rid = some e) (hloaded : e.loaded = true) (hkind : e.kind = kind) :
    ∃ surplus : List String, (EmbedsDisjoint data → surplus = []) ∧
      Ends (fun t => extra t + surplus.count t) root (applyEvent registry rid kind name data w) := by
  cases hbatch : hasBatch (membersOf data) with
  | false =>
    rw [applyEvent_of_not_hasBatch hbatch]
    exact ⟨[], fun _ => rfl, ends_named data h he hloaded hkind⟩
  | true =>
    cases hof : Batch.ofJson (.obj (membersOf data)) with
    | error flaw =>
      refine ⟨[], fun _ => rfl, ?_⟩
      rw [applyEvent_of_hasBatch hbatch, bind_of_error _ (mergeEmbedded_of_malformed hof)]
      exact ⟨h, fun x heq => by cases heq⟩
    | ok batch =>
      rcases @ends_embedded root w registry rid name batch extra kind data hregistry hbatch hof
        (hbare.imp_right fun hdisjoint => embedded_disjoint hbatch hdisjoint hof) h e he hloaded
        hkind with ⟨err, _, hrun, herr⟩ | ⟨created, w', _, hends⟩
      · exact ⟨[], fun _ => rfl, hrun ▸ ⟨h, herr⟩⟩
      · exact ⟨batch.unshown, fun hdisjoint => (embedded_disjoint hbatch hdisjoint hof).unshown,
          hends⟩

end Op

namespace Store

variable {s s' : Store} {rid : String} {root : String → Prop} {extra : String → Nat}

theorem claim_spec (s : Store) (rid : String) (subscriptions : Nat) :
    s.Agrees (s.claim rid subscriptions).2 ∧
      (∀ x, s.direct x ≤ (s.claim rid subscriptions).2.direct x) ∧
      ∀ err, (s.claim rid subscriptions).1 = .error err → ∀ x, err ≠ .negativeReferences x := by
  have hput {e : Entry} (he : s.get? rid = some e) : s.Agrees
        (s.put rid { e with direct := e.direct + subscriptions, stale := false }) ∧
      ∀ x, s.direct x ≤
        (s.put rid { e with direct := e.direct + subscriptions, stale := false }).direct x := by
    refine ⟨agrees_put he rfl, fun x => ?_⟩
    rw [direct_put]
    by_cases hx : rid = x
    · subst hx
      rw [if_pos rfl, direct_of_get? he]
      exact Nat.le_add_right _ _
    · exact Nat.le_of_eq (if_neg hx).symm
  unfold claim
  split
  · exact ⟨.refl s, fun _ => Nat.le_refl _, fun err herr x heq => by cases herr; cases heq⟩
  · rename_i e he
    split
    · split
      · exact ⟨.refl s, fun _ => Nat.le_refl _, fun err herr x heq => by cases herr; cases heq⟩
      · dsimp only
        split
        · exact ⟨(hput he).1, (hput he).2, fun err herr => by cases herr⟩
        · exact ⟨(hput he).1, (hput he).2, fun err herr x heq => by cases herr; cases heq⟩
    · exact ⟨.refl s, fun _ => Nat.le_refl _, fun err herr x heq => by cases herr; cases heq⟩

theorem obtain_spec (h : s.Rests extra) (hrooted : s.Rooted root) (rid : String) :
    ∃ e s', s.obtain rid = (e, s') ∧ s'.get? rid = some e ∧ s'.Rests extra ∧ s'.Rooted root ∧
      ∀ x, s'.direct x = s.direct x := by
  cases he : s.get? rid with
  | some e => exact ⟨e, s, obtain_of_get? he, he, h, hrooted, fun _ => rfl⟩
  | none =>
    generalize hs' : ({ s with ledger := { s.ledger with next := s.ledger.next + 1 } }.put rid
      (.fresh s.ledger.next) : Store) = s'
    have hget (x : String) : s'.get? x =
        if rid = x then some (.fresh s.ledger.next) else s.get? x := by
      rw [← hs']
      exact get?_put _ _ _ _
    have hsound : s'.Balanced extra := by
      have hnext : ({ s with ledger := { s.ledger with next := s.ledger.next + 1 } }).Balanced
          extra := h.sound.of_entries rfl
      rw [← hs']
      exact hnext.put_fresh he _
    have hold {x : String} {e : Entry} (hx : s'.get? x = some e) (hne : ¬ e.replica = none) :
        s.get? x = some e := by
      rw [hget] at hx
      split at hx
      · cases hx
        exact absurd rfl hne
      · exact hx
    have hledger (t : Ticket) : s'.ledger.isSettled t = s.ledger.isSettled t := by
      rw [← hs']
      rfl
    have hdirect (x : String) : s'.direct x = s.direct x := by
      unfold direct
      rw [hget]
      by_cases hx : rid = x
      · rw [if_pos hx, ← hx, he]
        rfl
      · rw [if_neg hx]
    have hloaded {x : String} {e : Entry} (hx : s'.get? x = some e) (hl : e.loaded = true) :
        s.get? x = some e := by
      refine hold hx fun hnone => ?_
      have hfilled := (hsound.entry hx).filled hl
      rw [hnone] at hfilled
      cases hfilled
    refine ⟨.fresh s.ledger.next, s', ?_, by rw [hget, if_pos rfl], ⟨hsound, fun x e hx hr => ?_,
      fun {x e} hx hl => ?_⟩, ?_, hdirect⟩
    · rw [obtain_of_none he, hs']
    · refine h.settled x e (hold hx fun hnone => ?_) hr
      rw [hnone] at hr
      cases hr
    · rw [hledger]
      exact h.announced (hloaded hx hl) hl
    · refine hrooted.mono (fun r hr => ?_) (fun x hx => ?_) (fun a b hab => .inl ?_)
      · rw [hdirect]
        exact hr
      · obtain ⟨e, hx, hl⟩ := isLoaded_iff.mp hx
        exact .inl (isLoaded_iff.mpr ⟨e, hloaded hx hl, hl⟩)
      · obtain ⟨e, hx, hb⟩ := get?_of_mem_links hab
        have hne : ¬ rid = a := fun heq => by
          rw [← heq, he] at hx
          cases hx
        rw [links_of_get? (by rw [hget, if_neg hne, hx])]
        exact hb

end Store

namespace Cache

/-- A cache between two operations, with the resources that something else than a subscription
    keeps. What is counted too much is kept as well. -/
structure Kept (extra : String → Nat) (root : String → Prop) (c : Cache) : Prop where
  registry : c.registry.Quiet
  rest : c.store.Rests extra
  held : c.store.Rooted fun r => root r ∨ 0 < extra r
  silent : ∀ x, Notice.cacheError (.negativeReferences x) ∉ c.channel

/-- A cache between two operations that counts exactly the references. -/
abbrev Tidy (root : String → Prop) (c : Cache) : Prop := c.Kept (fun _ => 0) root

def Harmless (err : CacheError) : Prop := ∀ x, err ≠ .negativeReferences x

variable {root root' : String → Prop} {c c' : Cache} {rid name : String} {batch : Batch}
  {extra : String → Nat}

theorem Kept.rooted (h : c.Tidy root) : c.store.Rooted root :=
  h.held.weaken fun _ hr => hr.resolve_right (Nat.lt_irrefl 0)

theorem tidy_empty {registry : Registry} (h : registry.Quiet) :
    ({ Cache.empty with registry := registry } : Cache).Tidy root := by
  refine ⟨h, ⟨Store.sound_empty, fun x e he => ?_, fun {x e} he => ?_⟩, fun x hx => ?_,
    fun x hx => by cases hx⟩
  · cases he
  · cases he
  · cases hx

namespace Kept

theorem weaken (h : c.Kept extra root) (himp : ∀ r, root r → root' r) : c.Kept extra root' :=
  ⟨h.registry, h.rest, h.held.weaken fun r => Or.imp_left (himp r), h.silent⟩

theorem steady (h : c.Kept extra root) : Work.Steady extra root ⟨c.store, {}⟩ :=
  ⟨h.rest, h.held.weaken fun _ => .inl, fun err herr => by cases herr⟩

theorem withStore (h : c.Kept extra root) {s : Store} (hrest : s.Rests extra)
    (hheld : s.Rooted fun r => root' r ∨ 0 < extra r) :
    ({ c with store := s } : Cache).Kept extra root' :=
  ⟨h.registry, hrest, hheld, h.silent⟩

theorem agrees (h : c.Kept extra root) {s : Store} (hagrees : c.store.Agrees s)
    (hroot : ∀ r, 0 < c.store.direct r ∨ root r → 0 < s.direct r ∨ root' r) :
    ({ c with store := s } : Cache).Kept extra root' :=
  h.withStore (hagrees.rests h.rest) (hagrees.rooted h.held fun r hr => by
    rw [← or_assoc] at hr ⊢
    exact hr.imp_left (hroot r))

theorem put (h : c.Kept extra root) {e e' : Entry} (he : c.store.get? rid = some e)
    (hcore : e'.core = e.core) (hheld : 0 < e.direct → 0 < e'.direct ∨ root rid) :
    ({ c with store := c.store.put rid e' } : Cache).Kept extra root :=
  h.agrees (Store.agrees_put he hcore) fun _ => Store.held_put he hheld

theorem send (h : c.Kept extra root) {notice : Notice}
    (hnotice : ∀ x, notice ≠ .cacheError (.negativeReferences x)) :
    (c.send notice).Kept extra root := by
  refine ⟨h.registry, h.rest, h.held, fun x hx => ?_⟩
  rcases List.mem_append.mp hx with hx | hx
  · exact h.silent x hx
  · exact hnotice x (List.mem_singleton.mp hx).symm

theorem report (h : c.Kept extra root) {err : CacheError} (herr : Harmless err) :
    (c.report err).2.Kept extra root :=
  h.send fun x heq => by
    cases heq
    exact herr x rfl

end Kept

/-- A cache after a batch has come. More may be counted too much than before, but not if the batch
    is without contradictions. -/
def KeptUnless (disjoint : Prop) (extra : String → Nat) (root : String → Prop) (c : Cache) : Prop :=
  ∃ surplus : List String, (disjoint → surplus = []) ∧
    c.Kept (fun t => extra t + surplus.count t) root

namespace KeptUnless

variable {disjoint disjoint' : Prop}

theorem of_kept (h : c.Kept extra root) : c.KeptUnless disjoint extra root := ⟨[], fun _ => rfl, h⟩

theorem kept (h : c.KeptUnless disjoint extra root) (hdisjoint : disjoint) : c.Kept extra root := by
  obtain ⟨surplus, hnone, hkept⟩ := h
  rw [hnone hdisjoint] at hkept
  exact hkept

theorem imp (h : c.KeptUnless disjoint extra root) (himp : disjoint' → disjoint)
    (hc : ∀ extra, c.Kept extra root → c'.Kept extra root') :
    c'.KeptUnless disjoint' extra root' := by
  obtain ⟨surplus, hnone, hkept⟩ := h
  exact ⟨surplus, fun hdisjoint => hnone (himp hdisjoint), hc _ hkept⟩

end KeptUnless

theorem flush_spec {out : Output} (hregistry : c.registry.Quiet)
    (h : Work.Steady extra root ⟨c.store, out⟩)
    (hsilent : ∀ x, Notice.cacheError (.negativeReferences x) ∉ c.channel) :
    ∃ c', c.flush out = (.ok (), c') ∧ c'.Kept extra root ∧ c.store.Pruned c'.store := by
  obtain ⟨s', hrun, hrest, hpruned, hroots⟩ :=
    @Op.collect_spec c.store {} extra _ _ h.rest (fun _ => .inr) h.rooted
  refine ⟨⟨c.registry, s', c.channel ++ out.events.map Notice.resource ++
    out.errors.map Notice.cacheError⟩, ?_, ⟨hregistry, hrest, hroots, fun x hx => ?_⟩, hpruned⟩
  · simp only [flush, run, hrun]
  · rcases List.mem_append.mp hx with hx | hx
    · rcases List.mem_append.mp hx with hx | hx
      · exact hsilent x hx
      · obtain ⟨event, _, heq⟩ := List.mem_map.mp hx
        cases heq
    · obtain ⟨err, herr, heq⟩ := List.mem_map.mp hx
      cases heq
      obtain ⟨_, _, hhook⟩ := h.errors _ herr
      cases hhook

/-- Whatever is loaded, but neither subscribed nor referenced nor a root, is evicted. -/
theorem get?_flush {out : Output} {x : String} {e : Entry} (hregistry : c.registry.Quiet)
    (h : Work.Steady extra root ⟨c.store, out⟩)
    (hsilent : ∀ x, Notice.cacheError (.negativeReferences x) ∉ c.channel)
    (he : c.store.get? x = some e) (hleft : e.loaded = true ∧ e.direct = 0 ∧ e.indirect = 0)
    (hroot : ¬ root x) : (c.flush out).2.store.get? x = none := by
  obtain ⟨c', hflush, hkept', hpruned⟩ := flush_spec hregistry h hsilent
  obtain ⟨hloaded, hdirect, hindirect⟩ := hleft
  rw [hflush]
  cases hkept : c'.store.get? x with
  | none => rfl
  | some e' =>
    obtain ⟨_, n, hget, rfl⟩ := hpruned.kept hkept
    cases he.symm.trans hget
    obtain ⟨r, hr, hleads⟩ := hkept'.held x (Store.isLoaded_iff.mpr ⟨_, hkept, hloaded⟩)
    rcases Relation.ReflTransGen.cases_tail hleads with rfl | ⟨y, _, hlink⟩
    · have hbalance := h.rest.sound.balance he
      rw [Store.direct_of_get? hkept] at hr
      rcases hr with hpos | hroot' | hextra
      · exact absurd hpos (by rw [hdirect]; exact Nat.lt_irrefl 0)
      · exact absurd hroot' hroot
      · omega
    · -- whoever refers to it now has referred to it before
      obtain ⟨ey', hy', hmem⟩ := Store.get?_of_mem_links hlink
      obtain ⟨ey, m, hy, rfl⟩ := hpruned.kept hy'
      obtain ⟨e', he', _, hle⟩ := h.rest.sound.sturdy.target hy (t := x) hmem
      cases he.symm.trans he'
      rw [hindirect] at hle
      exact absurd (List.count_pos_iff.mpr hmem) (Nat.not_lt.mpr hle)

theorem merge_of_run {created surplus : List String} {w : Work} (h : c.Kept extra root)
    (rid : String) (subscriptions : Nat)
    (hrun : Op.addResources c.registry batch ⟨c.store, {}⟩ = .ok created w)
    (hmerges : Work.Merged surplus batch created ⟨c.store, {}⟩ w) :
    ∃ c', c.merge batch rid subscriptions =
        (((created.foldl Store.settleLoaded w.store).claim rid subscriptions).1, c') ∧
      c'.Kept (fun t => extra t + surplus.count t) root ∧
      ((created.foldl Store.settleLoaded w.store).claim rid subscriptions).2.Pruned c'.store := by
  have htell := Store.announces_settleLoaded
  have hagrees := htell.agrees_foldl w.store created
  obtain ⟨hclaim, hdirect, _⟩ :=
    Store.claim_spec (created.foldl Store.settleLoaded w.store) rid subscriptions
  generalize hresult : (created.foldl Store.settleLoaded w.store).claim rid subscriptions =
    claimed at hclaim hdirect
  obtain ⟨result, s₂⟩ := claimed
  have hsteady : Work.Steady (fun t => extra t + surplus.count t) root
      ⟨s₂, { w.out with orphans := w.out.orphans ++ created }⟩ := by
    refine h.steady.merges hmerges (hagrees.trans hclaim) (fun x hx e he => ?_) (fun x => ?_) rfl
      rfl
    · exact hclaim.told _ (htell.told_foldl hx he)
    · refine Nat.le_trans (Nat.le_of_eq ?_) (hdirect x)
      unfold Store.direct
      rw [htell.get?_foldl]
  obtain ⟨c', hflush, hkept, hpruned⟩ :=
    @flush_spec root ⟨c.registry, s₂, c.channel⟩ _ _ h.registry hsteady h.silent
  exact ⟨c', by simp only [merge, run, hrun, hresult, hflush], hkept, hpruned⟩

/-- A merge is refused at once, or it ends with the claim and with evictions that succeed. -/
theorem merge_run (h : c.Kept extra root) (hdisjoint : batch.Disjoint) (rid : String)
    (subscriptions : Nat) :
    (∃ err, c.merge batch rid subscriptions = (.error err, c) ∧ Harmless err) ∨
    ∃ created w c', Op.addResources c.registry batch ⟨c.store, {}⟩ = .ok created w ∧
      Work.Merges batch created ⟨c.store, {}⟩ w ∧
      c.merge batch rid subscriptions =
        (((created.foldl Store.settleLoaded w.store).claim rid subscriptions).1, c') ∧
      c'.Kept extra root ∧
      ((created.foldl Store.settleLoaded w.store).claim rid subscriptions).2.Pruned c'.store := by
  rcases @Op.addResources_spec ⟨c.store, {}⟩ c.registry batch h.registry hdisjoint
    h.rest.sound.sturdy with ⟨err, hrun, herr⟩ | ⟨created, w, hrun, hmerges⟩
  · exact .inl ⟨err, by simp only [merge, run, hrun], herr⟩
  · obtain ⟨c', hmerge, hkept, hpruned⟩ := merge_of_run h rid subscriptions hrun hmerges.toMerged
    exact .inr ⟨created, w, c', hrun, hmerges, hmerge, hkept, hpruned⟩

/-- Whatever its sections list, a batch is refused and changes nothing, or what it does not show is
counted too much from then on. -/
theorem merge_spec (h : c.Kept extra root) (hbare : c.registry.Bare ∨ batch.Disjoint) (rid : String)
    (subscriptions : Nat) :
    (∃ err, Op.addResources c.registry batch ⟨c.store, {}⟩ = .error err ⟨c.store, {}⟩ ∧
      c.merge batch rid subscriptions = (.error err, c) ∧ Harmless err) ∨
    ∃ created w, Op.addResources c.registry batch ⟨c.store, {}⟩ = .ok created w ∧
      (c.merge batch rid subscriptions).2.Kept (fun t => extra t + batch.unshown.count t) root ∧
      ∀ err, (c.merge batch rid subscriptions).1 = .error err → Harmless err := by
  rcases @Op.addResources_merged ⟨c.store, {}⟩ c.registry batch h.registry hbare
    h.rest.sound.sturdy with ⟨err, hrun, herr⟩ | ⟨created, w, hrun, hmerged⟩
  · exact .inl ⟨err, hrun, by simp only [merge, run, hrun], herr⟩
  · obtain ⟨c', hmerge, hkept, _⟩ := merge_of_run h rid subscriptions hrun hmerged
    rw [hmerge]
    exact .inr ⟨created, w, hrun, hkept, (Store.claim_spec _ rid subscriptions).2.2⟩

/-- A merge that is refused or ends with an error says nothing of counts. -/
theorem merge_kept (h : c.Kept extra root) (hbare : c.registry.Bare ∨ batch.Disjoint) (rid : String)
    (subscriptions : Nat) :
    (c.merge batch rid subscriptions).2.KeptUnless batch.Disjoint extra root ∧
      ∀ err, (c.merge batch rid subscriptions).1 = .error err → Harmless err := by
  rcases merge_spec h hbare rid subscriptions with ⟨err, _, hmerge, herr⟩ | ⟨_, _, _, hkept, herr⟩
  · rw [hmerge]
    exact ⟨.of_kept h, fun err' heq => by cases heq; exact herr⟩
  · exact ⟨⟨batch.unshown, Batch.Disjoint.unshown, hkept⟩, herr⟩

theorem Kept.ends_eventOp {data : Option Json} {e : Entry} (h : c.Kept extra root)
    (hbare : c.registry.Bare ∨ EmbedsDisjoint data) (he : c.store.get? rid = some e)
    (hloaded : e.loaded = true) (name : String) :
    ∃ surplus : List String, (EmbedsDisjoint data → surplus = []) ∧
      Op.Ends (fun t => extra t + surplus.count t) root
        (eventOp c.registry e rid name data ⟨c.store, {}⟩) := by
  unfold eventOp
  split
  · obtain ⟨w', hrun, hsteady⟩ := @Op.endSubscription_spec _ _ rid _ h.steady (reasonOf data)
    exact ⟨[], fun _ => rfl, hrun ▸ hsteady⟩
  · exact Op.ends_event h.registry hbare h.steady he hloaded rfl

/-- An event for a loaded resource is taken or refused, and what it leaves is collected. -/
theorem handleEvent_of_ends {data : Option Json} {e : Entry} (h : c.Kept extra root)
    {extra' : String → Nat} (he : c.store.get? rid = some e) (hloaded : e.loaded = true)
    (hends : Op.Ends extra' root (eventOp c.registry e rid name data ⟨c.store, {}⟩)) :
    (∃ w c' delivered, eventOp c.registry e rid name data ⟨c.store, {}⟩ = .ok () w ∧
      c.handleEvent rid name data = (.ok delivered, c') ∧ c'.Kept extra' root ∧
        (⟨c.registry, w.store, c.channel⟩ : Cache).flush w.out = (.ok (), c')) ∨
    ∃ err w c', eventOp c.registry e rid name data ⟨c.store, {}⟩ = .error err w ∧ Harmless err ∧
      c.handleEvent rid name data = (.error err, c') ∧ c'.Kept extra' root ∧
        (⟨c.registry, w.store, c.channel⟩ : Cache).flush w.out = (.ok (), c') := by
  have hsettled := h.rest.announced he hloaded
  cases hrun : eventOp c.registry e rid name data ⟨c.store, {}⟩ with
  | ok a w =>
    rw [hrun] at hends
    obtain ⟨c', hflush, hkept, _⟩ :=
      @flush_spec root ⟨c.registry, w.store, c.channel⟩ extra' w.out h.registry hends h.silent
    refine .inl ⟨w, c', w.out.events.getLast?.filter (·.rid == rid), rfl, ?_, hkept, hflush⟩
    simp only [handleEvent, he, hsettled, hloaded, run, hrun, hflush, Bool.not_true, Bool.or_false,
      Bool.false_eq_true, if_false]
  | error err w =>
    rw [hrun] at hends
    obtain ⟨hsteady, herr⟩ := hends
    obtain ⟨c', hflush, hkept, _⟩ :=
      @flush_spec root ⟨c.registry, w.store, c.channel⟩ extra' w.out h.registry hsteady h.silent
    refine .inr ⟨err, w, c', rfl, herr, ?_, hkept, hflush⟩
    simp only [handleEvent, he, hsettled, hloaded, run, hrun, hflush, Bool.not_true, Bool.or_false,
      Bool.false_eq_true, if_false]

theorem handleEvent_run {data : Option Json} {e : Entry} (h : c.Kept extra root)
    (hdisjoint : EmbedsDisjoint data) (he : c.store.get? rid = some e) (hloaded : e.loaded = true)
    (name : String) :
    (∃ w c' delivered, eventOp c.registry e rid name data ⟨c.store, {}⟩ = .ok () w ∧
      c.handleEvent rid name data = (.ok delivered, c') ∧ c'.Kept extra root ∧
        (⟨c.registry, w.store, c.channel⟩ : Cache).flush w.out = (.ok (), c')) ∨
    ∃ err w c', eventOp c.registry e rid name data ⟨c.store, {}⟩ = .error err w ∧ Harmless err ∧
      c.handleEvent rid name data = (.error err, c') ∧ c'.Kept extra root ∧
        (⟨c.registry, w.store, c.channel⟩ : Cache).flush w.out = (.ok (), c') := by
  obtain ⟨surplus, hnone, hends⟩ := h.ends_eventOp (.inr hdisjoint) he hloaded name
  rw [hnone hdisjoint] at hends
  exact handleEvent_of_ends h he hloaded hends

theorem get?_handleEvent {data : Option Json} {e e' : Entry} {w : Work} {x : String}
    (h : c.Kept extra root) (hdisjoint : EmbedsDisjoint data) (he : c.store.get? rid = some e)
    (hloaded : e.loaded = true)
    (hrun : eventOp c.registry e rid name data ⟨c.store, {}⟩ = .ok () w)
    (he' : w.store.get? x = some e') (hleft : e'.loaded = true ∧ e'.direct = 0 ∧ e'.indirect = 0)
    (hroot : ¬ root x) : (c.handleEvent rid name data).2.store.get? x = none := by
  obtain ⟨surplus, _, hends⟩ := h.ends_eventOp (.inr hdisjoint) he hloaded name
  rw [hrun] at hends
  rcases handleEvent_run h hdisjoint he hloaded name with
    ⟨w', c', delivered, hrun', hhandled, _, hflush⟩ | ⟨err, w', c', hrun', _⟩
  · cases hrun.symm.trans hrun'
    rw [hhandled]
    have hgone := @get?_flush root ⟨c.registry, w.store, c.channel⟩ _ _ _ _ h.registry hends
      h.silent he' hleft hroot
    rw [hflush] at hgone
    exact hgone
  · cases hrun.symm.trans hrun'

theorem handleEvent_kept {data : Option Json} (h : c.Kept extra root)
    (hbare : c.registry.Bare ∨ EmbedsDisjoint data) (rid name : String) :
    (c.handleEvent rid name data).2.KeptUnless (EmbedsDisjoint data) extra root ∧
      ∀ err, (c.handleEvent rid name data).1 = .error err → Harmless err := by
  cases he : c.store.get? rid with
  | none =>
    have hdropped : c.handleEvent rid name data = (.ok none, c) := by
      unfold handleEvent
      rw [he]
    rw [hdropped]
    exact ⟨.of_kept h, fun err heq => by cases heq⟩
  | some e =>
    cases hloaded : e.loaded with
    | false =>
      have hdropped : c.handleEvent rid name data = (.ok none, c) := by
        simp only [handleEvent, he, hloaded, Bool.not_false, Bool.or_true, if_true]
      rw [hdropped]
      exact ⟨.of_kept h, fun err heq => by cases heq⟩
    | true =>
      obtain ⟨surplus, hnone, hends⟩ := h.ends_eventOp hbare he hloaded name
      rcases handleEvent_of_ends h he hloaded hends with
        ⟨w, c', delivered, _, hhandled, hkept, _⟩ | ⟨err, w, c', _, herr, hhandled, hkept, _⟩
      · rw [hhandled]
        exact ⟨⟨surplus, hnone, hkept⟩, fun err heq => by cases heq⟩
      · rw [hhandled]
        exact ⟨⟨surplus, hnone, hkept⟩, fun err' heq => by cases heq; exact herr⟩

theorem get?_setAllStale (c : Cache) (x : String) :
    c.setAllStale.2.store.get? x = (c.store.get? x).map fun e =>
      if e.loaded && 0 < e.direct then { e with stale := true } else e :=
  Dict.get?_map _ c.store.entries x

theorem direct_setAllStale (c : Cache) (x : String) :
    c.setAllStale.2.store.direct x = c.store.direct x := by
  unfold Store.direct
  rw [get?_setAllStale]
  cases c.store.get? x with
  | none => rfl
  | some e =>
    rw [Option.map_some]
    dsimp only
    split <;> rfl

theorem agrees_setAllStale (c : Cache) : c.store.Agrees c.setAllStale.2.store := by
  refine ⟨fun x => ?_, fun _ => id⟩
  rw [get?_setAllStale, Option.map_map]
  apply congrArg (fun core => Option.map core (c.store.get? x))
  funext e
  rw [Function.comp_apply]
  split <;> rfl

theorem setAllStale_spec (h : c.Kept extra root) : c.setAllStale.2.Kept extra root := by
  refine h.agrees c.agrees_setAllStale fun r hr => ?_
  rw [← direct_setAllStale] at hr
  exact hr

end Cache

end LiveResource
