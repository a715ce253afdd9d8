import LiveResource.Cache.Basic
import LiveResource.Proofs.Eviction
import LiveResource.Proofs.Merge

set_option autoImplicit false

/-!
# What an operation leaves alone

A relation between the stores before and after goes through every store operation, whether it
succeeds or fails half way, once it holds for the few writes that operations are made of. So no
operation counts a subscription, and a resource with subscriptions keeps its replica unless the
operation is about that resource. This holds of every store, also of one whose counts are wrong, and
for every hook.
-/

namespace LiveResource

/-- All subscriptions are still counted, and subscribed resources have the same contents, except
for those that are `touched`. -/
structure Store.Keeps (touched : String → Prop) (s s' : Store) : Prop where
  direct : ∀ x, s'.direct x = s.direct x
  held : ∀ {x e}, s.get? x = some e → 0 < e.direct → ¬ touched x →
    ∃ e', s'.get? x = some e' ∧ e'.replica = e.replica ∧ e'.loaded = e.loaded

namespace Store.Keeps

variable {touched touched' : String → Prop} {s s' s'' : Store} {rid : String} {e e' : Entry}

theorem refl (s : Store) : s.Keeps touched s :=
  ⟨fun _ => rfl, fun he _ _ => ⟨_, he, rfl, rfl⟩⟩

theorem trans (h : s.Keeps touched s') (h' : s'.Keeps touched s'') : s.Keeps touched s'' := by
  refine ⟨fun x => (h'.direct x).trans (h.direct x), fun {x e} he hpos hx => ?_⟩
  obtain ⟨e', he', hreplica, hloaded⟩ := h.held he hpos hx
  have hpos' : 0 < e'.direct := by
    have hdirect := h.direct x
    rw [direct_of_get? he, direct_of_get? he'] at hdirect
    omega
  obtain ⟨e'', he'', hreplica', hloaded'⟩ := h'.held he' hpos' hx
  exact ⟨e'', he'', hreplica'.trans hreplica, hloaded'.trans hloaded⟩

theorem of_get? (h : ∀ x, s'.get? x = s.get? x) : s.Keeps touched s' := by
  refine ⟨fun x => ?_, fun {x e} he _ _ => ⟨e, ?_, rfl, rfl⟩⟩
  · unfold Store.direct
    rw [h]
  · rw [h]
    exact he

theorem put (he : s.get? rid = some e) (hdirect : e'.direct = e.direct)
    (hcontent : touched rid ∨ e'.replica = e.replica ∧ e'.loaded = e.loaded) :
    s.Keeps touched (s.put rid e') := by
  refine ⟨fun x => ?_, fun {x ex} hx _ hnot => ?_⟩
  · unfold Store.direct
    rw [get?_put]
    by_cases heq : rid = x
    · subst heq
      rw [if_pos rfl, he]
      exact hdirect
    · rw [if_neg heq]
  · rw [get?_put]
    by_cases heq : rid = x
    · subst heq
      rw [he] at hx
      cases hx
      exact ⟨e', if_pos rfl, hcontent.resolve_left hnot⟩
    · exact ⟨ex, by rw [if_neg heq, hx], rfl, rfl⟩

theorem modify {f : Entry → Entry} (hdirect : ∀ e, (f e).direct = e.direct)
    (hcontent : touched rid ∨ ∀ e, (f e).replica = e.replica ∧ (f e).loaded = e.loaded) :
    s.Keeps touched (s.modify rid f) := by
  cases he : s.get? rid with
  | none =>
    rw [modify_of_none he]
    exact refl s
  | some e =>
    rw [modify_eq_put he]
    exact put he (hdirect e) (hcontent.imp_right fun h => h e)

theorem foldl_remove {gone : List String} (h : ∀ x ∈ gone, s.direct x = 0) :
    s.Keeps touched (gone.foldl Store.remove s) := by
  refine ⟨fun x => ?_, fun {x e} he hpos _ => ⟨e, ?_, rfl, rfl⟩⟩
  · by_cases hx : x ∈ gone
    · rw [h x hx]
      unfold Store.direct
      rw [get?_foldl_remove, if_pos hx]
    · unfold Store.direct
      rw [get?_foldl_remove, if_neg hx]
  · have hx : x ∉ gone := by
      intro hx
      have hzero := h x hx
      rw [direct_of_get? he] at hzero
      omega
    rw [get?_foldl_remove, if_neg hx]
    exact he

theorem obtain (s : Store) (rid : String) : s.Keeps touched (s.obtain rid).2 := by
  cases he : s.get? rid with
  | some e =>
    have hsame : (s.obtain rid).2 = s := by
      unfold Store.obtain
      rw [he]
    rw [hsame]
    exact refl s
  | none =>
    have hget (x : String) : (s.obtain rid).2.get? x =
        if rid = x then some (.fresh s.ledger.next) else s.get? x := by
      unfold Store.obtain
      rw [he]
      exact get?_put _ _ _ _
    refine ⟨fun x => ?_, fun {x e} hx _ _ => ⟨e, ?_, rfl, rfl⟩⟩
    · unfold Store.direct
      rw [hget]
      by_cases heq : rid = x
      · rw [if_pos heq, ← heq, he]
        rfl
      · rw [if_neg heq]
    · have hne : rid ≠ x := by
        intro heq
        rw [← heq, he] at hx
        cases hx
      rw [hget, if_neg hne]
      exact hx

theorem create (registry : Registry) (batch : Batch) (kind : Kind) (hrid : touched rid) :
    s.Keeps touched (s.create registry batch rid kind) := by
  unfold Store.create
  have hnext : s.Keeps touched { s with nextReplica := s.nextReplica + 1 } := of_get? fun _ => rfl
  exact hnext.trans (modify (fun _ => rfl) (.inl hrid))

end Store.Keeps

def Replica.Becomes (r r' : Replica) : Prop :=
  r'.id = r.id ∧ (r'.content.kind = r.content.kind ∨ r'.content.kind = .error)

namespace Store

structure IgnoresCounts (R : Store → Store → Prop) : Prop where
  refl : ∀ s, R s s
  trans : ∀ {s s' s''}, R s s' → R s' s'' → R s s''
  recount : ∀ (s : Store) (rid : String) (count : Nat → Nat),
    R s (s.modify rid fun e => { e with indirect := count e.indirect })

/-- The writes by which touched resources are edited and created. -/
structure Frame (touched : String → Prop) (R : Store → Store → Prop) : Prop
    extends IgnoresCounts R where
  edit : ∀ {s rid e r r'}, touched rid → s.get? rid = some e → e.replica = some r → r.Becomes r' →
    R s (s.put rid { e with replica := some r' })
  obtain : ∀ (s : Store) (rid : String), R s (s.obtain rid).2
  create : ∀ {s rid} (registry : Registry) (batch : Batch) (kind : Kind), touched rid →
    s.isLoaded rid = false → R s (s.create registry batch rid kind)
  load : ∀ (s : Store) {rid : String}, touched rid →
    R s (s.modify rid fun e => { e with loaded := true })

structure Purge (R : Store → Store → Prop) : Prop extends IgnoresCounts R where
  evict : ∀ {s : Store} {gone : List String}, (∀ x ∈ gone, s.direct x = 0) → R s (gone.foldl remove s)

/-- All that is done with touched resources: they are edited and created, announced when they are
loaded, and evicted. -/
structure Upkeep (touched : String → Prop) (R : Store → Store → Prop) : Prop
    extends Frame touched R, Purge R where
  tell : ∀ {s rid e outcome}, s.get? rid = some e → e.loaded = true →
    (∀ fault, outcome = .error fault → e.fault? = some fault) → R s (s.settle e.pending outcome)

theorem Keeps.upkeep (touched : String → Prop) : Upkeep touched (Keeps touched) where
  refl := Keeps.refl
  trans := Keeps.trans
  recount _ _ _ := .modify (fun _ => rfl) (.inr fun _ => ⟨rfl, rfl⟩)
  edit hrid he _ _ := .put he rfl (.inl hrid)
  obtain := Keeps.obtain
  create registry batch kind hrid _ := .create registry batch kind hrid
  load _ _ hrid := .modify (fun _ => rfl) (.inl hrid)
  evict := Keeps.foldl_remove
  tell _ _ _ := .of_get? fun _ => rfl

structure Purged (s s' : Store) : Prop where
  ledger : s'.ledger = s.ledger
  number : s'.nextReplica = s.nextReplica
  back : ∀ {x e'}, s'.get? x = some e' →
    ∃ e, s.get? x = some e ∧ e' = { e with indirect := e'.indirect }
  held : ∀ {x e}, s.get? x = some e → 0 < e.direct →
    ∃ e', s'.get? x = some e' ∧ e' = { e with indirect := e'.indirect }

namespace Purged

variable {s s' s'' : Store}

theorem refl (s : Store) : s.Purged s := ⟨rfl, rfl, fun he => ⟨_, he, rfl⟩, fun he _ => ⟨_, he, rfl⟩⟩

theorem trans (h : s.Purged s') (h' : s'.Purged s'') : s.Purged s'' := by
  refine ⟨h'.ledger.trans h.ledger, h'.number.trans h.number, fun {x e''} he'' => ?_,
    fun {x e} he hpos => ?_⟩
  · obtain ⟨e', he', heq'⟩ := h'.back he''
    obtain ⟨e, he, heq⟩ := h.back he'
    refine ⟨e, he, ?_⟩
    rw [heq', heq]
  · obtain ⟨e', he', heq⟩ := h.held he hpos
    obtain ⟨e'', he'', heq'⟩ := h'.held he' (by rw [heq]; exact hpos)
    refine ⟨e'', he'', ?_⟩
    rw [heq', heq]

theorem recount (s : Store) (rid : String) (count : Nat → Nat) :
    s.Purged (s.modify rid fun e => { e with indirect := count e.indirect }) := by
  refine ⟨rfl, rfl, fun {x e'} he' => ?_, fun {x e} he _ => ?_⟩
  · rw [get?_modify] at he'
    by_cases hx : rid = x
    · rw [if_pos hx] at he'
      obtain ⟨e, he, rfl⟩ := Option.map_eq_some_iff.mp he'
      exact ⟨e, he, rfl⟩
    · rw [if_neg hx] at he'
      exact ⟨e', he', rfl⟩
  · rw [get?_modify]
    by_cases hx : rid = x
    · exact ⟨_, by rw [if_pos hx, he, Option.map_some], rfl⟩
    · exact ⟨e, by rw [if_neg hx, he], rfl⟩

theorem purge : Purge Purged where
  refl := refl
  trans := trans
  recount := recount
  evict {s gone} h := by
    refine ⟨ledger_foldl_remove s gone, ?_, fun {x e'} he' => ?_, fun {x e} he hpos => ?_⟩
    · clear h
      induction gone generalizing s with
      | nil => rfl
      | cons x rest ih => exact @ih (s.remove x)
    · rw [get?_foldl_remove] at he'
      split at he'
      · cases he'
      · exact ⟨e', he', rfl⟩
    · refine ⟨e, ?_, rfl⟩
      rw [get?_foldl_remove, if_neg fun hx => ?_]
      · exact he
      · have hzero := h x hx
        rw [direct_of_get? he] at hzero
        omega

theorem direct (h : s.Purged s') (x : String) : s'.direct x = s.direct x := by
  cases he' : s'.get? x with
  | some e' =>
    obtain ⟨e, he, heq⟩ := h.back he'
    rw [direct_of_get? he', direct_of_get? he, heq]
  | none =>
    unfold Store.direct
    rw [he']
    cases he : s.get? x with
    | none => rfl
    | some e =>
      dsimp only
      rcases Nat.eq_zero_or_pos e.direct with hzero | hpos
      · exact hzero.symm
      · obtain ⟨e', hsome, _⟩ := h.held he hpos
        rw [he'] at hsome
        cases hsome

theorem refs (h : s.Purged s') {x : String} (hpos : 0 < s.direct x) : s'.refs x = s.refs x := by
  obtain ⟨e, he, hd⟩ := get?_of_direct_pos hpos
  obtain ⟨e', he', heq⟩ := h.held he hd
  unfold Store.refs
  rw [he, he', heq]
  rfl

end Purged

def Loads (s s' : Store) : Prop := ∀ x, s.isLoaded x = true → s'.isLoaded x = true

theorem loads_put {s : Store} {rid : String} {e e' : Entry} (he : s.get? rid = some e)
    (hloaded : e.loaded = true → e'.loaded = true) : s.Loads (s.put rid e') := by
  intro x hx
  obtain ⟨ex, hex, hl⟩ := isLoaded_iff.mp hx
  by_cases heq : rid = x
  · subst heq
    rw [he] at hex
    cases hex
    exact isLoaded_iff.mpr ⟨e', by rw [get?_put, if_pos rfl], hloaded hl⟩
  · exact isLoaded_iff.mpr ⟨ex, by rw [get?_put, if_neg heq, hex], hl⟩

theorem loads_modify (s : Store) (rid : String) {f : Entry → Entry}
    (hloaded : ∀ e, e.loaded = true → (f e).loaded = true) : s.Loads (s.modify rid f) := by
  cases he : s.get? rid with
  | none =>
    rw [modify_of_none he]
    exact fun _ => id
  | some e =>
    rw [modify_eq_put he]
    exact loads_put he (hloaded e)

theorem loads_obtain (s : Store) (rid : String) : s.Loads (s.obtain rid).2 := by
  cases he : s.get? rid with
  | some e =>
    rw [obtain_of_get? he]
    exact fun _ => id
  | none =>
    rw [obtain_of_none he]
    intro x hx
    obtain ⟨ex, hex, hl⟩ := isLoaded_iff.mp hx
    have hne : ¬ rid = x := fun heq => by
      rw [← heq, he] at hex
      cases hex
    refine isLoaded_iff.mpr ⟨ex, ?_, hl⟩
    rw [get?_put, if_neg hne]
    exact hex

theorem Loads.frame : Frame (fun _ => True) Loads where
  refl _ _ := id
  trans h h' x hx := h' x (h x hx)
  recount s rid _ := loads_modify s rid fun _ => id
  edit _ he _ _ := loads_put he id
  obtain := loads_obtain
  create _ _ _ _ _ := loads_modify _ _ fun _ => id
  load s rid _ := loads_modify s rid fun _ _ => rfl

def Presents (s : Store) (rid : String) (id : Nat) (kind : Kind) : Prop :=
  ∃ e r, s.get? rid = some e ∧ e.replica = some r ∧ r.id = id ∧ r.content.kind = kind

def Editing (R : Store → Store → Prop) (rid : String) (id : Nat) (kind : Kind) (s s' : Store) :
    Prop := s.Presents rid id kind → R s s' ∧ s'.Presents rid id kind

theorem presents_recount {s : Store} {rid : String} {id : Nat} {kind : Kind}
    (h : s.Presents rid id kind) (x : String) (count : Nat → Nat) :
    (s.modify x fun e => { e with indirect := count e.indirect }).Presents rid id kind := by
  obtain ⟨e, r, he, hr, hshown⟩ := h
  by_cases hx : x = rid
  · subst hx
    refine ⟨{ e with indirect := count e.indirect }, r, ?_, hr, hshown⟩
    rw [get?_modify, if_pos rfl, he, Option.map_some]
  · refine ⟨e, r, ?_, hr, hshown⟩
    rw [get?_modify, if_neg hx]
    exact he

theorem IgnoresCounts.editing {R : Store → Store → Prop} (hR : IgnoresCounts R) (rid : String)
    (id : Nat) (kind : Kind) : IgnoresCounts (Editing R rid id kind) where
  refl s hs := ⟨hR.refl s, hs⟩
  trans h h' hs := ⟨hR.trans (h hs).1 (h' (h hs).2).1, (h' (h hs).2).2⟩
  recount s x count hs := ⟨hR.recount s x count, presents_recount hs x count⟩

end Store

namespace Op

variable {α β : Type} {R : Store → Store → Prop} {touched : String → Prop}

def left (op : Op α) (w : Work) : Work :=
  match op w with
  | .ok _ w' => w'
  | .error _ w' => w'

theorem left_of_ok {op : Op α} {w w' : Work} {a : α} (h : op w = .ok a w') : op.left w = w' := by
  rw [left, h]

theorem left_of_error {op : Op α} {w w' : Work} {e : CacheError} (h : op w = .error e w') :
    op.left w = w' := by
  rw [left, h]

theorem left_bind (op : Op α) (f : α → Op β) (w : Work) : (op >>= f).left w =
    match op w with
    | .ok a w' => (f a).left w'
    | .error _ w' => w' := by
  unfold left
  cases hop : op w with
  | ok a w' => rw [bind_of_ok f hop]
  | error e w' => rw [bind_of_error f hop]

theorem bind_eq_ok {op : Op α} {f : α → Op β} {w w' : Work} {b : β}
    (h : (op >>= f) w = .ok b w') : ∃ a w₁, op w = .ok a w₁ ∧ f a w₁ = .ok b w' := by
  cases hop : op w with
  | ok a w₁ =>
    rw [bind_of_ok f hop] at h
    exact ⟨a, w₁, rfl, h⟩
  | error e w₁ =>
    rw [bind_of_error f hop] at h
    cases h

/-- A relation between stores goes through an operation. -/
def Within (R : Store → Store → Prop) (op : Op α) : Prop :=
  ∀ w : Work, R w.store (op.left w).store

/-- An operation keeps what it does not touch. -/
def Keeps (touched : String → Prop) (op : Op α) : Prop :=
  ∀ w : Work, w.store.Keeps touched (op.left w).store

end Op

namespace Store.IgnoresCounts

open Op

variable {α β γ : Type} {R : Store → Store → Prop} (hR : IgnoresCounts R)

include hR

theorem of_same {op : Op α} (h : ∀ w, (op.left w).store = w.store) : op.Within R := by
  intro w
  rw [h]
  exact hR.refl _

theorem pure (a : α) : (Pure.pure a : Op α).Within R := hR.of_same fun _ => rfl

theorem throw (e : CacheError) : (MonadExcept.throw e : Op α).Within R := hR.of_same fun _ => rfl

theorem liftStore (f : Store → Except CacheError α) : (Op.liftStore f).Within R := by
  apply hR.of_same
  intro w
  unfold left Op.liftStore
  cases f w.store <;> rfl

theorem emit (event : ResourceEvent) : (Op.emit event).Within R := hR.of_same fun _ => rfl

theorem report (error : CacheError) : (Op.report error).Within R := hR.of_same fun _ => rfl

theorem orphan (rid : String) : (Op.orphan rid).Within R := hR.of_same fun _ => rfl

theorem bind_at {op : Op α} {f : α → Op β} {w : Work} (hop : op.Within R)
    (hf : ∀ a w', op w = .ok a w' → R w'.store ((f a).left w').store) :
    R w.store ((op >>= f).left w).store := by
  have hfirst := hop w
  rw [left_bind]
  cases hrun : op w with
  | ok a w' =>
    rw [left_of_ok hrun] at hfirst
    exact hR.trans hfirst (hf a w' hrun)
  | error e w' =>
    rw [left_of_error hrun] at hfirst
    exact hfirst

theorem bind {op : Op α} {f : α → Op β} (hop : op.Within R) (hf : ∀ a, (f a).Within R) :
    (op >>= f).Within R := fun _ => hR.bind_at hop fun a w' _ => hf a w'

theorem forM {l : List γ} {f : γ → Op Unit} (h : ∀ x ∈ l, (f x).Within R) : (l.forM f).Within R := by
  induction l with
  | nil => exact hR.pure ()
  | cons x rest ih =>
    have hrest : ∀ y ∈ rest, (f y).Within R := fun y hy => h y (List.mem_cons_of_mem _ hy)
    exact hR.bind (h x List.mem_cons_self) fun _ => ih hrest

theorem addIndirect (rid : String) : (Op.addIndirect rid).Within R :=
  hR.bind (hR.liftStore _) fun _ w => hR.recount w.store rid (· + 1)

theorem removeIndirect (rid : String) : (Op.removeIndirect rid).Within R := by
  have hless : (modifyStore (·.modify rid fun e => { e with indirect := e.indirect - 1 })).Within
      R := fun w => hR.recount w.store rid (· - 1)
  refine hR.bind (hR.liftStore _) fun e => ?_
  split
  · exact hR.bind (hR.throw _) fun _ => hless
  · exact hless

theorem releaseReference (rid : String) : (Op.releaseReference rid).Within R := by
  refine hR.bind (hR.removeIndirect rid) fun _ => hR.bind (hR.liftStore _) fun e => ?_
  split
  · exact hR.orphan rid
  · exact hR.pure ()

theorem countValue (value : Value) : (Op.countValue value).Within R := by
  unfold Op.countValue
  split
  · exact hR.addIndirect _
  · exact hR.pure ()

theorem releaseValue (value : Value) : (Op.releaseValue value).Within R := by
  unfold Op.releaseValue
  split
  · exact hR.releaseReference _
  · exact hR.pure ()

theorem judged (rid : String) (outcome : Outcome Bool) : (Op.judged rid outcome).Within R := by
  unfold Op.judged
  split
  · exact hR.pure _
  · exact hR.bind (hR.report _) fun _ => hR.pure _

theorem emitIf (rid : String) (outcome : Outcome Bool) (event : ResourceEvent) :
    (do if ← Op.judged rid outcome then Op.emit event : Op Unit).Within R := by
  refine hR.bind (hR.judged rid outcome) fun passed => ?_
  split
  · exact hR.emit event
  · exact hR.pure ()

theorem parseCounted (token : Json) : (Op.parseCounted token).Within R :=
  hR.bind (hR.liftStore _) fun v => hR.bind (hR.countValue v) fun _ => hR.pure v

theorem parseFieldsCounted (entries : List (String × Json)) :
    (Op.parseFieldsCounted entries).Within R := by
  induction entries with
  | nil => exact hR.pure []
  | cons e rest ih =>
    exact hR.bind (hR.parseCounted e.2) fun _ => hR.bind ih fun _ => hR.pure _

theorem parseValuesCounted (tokens : List Json) : (Op.parseValuesCounted tokens).Within R := by
  induction tokens with
  | nil => exact hR.pure []
  | cons token rest ih =>
    exact hR.bind (hR.parseCounted token) fun _ => hR.bind ih fun _ => hR.pure _

theorem judgedInit (rid : String) (outcome : Outcome Unit) :
    (do let _ ← Op.judged rid (outcome.map fun _ => true) : Op Unit).Within R :=
  hR.bind (hR.judged rid _) fun _ => hR.pure ()

theorem releaseAll (rid : String) : (Op.releaseAll rid).Within R :=
  hR.bind (hR.liftStore _) fun _ => hR.forM fun t _ => hR.removeIndirect t

theorem need {flaw : EventFlaw} (rid name : String) (part : Option α) :
    (Op.need rid name flaw part).Within R := by
  unfold Op.need
  split
  · exact hR.pure _
  · exact hR.throw _

end Store.IgnoresCounts

namespace Store.Frame

open Op

variable {α : Type} {touched : String → Prop} {R : Store → Store → Prop} {rid : String}
  (hF : Frame touched R)

include hF

theorem setReplica (hrid : touched rid) {r : Replica} {id : Nat} {kind : Kind} (hid : r.id = id)
    (hkind : r.content.kind = kind) : (Op.setReplica rid r).Within (Editing R rid id kind) := by
  rintro w ⟨e, r', he, hr', hid', hkind'⟩
  have hstore : ((Op.setReplica rid r).left w).store =
      w.store.put rid { e with replica := some r } := modify_eq_put he _
  rw [hstore]
  refine ⟨hF.edit hrid he hr' ⟨hid.trans hid'.symm, .inl (hkind.trans hkind'.symm)⟩, ?_⟩
  exact ⟨_, r, by rw [get?_put, if_pos rfl], rfl, hid, hkind⟩

theorem of_replica {f : Replica → Op α}
    (hf : ∀ r, (f r).Within (Editing R rid r.id r.content.kind)) :
    (Op.replica rid >>= f).Within R := by
  intro w
  refine hF.bind_at (hF.liftStore _) fun r w' hrun => ?_
  refine (hf r w' ?_).1
  unfold Op.replica Op.liftStore at hrun
  cases he : w.store.get? rid with
  | none =>
    simp only [he, Option.bind_none] at hrun
    cases hrun
  | some e =>
    cases hr : e.replica with
    | none =>
      simp only [he, Option.bind_some, hr] at hrun
      cases hrun
    | some r' =>
      simp only [he, Option.bind_some, hr] at hrun
      cases hrun
      exact ⟨e, r, he, hr, rfl, rfl⟩

theorem applyChange (hrid : touched rid) (changes : Fields) :
    (Op.applyChange rid changes).Within R := by
  refine hF.of_replica fun r => ?_
  have hE := hF.editing rid r.id r.content.kind
  split
  · rename_i fields hfields
    have hset (r' : Replica) (hid : r'.id = r.id) (hkind : r'.content.kind = .model) :
        (Op.setReplica rid r').Within (Editing R rid r.id r.content.kind) :=
      hF.setReplica hrid hid (by rw [hkind, hfields]; rfl)
    dsimp only
    split
    · exact hE.pure ()
    · refine hE.bind (hset _ rfl rfl) fun _ =>
        hE.bind (hE.forM fun v _ => hE.countValue v) fun _ =>
          hE.bind (hE.forM fun v _ => hE.releaseValue v) fun _ =>
            hE.bind (hset _ rfl rfl) fun _ => ?_
      split
      · exact hE.emit _
      · exact hE.pure ()
      · exact hE.report _
  · exact hE.throw _

theorem applyAdd (hrid : touched rid) (index : Nat) (value : Value) :
    (Op.applyAdd rid index value).Within R := by
  refine hF.of_replica fun r => ?_
  have hE := hF.editing rid r.id r.content.kind
  split
  · rename_i values hvalues
    have hset (r' : Replica) (hid : r'.id = r.id) (hkind : r'.content.kind = .collection) :
        (Op.setReplica rid r').Within (Editing R rid r.id r.content.kind) :=
      hF.setReplica hrid hid (by rw [hkind, hvalues]; rfl)
    have hinsert : (do
        Op.setReplica rid (r.withContent (.collection (values.insertIdx index value)))
        Op.countValue value
        let hooked := r.hooks.add r.turn (values.insertIdx index value) index value
        Op.setReplica rid (r.hooked (.collection hooked.1))
        if ← Op.judged rid hooked.2 then Op.emit (.add rid index value) : Op Unit).Within
          (Editing R rid r.id r.content.kind) :=
      hE.bind (hset _ rfl rfl) fun _ => hE.bind (hE.countValue value) fun _ =>
        hE.bind (hset _ rfl rfl) fun _ => hE.emitIf rid _ _
    split
    · exact hE.bind (hE.throw _) fun _ => hinsert
    · exact hinsert
  · exact hE.throw _

theorem applyRemove (hrid : touched rid) (index : Nat) :
    (Op.applyRemove rid index).Within R := by
  refine hF.of_replica fun r => ?_
  have hE := hF.editing rid r.id r.content.kind
  split
  · rename_i values hvalues
    have hset (r' : Replica) (hid : r'.id = r.id) (hkind : r'.content.kind = .collection) :
        (Op.setReplica rid r').Within (Editing R rid r.id r.content.kind) :=
      hF.setReplica hrid hid (by rw [hkind, hvalues]; rfl)
    split
    · exact hE.throw _
    · exact hE.bind (hset _ rfl rfl) fun _ => hE.bind (hE.releaseValue _) fun _ =>
        hE.bind (hset _ rfl rfl) fun _ => hE.emitIf rid _ _
  · exact hE.throw _

theorem applyCustom (hrid : touched rid) (name : String) (data : Option Json) :
    (Op.applyCustom rid name data).Within R := by
  refine hF.of_replica fun r => ?_
  have hE := hF.editing rid r.id r.content.kind
  split
  · rename_i fields hfields
    exact hE.bind (hF.setReplica hrid rfl (by rw [hfields]; rfl)) fun _ => hE.emitIf rid _ _
  · rename_i values hvalues
    exact hE.bind (hF.setReplica hrid rfl (by rw [hvalues]; rfl)) fun _ => hE.emitIf rid _ _
  · exact hE.pure ()

theorem initContent (hrid : touched rid) (batch : Batch) : (Op.initContent batch rid).Within R := by
  refine hF.of_replica fun r => ?_
  have hE := hF.editing rid r.id r.content.kind
  split
  · refine hE.bind (hE.parseFieldsCounted _) fun fields => ?_
    split
    · rename_i old hold
      exact hE.bind (hF.setReplica hrid rfl (by rw [hold]; rfl)) fun _ => hE.judgedInit rid _
    · exact hE.pure ()
  · refine hE.bind (hE.parseValuesCounted _) fun values => ?_
    split
    · rename_i old hold
      exact hE.bind (hF.setReplica hrid rfl (by rw [hold]; rfl)) fun _ => hE.judgedInit rid _
    · exact hE.pure ()
  · exact hE.pure ()

theorem initResource (hrid : touched rid) (batch : Batch) :
    (Op.initResource batch rid).Within R :=
  hF.bind (hF.initContent hrid batch) fun _ => hF.bind (hF.liftStore _) fun _ w =>
    hF.load w.store hrid

theorem applyEdit (hrid : touched rid) (edit : Edit) : (Op.applyEdit rid edit).Within R := by
  cases edit with
  | add index value => exact hF.applyAdd hrid index value
  | remove index => exact hF.applyRemove hrid index

theorem replaceError (hrid : touched rid) (fault : Fault) :
    (Op.replica rid >>= fun r => Op.setReplica rid
      { r with content := .error fault, hooks := .pass }).Within R := by
  intro w
  refine hF.bind_at (hF.liftStore _) fun r w' hrun => ?_
  unfold Op.replica Op.liftStore at hrun
  cases he : w.store.get? rid with
  | none =>
    simp only [he, Option.bind_none] at hrun
    cases hrun
  | some e =>
    cases hr : e.replica with
    | none =>
      simp only [he, Option.bind_some, hr] at hrun
      cases hrun
    | some r' =>
      simp only [he, Option.bind_some, hr] at hrun
      cases hrun
      have hstore : ((Op.setReplica rid
          { r with content := .error fault, hooks := .pass }).left w).store = w.store.put rid
            { e with replica := some { r with content := .error fault, hooks := .pass } } :=
        modify_eq_put he _
      rw [hstore]
      exact hF.edit hrid he hr ⟨rfl, .inr rfl⟩

theorem synchronize (hrid : touched rid) (batch : Batch) (kind : Kind) :
    (Op.synchronize batch rid kind).Within R := by
  cases kind with
  | model =>
    refine hF.bind (hF.liftStore _) fun r => hF.bind (hF.liftStore _) fun fields => ?_
    split
    · dsimp only
      split
      · exact hF.pure ()
      · exact hF.applyChange hrid _
    · exact hF.pure ()
  | collection =>
    refine hF.bind (hF.liftStore _) fun r => hF.bind (hF.liftStore _) fun values => ?_
    split
    · exact hF.forM fun edit _ => hF.applyEdit hrid edit
    · exact hF.pure ()
  | error => exact hF.replaceError hrid _

theorem createAll (registry : Registry) (batch : Batch) {s : Store}
    {incoming : List (String × Kind)} (h : ∀ i ∈ incoming, touched i.1) :
    R s (s.createAll registry batch incoming).1 ∧
      (∀ x ∈ (s.createAll registry batch incoming).2.1, touched x) ∧
      ∀ i ∈ (s.createAll registry batch incoming).2.2, touched i.1 := by
  induction incoming generalizing s with
  | nil => exact ⟨hF.refl s, fun x hx => (by cases hx), fun i hi => (by cases hi)⟩
  | cons first rest ih =>
    obtain ⟨rid, kind⟩ := first
    have hrid : touched rid := h (rid, kind) List.mem_cons_self
    have hrest : ∀ i ∈ rest, touched i.1 := fun i hi => h i (List.mem_cons_of_mem _ hi)
    have hensure : R s (s.ensure rid) := hF.obtain s rid
    rw [Store.createAll]
    dsimp only
    split
    · obtain ⟨hcreates, hcreated, hsynced⟩ := @ih (s.ensure rid) hrest
      refine ⟨hF.trans hensure hcreates, hcreated, fun i hi => ?_⟩
      rcases List.mem_cons.mp hi with rfl | hi
      · exact hrid
      · exact hsynced i hi
    · rename_i hunloaded
      have hcreate := hF.create registry batch kind hrid (Bool.not_eq_true _ ▸ hunloaded)
      obtain ⟨hcreates, hcreated, hsynced⟩ :=
        @ih ((s.ensure rid).create registry batch rid kind) hrest
      refine ⟨hF.trans hensure (hF.trans hcreate hcreates), fun x hx => ?_, hsynced⟩
      rcases List.mem_cons.mp hx with rfl | hx
      · exact hrid
      · exact hcreated x hx

theorem addResources (registry : Registry) {batch : Batch}
    (h : ∀ x, batch.contains x = true → touched x) :
    (Op.addResources registry batch).Within R := by
  have hlisted : ∀ i ∈ batch.incoming, touched i.1 := by
    intro i hi
    exact h i.1 (Batch.mem_rids_iff.mp (List.mem_map_of_mem hi))
  refine hF.bind (hF.liftStore _) fun _ => hF.bind (hF.liftStore _) fun _ => ?_
  intro w
  refine hF.bind_at (hF.of_same fun _ => rfl) fun w₀ w₁ hget => ?_
  cases hget
  obtain ⟨hcreates, hcreated, hsynced⟩ := @createAll _ _ hF registry batch w.store _ hlisted
  have hrest : (do
      (w.store.createAll registry batch batch.incoming).2.1.forM (Op.initResource batch)
      (w.store.createAll registry batch batch.incoming).2.2.forM fun i =>
        Op.synchronize batch i.1 i.2
      Pure.pure (w.store.createAll registry batch batch.incoming).2.1 :
        Op (List String)).Within R :=
    hF.bind (hF.forM fun x hx => hF.initResource (hcreated x hx) batch) fun _ =>
      hF.bind (hF.forM fun i hi => hF.synchronize (hsynced i hi) batch i.2) fun _ => hF.pure _
  exact hF.trans hcreates (hrest ⟨(w.store.createAll registry batch batch.incoming).1, w.out⟩)

end Store.Frame

namespace Op

variable {registry : Registry} {batch : Batch} {w w' : Work} {created : List String} {rid : String}

theorem isLoaded_of_initResource (h : initResource batch rid w = .ok () w') :
    w'.store.isLoaded rid = true := by
  obtain ⟨_, w₁, _, hentry⟩ := bind_eq_ok h
  obtain ⟨e, w₂, hread, hload⟩ := bind_eq_ok hentry
  cases hload
  unfold entry liftStore at hread
  cases he : w₁.store.get? rid with
  | none =>
    simp only [he] at hread
    cases hread
  | some e' =>
    simp only [he] at hread
    cases hread
    refine Store.isLoaded_iff.mpr ⟨{ e with loaded := true }, ?_, rfl⟩
    rw [Store.get?_modify, if_pos rfl, he, Option.map_some]

theorem isLoaded_of_initAll (h : created.forM (initResource batch) w = .ok () w') :
    ∀ x ∈ created, w'.store.isLoaded x = true := by
  induction created generalizing w with
  | nil => exact fun x hx => by cases hx
  | cons rid rest ih =>
    obtain ⟨_, w₁, hfirst, hrest⟩ := bind_eq_ok h
    intro x hx
    rcases List.mem_cons.mp hx with rfl | hx
    · have hinit (y : String) : (initResource batch y).Within Store.Loads :=
        Store.Loads.frame.initResource trivial batch
      have hloads := Store.Loads.frame.forM (fun y _ => hinit y) w₁ (l := rest)
      have hrun := left_of_ok hrest
      unfold left at hloads hrun
      rw [hrun] at hloads
      exact hloads x (isLoaded_of_initResource hfirst)
    · exact ih hrest x hx

theorem isLoaded_of_addResources (h : addResources registry batch w = .ok created w') :
    ∀ x ∈ created, w'.store.isLoaded x = true := by
  obtain ⟨_, w₁, _, h⟩ := bind_eq_ok h
  obtain ⟨_, w₂, _, h⟩ := bind_eq_ok h
  obtain ⟨w₃, w₄, _, h⟩ := bind_eq_ok h
  obtain ⟨_, w₅, _, h⟩ := bind_eq_ok h
  obtain ⟨_, w₆, hinit, h⟩ := bind_eq_ok h
  obtain ⟨_, w₇, hsync, h⟩ := bind_eq_ok h
  cases h
  intro x hx
  have hsynchronize (i : String × Kind) : (synchronize batch i.1 i.2).Within Store.Loads :=
    Store.Loads.frame.synchronize trivial batch i.2
  have hloads := Store.Loads.frame.forM (fun i _ => hsynchronize i) w₆
    (l := (w₃.store.createAll registry batch batch.incoming).2.2)
  have hrun := left_of_ok hsync
  unfold left at hloads hrun
  rw [hrun] at hloads
  exact hloads x (isLoaded_of_initAll hinit x hx)

end Op

namespace Store.Purge

open Op

variable {R : Store → Store → Prop} (hP : Purge R)

include hP

theorem tryDelete (rid : String) : (Op.tryDelete rid).Within R := by
  intro w
  refine hP.bind_at (hP.of_same fun _ => rfl) fun w₀ w₁ hget => ?_
  cases hget
  dsimp only
  split
  · exact hP.refl _
  · split
    · exact hP.refl _
    · refine hP.bind_at (hP.forM fun x _ => hP.releaseAll x) fun _ w₁ hrun => ?_
      rw [left_bind, modifyStore_run]
      refine hP.evict fun x hx => ?_
      -- what is doomed had no subscription before the references were given back
      have hkeeps := Keeps.upkeep fun _ => False
      have hreleased := hkeeps.forM (fun x _ => hkeeps.releaseAll x) w (l := w.store.doomed rid)
      rw [left_of_ok hrun] at hreleased
      obtain ⟨e, he, hzero⟩ := (Store.mem_doomed.mp hx).1.idle
      rw [hreleased.direct, Store.direct_of_get? he]
      exact hzero

theorem collect (candidates : List String) : (Op.collect candidates).Within R := by
  induction candidates with
  | nil => exact hP.pure ()
  | cons rid rest ih =>
    intro w
    have hstep : (Op.tryDelete rid >>= fun _ => Op.collect rest).Within R :=
      hP.bind (hP.tryDelete rid) fun _ => ih
    have hdelete := hstep w
    have hskip := ih w
    unfold left at hdelete hskip ⊢
    rw [collect_cons]
    cases w.store.get? rid with
    | none => exact hskip
    | some e =>
      by_cases hzero : e.direct = 0
      · simp only [hzero, if_true]
        exact hdelete
      · simp only [hzero, if_false]
        exact hskip

end Store.Purge

namespace Store.Upkeep

open Op

variable {touched : String → Prop} {R : Store → Store → Prop} (hU : Upkeep touched R)

include hU

theorem settleLoaded {s : Store} {rid : String} (hloaded : s.isLoaded rid = true) :
    R s (s.settleLoaded rid) := by
  obtain ⟨e, he, hl⟩ := isLoaded_iff.mp hloaded
  unfold Store.settleLoaded
  rw [he]
  refine hU.tell he hl fun fault hfault => ?_
  split at hfault
  · rename_i fault' hfault'
    cases hfault
    exact hfault'
  · cases hfault

theorem settlePresent {s : Store} {rid : String} (hloaded : s.isLoaded rid = true) :
    R s (s.settlePresent rid) := by
  obtain ⟨e, he, hl⟩ := isLoaded_iff.mp hloaded
  unfold Store.settlePresent
  rw [he]
  exact hU.tell he hl fun fault hfault => by cases hfault

theorem foldl_tell {announce : Store → String → Store}
    (hget : ∀ s rid x, (announce s rid).get? x = s.get? x)
    (hannounce : ∀ {s rid}, s.isLoaded rid = true → R s (announce s rid)) {s : Store}
    {created : List String} (hcreated : ∀ x ∈ created, s.isLoaded x = true) :
    R s (created.foldl announce s) := by
  induction created generalizing s with
  | nil => exact hU.refl s
  | cons rid rest ih =>
    refine hU.trans (hannounce (hcreated rid List.mem_cons_self)) (ih fun x hx => ?_)
    obtain ⟨e, he, hl⟩ := isLoaded_iff.mp (hcreated x (List.mem_cons_of_mem _ hx))
    exact isLoaded_iff.mpr ⟨e, by rw [hget, he], hl⟩

theorem mergeEmbedded (registry : Registry) (rid name : String) {data : Json}
    (h : ∀ batch, Batch.ofJson data = .ok batch → ∀ x, batch.contains x = true → touched x) :
    (Op.mergeEmbedded registry rid name data).Within R := by
  unfold Op.mergeEmbedded
  split
  · exact hU.throw _
  · rename_i batch hbatch
    intro w
    refine hU.bind_at (hU.addResources registry (h batch hbatch)) fun created w' hrun => ?_
    have hrest : (created.forM Op.orphan).Within R := hU.forM fun x _ => hU.orphan x
    have hget (s : Store) (rid x : String) : (s.settlePresent rid).get? x = s.get? x := by
      unfold Store.settlePresent
      split <;> rfl
    have htell : R w'.store (created.foldl Store.settlePresent w'.store) :=
      hU.foldl_tell hget hU.settlePresent (isLoaded_of_addResources hrun)
    exact hU.trans htell (hrest ⟨created.foldl Store.settlePresent w'.store, w'.out⟩)

end Store.Upkeep

namespace Op

variable {touched : String → Prop}

theorem keeps_mergeEmbedded (registry : Registry) (rid name : String) {data : Json}
    (h : ∀ batch, Batch.ofJson data = .ok batch → ∀ x, batch.contains x = true → touched x) :
    (mergeEmbedded registry rid name data).Keeps touched :=
  (Store.Keeps.upkeep touched).mergeEmbedded registry rid name h

end Op

end LiveResource
