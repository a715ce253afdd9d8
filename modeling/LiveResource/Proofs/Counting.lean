import LiveResource.Proofs.Dict
import LiveResource.Store.Basic

set_option autoImplicit false

/-!
# Counting references

Store operations run step by step: what one of them does is stated as an equation of its result.
To count references and to give them back changes nothing of a store but the counts.
-/

namespace LiveResource

namespace Op

variable {α β : Type} {w w' : Work} {a : α} {e : CacheError}

theorem bind_of_ok {x : Op α} (f : α → Op β) (h : x w = .ok a w') : (x >>= f) w = f a w' := by
  change EStateM.bind x f w = f a w'
  rw [EStateM.bind, h]

theorem bind_of_error {x : Op α} (f : α → Op β) (h : x w = .error e w') :
    (x >>= f) w = .error e w' := by
  change EStateM.bind x f w = .error e w'
  rw [EStateM.bind, h]

theorem entry_of_get? {rid : String} {entry : Entry} (h : w.store.get? rid = some entry) :
    Op.entry rid w = .ok entry w := by
  simp only [Op.entry, liftStore, h]

theorem replica_of_get? {rid : String} {entry : Entry} {r : Replica}
    (h : w.store.get? rid = some entry) (hr : entry.replica = some r) :
    Op.replica rid w = .ok r w := by
  simp only [Op.replica, liftStore, h, Option.bind_some, hr]

theorem liftStore_of_ok {f : Store → Except CacheError α} (h : f w.store = .ok a) :
    liftStore f w = .ok a w := by
  simp only [liftStore, h]

theorem liftStore_of_error {f : Store → Except CacheError α} (h : f w.store = .error e) :
    liftStore f w = .error e w := by
  simp only [liftStore, h]

theorem modifyStore_run (f : Store → Store) : modifyStore f w = .ok () ⟨f w.store, w.out⟩ := rfl

end Op

namespace Store

theorem ext_get? {s s' : Store} (h : ∀ rid, s.get? rid = s'.get? rid)
    (hretired : s.retired = s'.retired) (hledger : s.ledger = s'.ledger)
    (hnext : s.nextReplica = s'.nextReplica) : s = s' := by
  obtain ⟨entries, retired, ledger, next⟩ := s
  obtain ⟨entries', retired', ledger', next'⟩ := s'
  have hentries : entries = entries' := Dict.ext_get? h
  subst hentries hretired hledger hnext
  rfl

@[simp] theorem get?_empty (rid : String) : Store.empty.get? rid = none := rfl

theorem get?_put (s : Store) (rid : String) (e : Entry) (x : String) :
    (s.put rid e).get? x = if rid = x then some e else s.get? x :=
  Dict.get?_insert s.entries rid e x

theorem get?_modify (s : Store) (rid : String) (f : Entry → Entry) (x : String) :
    (s.modify rid f).get? x = if rid = x then (s.get? x).map f else s.get? x :=
  Dict.get?_modify s.entries rid f x

@[simp] theorem get?_settle (s : Store) (t : Ticket) (outcome : Outcome Unit) (x : String) :
    (s.settle t outcome).get? x = s.get? x := rfl

def recount (s : Store) (f : String → Nat → Nat) : Store :=
  { s with entries := s.entries.mapWithKey fun rid e => { e with indirect := f rid e.indirect } }

def gain (s : Store) (targets : List String) : Store :=
  s.recount fun rid n => n + targets.count rid

def lose (s : Store) (targets : List String) : Store :=
  s.recount fun rid n => n - targets.count rid

def rewrite (s : Store) (rid : String) (replica : Replica) : Store :=
  s.modify rid fun e => { e with replica := some replica }

theorem get?_recount (s : Store) (f : String → Nat → Nat) (rid : String) :
    (s.recount f).get? rid = (s.get? rid).map fun e => { e with indirect := f rid e.indirect } :=
  Dict.get?_mapWithKey _ s.entries rid

theorem get?_gain (s : Store) (targets : List String) (rid : String) :
    (s.gain targets).get? rid =
      (s.get? rid).map fun e => { e with indirect := e.indirect + targets.count rid } :=
  get?_recount s _ rid

theorem get?_lose (s : Store) (targets : List String) (rid : String) :
    (s.lose targets).get? rid =
      (s.get? rid).map fun e => { e with indirect := e.indirect - targets.count rid } :=
  get?_recount s _ rid

theorem get?_rewrite (s : Store) (rid : String) (replica : Replica) (x : String) :
    (s.rewrite rid replica).get? x =
      if rid = x then (s.get? x).map fun e => { e with replica := some replica } else s.get? x :=
  get?_modify s rid _ x

theorem recount_recount (s : Store) (f g : String → Nat → Nat) :
    (s.recount f).recount g = s.recount fun rid n => g rid (f rid n) := by
  refine ext_get? (fun x => ?_) rfl rfl rfl
  rw [get?_recount, get?_recount, get?_recount]
  cases s.get? x <;> rfl

@[simp] theorem gain_nil (s : Store) : s.gain [] = s := by
  refine ext_get? (fun x => ?_) rfl rfl rfl
  rw [get?_gain]
  cases s.get? x <;> rfl

@[simp] theorem lose_nil (s : Store) : s.lose [] = s := by
  refine ext_get? (fun x => ?_) rfl rfl rfl
  rw [get?_lose]
  cases s.get? x <;> rfl

theorem gain_gain (s : Store) (ts us : List String) : (s.gain ts).gain us = s.gain (ts ++ us) := by
  simp only [gain, recount_recount, List.count_append, Nat.add_assoc]

theorem lose_lose (s : Store) (ts us : List String) : (s.lose ts).lose us = s.lose (ts ++ us) := by
  simp only [lose, recount_recount, List.count_append, Nat.sub_sub]

theorem rewrite_recount (s : Store) (rid : String) (r : Replica) (f : String → Nat → Nat) :
    (s.rewrite rid r).recount f = (s.recount f).rewrite rid r := by
  have hnext : ((s.rewrite rid r).recount f).nextReplica =
      ((s.recount f).rewrite rid r).nextReplica := rfl
  refine ext_get? (fun x => ?_) rfl rfl hnext
  rw [get?_recount, get?_rewrite, get?_rewrite, get?_recount]
  by_cases h : rid = x
  · rw [if_pos h, if_pos h]
    cases s.get? x <;> rfl
  · rw [if_neg h, if_neg h]

theorem rewrite_gain (s : Store) (rid : String) (r : Replica) (ts : List String) :
    (s.rewrite rid r).gain ts = (s.gain ts).rewrite rid r :=
  rewrite_recount s rid r _

theorem rewrite_lose (s : Store) (rid : String) (r : Replica) (ts : List String) :
    (s.rewrite rid r).lose ts = (s.lose ts).rewrite rid r :=
  rewrite_recount s rid r _

theorem rewrite_rewrite (s : Store) (rid : String) (r r' : Replica) :
    (s.rewrite rid r).rewrite rid r' = s.rewrite rid r' := by
  refine ext_get? (fun x => ?_) rfl rfl rfl
  rw [get?_rewrite, get?_rewrite, get?_rewrite]
  by_cases h : rid = x
  · simp only [if_pos h]
    cases s.get? x <;> rfl
  · simp only [if_neg h]

end Store

namespace Op

variable {w : Work} {rid : String} {e : Entry}

theorem setReplica_run (r : Replica) :
    setReplica rid r w = .ok () ⟨w.store.rewrite rid r, w.out⟩ := rfl

theorem addIndirect_run (h : w.store.get? rid = some e) :
    addIndirect rid w = .ok () ⟨w.store.gain [rid], w.out⟩ := by
  rw [addIndirect, bind_of_ok _ (entry_of_get? h), modifyStore_run]
  congr 2
  refine Store.ext_get? (fun x => ?_) rfl rfl rfl
  rw [Store.get?_modify, Store.get?_gain]
  by_cases hx : rid = x
  · subst hx
    simp
  · simp [hx]

theorem removeIndirect_run (h : w.store.get? rid = some e) (hpos : 0 < e.indirect) :
    removeIndirect rid w = .ok () ⟨w.store.lose [rid], w.out⟩ := by
  have hne : ¬ e.indirect = 0 := by omega
  rw [removeIndirect, bind_of_ok _ (entry_of_get? h)]
  simp only [hne, if_false]
  change modifyStore _ w = _
  rw [modifyStore_run]
  congr 2
  refine Store.ext_get? (fun x => ?_) rfl rfl rfl
  rw [Store.get?_modify, Store.get?_lose]
  by_cases hx : rid = x
  · subst hx
    simp
  · simp [hx]

end Op

namespace Store

def Covers (s : Store) (targets : List String) : Prop :=
  ∀ t ∈ targets, ∃ e, s.get? t = some e ∧ targets.count t ≤ e.indirect

theorem Covers.left {s : Store} {ts us : List String} (h : s.Covers (ts ++ us)) :
    s.Covers ts := by
  intro x hx
  obtain ⟨e, he, hle⟩ := h x (List.mem_append_left _ hx)
  rw [List.count_append] at hle
  exact ⟨e, he, by omega⟩

theorem Covers.right {s : Store} {ts us : List String} (h : s.Covers (ts ++ us)) :
    (s.lose ts).Covers us := by
  intro x hx
  obtain ⟨e, he, hle⟩ := h x (List.mem_append_right _ hx)
  rw [List.count_append] at hle
  refine ⟨_, by rw [get?_lose, he]; rfl, ?_⟩
  change us.count x ≤ e.indirect - ts.count x
  omega

theorem Covers.rewrite {s : Store} {targets : List String} (h : s.Covers targets) (rid : String)
    (r : Replica) : (s.rewrite rid r).Covers targets := by
  intro t ht
  obtain ⟨e, he, hle⟩ := h t ht
  rw [get?_rewrite, he]
  split
  · exact ⟨_, rfl, hle⟩
  · exact ⟨_, rfl, hle⟩

theorem Covers.gain {s : Store} {held gained lost : List String} (h : s.Covers held)
    (hgained : ∀ t ∈ gained, ∃ e, s.get? t = some e)
    (hlost : ∀ t, lost.count t ≤ held.count t + gained.count t) : (s.gain gained).Covers lost := by
  intro t ht
  have hpos := List.count_pos_iff.mpr ht
  have hlostt := hlost t
  by_cases hheld : t ∈ held
  · obtain ⟨e, he, hle⟩ := h t hheld
    refine ⟨_, by rw [get?_gain, he]; rfl, ?_⟩
    change lost.count t ≤ e.indirect + gained.count t
    omega
  · have hzero := List.count_eq_zero.mpr hheld
    obtain ⟨e, he⟩ := hgained t (List.count_pos_iff.mp (by omega))
    refine ⟨_, by rw [get?_gain, he]; rfl, ?_⟩
    change lost.count t ≤ e.indirect + gained.count t
    omega

def unheld (s : Store) (targets : List String) : List String :=
  targets.filter fun t => (s.get? t).any fun e => e.direct = 0

theorem unheld_recount (s : Store) (f : String → Nat → Nat) (targets : List String) :
    (s.recount f).unheld targets = s.unheld targets := by
  unfold unheld
  congr 1
  funext t
  rw [get?_recount]
  cases s.get? t <;> rfl

theorem unheld_rewrite (s : Store) (rid : String) (r : Replica) (targets : List String) :
    (s.rewrite rid r).unheld targets = s.unheld targets := by
  unfold unheld
  congr 1
  funext t
  rw [get?_rewrite]
  by_cases h : rid = t
  · rw [if_pos h]
    cases s.get? t <;> rfl
  · rw [if_neg h]

theorem mem_unheld {s : Store} {targets : List String} {t : String} {e : Entry}
    (ht : t ∈ targets) (h : s.get? t = some e) (hdirect : e.direct = 0) : t ∈ s.unheld targets := by
  refine List.mem_filter.mpr ⟨ht, ?_⟩
  simp [h, hdirect]

end Store

namespace Op

theorem hardRefs_cons (v : Value) (values : List Value) :
    hardRefs (v :: values) = hardRefs [v] ++ hardRefs values := by
  rw [hardRefs, ← List.singleton_append, List.filterMap_append]
  rfl

theorem countValue_run {v : Value} {w : Work}
    (h : ∀ t ∈ hardRefs [v], ∃ e, w.store.get? t = some e) :
    countValue v w = .ok () ⟨w.store.gain (hardRefs [v]), w.out⟩ := by
  cases hv : v.hardRef? with
  | none =>
    have hrefs : hardRefs [v] = [] := List.filterMap_cons_none hv
    rw [hrefs, Store.gain_nil]
    simp only [countValue, hv]
    rfl
  | some t =>
    have hrefs : hardRefs [v] = [t] := List.filterMap_cons_some hv
    rw [hrefs] at h ⊢
    obtain ⟨e, he⟩ := h t List.mem_cons_self
    simp only [countValue, hv]
    exact addIndirect_run he

theorem countValues_run {values : List Value} {w : Work}
    (h : ∀ t ∈ hardRefs values, ∃ e, w.store.get? t = some e) :
    values.forM countValue w = .ok () ⟨w.store.gain (hardRefs values), w.out⟩ := by
  induction values generalizing w with
  | nil =>
    rw [hardRefs, List.filterMap_nil, Store.gain_nil]
    rfl
  | cons v values ih =>
    rw [hardRefs_cons] at h ⊢
    have hcount := countValue_run fun t ht => h t (List.mem_append_left _ ht)
    change (countValue v >>= fun _ => values.forM countValue) w = _
    rw [bind_of_ok _ hcount, ih, Store.gain_gain]
    intro t ht
    obtain ⟨e, he⟩ := h t (List.mem_append_right _ ht)
    exact ⟨_, by rw [Store.get?_gain, he]; rfl⟩

theorem removeIndirects_run {targets : List String} {w : Work} (h : w.store.Covers targets) :
    targets.forM removeIndirect w = .ok () ⟨w.store.lose targets, w.out⟩ := by
  induction targets generalizing w with
  | nil =>
    rw [Store.lose_nil]
    rfl
  | cons t targets ih =>
    obtain ⟨e, he, hle⟩ := h t List.mem_cons_self
    have hpos : 0 < e.indirect := by
      rw [List.count_cons_self] at hle
      omega
    change (removeIndirect t >>= fun _ => targets.forM removeIndirect) w = _
    rw [← List.singleton_append] at h
    rw [bind_of_ok _ (removeIndirect_run he hpos), ih h.right, Store.lose_lose]
    rfl

theorem releaseReference_run {rid : String} {e : Entry} {w : Work}
    (h : w.store.get? rid = some e) (hpos : 0 < e.indirect) :
    releaseReference rid w = .ok () ⟨w.store.lose [rid],
      { w.out with orphans := w.out.orphans ++ w.store.unheld [rid] }⟩ := by
  have hlost : (w.store.lose [rid]).get? rid = some { e with indirect := e.indirect - 1 } := by
    rw [Store.get?_lose, h]
    simp
  rw [releaseReference, bind_of_ok _ (removeIndirect_run h hpos), bind_of_ok _ (entry_of_get? hlost)]
  by_cases hdirect : e.direct = 0
  · have hunheld : w.store.unheld [rid] = [rid] := by simp [Store.unheld, h, hdirect]
    simp only [hdirect, if_true, hunheld]
    rfl
  · have hunheld : w.store.unheld [rid] = [] := by simp [Store.unheld, h, hdirect]
    simp only [hdirect, if_false, hunheld, List.append_nil]
    rfl

theorem releaseValue_run {v : Value} {w : Work} (h : w.store.Covers (hardRefs [v])) :
    releaseValue v w = .ok () ⟨w.store.lose (hardRefs [v]),
      { w.out with orphans := w.out.orphans ++ w.store.unheld (hardRefs [v]) }⟩ := by
  cases hv : v.hardRef? with
  | none =>
    have hrefs : hardRefs [v] = [] := List.filterMap_cons_none hv
    have hunheld : w.store.unheld [] = [] := rfl
    rw [hrefs, hunheld, Store.lose_nil, List.append_nil]
    simp only [releaseValue, hv]
    rfl
  | some t =>
    have hrefs : hardRefs [v] = [t] := List.filterMap_cons_some hv
    rw [hrefs] at h ⊢
    obtain ⟨e, he, hle⟩ := h t List.mem_cons_self
    have hpos : 0 < e.indirect := by
      rw [List.count_cons_self] at hle
      omega
    simp only [releaseValue, hv]
    exact releaseReference_run he hpos

theorem releaseValues_run {values : List Value} {w : Work}
    (h : w.store.Covers (hardRefs values)) :
    values.forM releaseValue w = .ok () ⟨w.store.lose (hardRefs values),
      { w.out with orphans := w.out.orphans ++ w.store.unheld (hardRefs values) }⟩ := by
  induction values generalizing w with
  | nil =>
    have hunheld : w.store.unheld (hardRefs []) = [] := rfl
    rw [hunheld, hardRefs, List.filterMap_nil, Store.lose_nil, List.append_nil]
    rfl
  | cons v values ih =>
    rw [hardRefs_cons] at h ⊢
    have hunheld : w.store.unheld (hardRefs [v] ++ hardRefs values) =
        w.store.unheld (hardRefs [v]) ++ w.store.unheld (hardRefs values) := by
      unfold Store.unheld
      rw [List.filter_append]
    change (releaseValue v >>= fun _ => values.forM releaseValue) w = _
    rw [bind_of_ok _ (releaseValue_run h.left), ih h.right, Store.lose_lose, hunheld,
      ← List.append_assoc]
    simp only [Store.lose, Store.unheld_recount]

end Op

end LiveResource
