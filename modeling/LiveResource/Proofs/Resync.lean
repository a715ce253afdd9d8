import LiveResource.Proofs.Runs
import LiveResource.Proofs.Updates

set_option autoImplicit false

/-!
# Resynchronising and loading afresh

A batch that is closed under hard references says everything about what can be reached from a
resource of it. A cache that is brought in line with it ends with what an empty cache would load.
-/

namespace LiveResource

theorem Dict.total_eq_of_getD {α β : Type} {d : Dict α} {d' : Dict β} {weight : String → α → Nat}
    {weight' : String → β → Nat} (h : ∀ k, ((d.get? k).map (weight k)).getD 0 =
      ((d'.get? k).map (weight' k)).getD 0) : d.total weight = d'.total weight' := by
  have hdrop {γ : Type} (d : Dict γ) (weight : String → γ → Nat) :
      d.total weight = (d.filter fun k v => weight k v != 0).total weight := by
    rw [total_filter]
    refine total_congr fun k v _ => ?_
    by_cases hzero : weight k v = 0 <;> simp [hzero]
  rw [hdrop d weight, hdrop d' weight']
  refine total_eq fun k => ?_
  have hpositive {γ : Type} (o : Option γ) (f : γ → Nat) : (o.filter fun v => f v != 0).map f =
      if (o.map f).getD 0 = 0 then none else some ((o.map f).getD 0) := by
    cases o with
    | none => rfl
    | some v => by_cases hzero : f v = 0 <;> simp [Option.filter_some, hzero]
  rw [get?_filter, get?_filter, hpositive, hpositive, h]

namespace Value

theorem hardRef?_normal (v : Value) : v.normal.hardRef? = v.hardRef? := by cases v <;> rfl

theorem hardRefs_map_normal (values : List Value) :
    hardRefs (values.map normal) = hardRefs values := by
  simp only [hardRefs, List.filterMap_map, Function.comp_def, hardRef?_normal]

end Value

namespace Content

theorem hardRefs_normal (c : Content) : hardRefs c.normal.values = hardRefs c.values := by
  cases c with
  | model fields =>
    have hvalues : (fields.map Value.normal).values = fields.values.map Value.normal := by
      simp [Dict.values, Dict.map, Dict.mapWithKey, Function.comp_def]
    change hardRefs (fields.map Value.normal).values = _
    rw [hvalues]
    exact Value.hardRefs_map_normal _
  | collection values => exact Value.hardRefs_map_normal values
  | error fault => rfl

theorem kind_normal (c : Content) : c.normal.kind = c.kind := by cases c <;> rfl

theorem kind_of_beq {a b : Content} (h : (a == b) = true) : a.kind = b.kind := by
  rw [← kind_normal a, (beq_iff_normal a b).mp h, kind_normal]

theorem hardRefs_of_beq {a b : Content} (h : (a == b) = true) :
    hardRefs a.values = hardRefs b.values := by
  rw [← hardRefs_normal a, (beq_iff_normal a b).mp h, hardRefs_normal]

end Content

namespace Store

variable {s s' : Store} {batch : Batch} {rid x : String} {kind : Kind} {a b : Content}

theorem mem_rids_iff : x ∈ s.rids ↔ s.isLoaded x = true := by
  unfold rids
  rw [Dict.mem_keys_iff, isLoaded_iff]
  simp only [Dict.get?_filter, Option.filter_eq_some_iff]
  exact Iff.rfl

theorem rids_eq_of_isLoaded (h : ∀ x, s.isLoaded x = s'.isLoaded x) : s.rids = s'.rids := by
  have hkeys (d : Dict Entry) : d.keys = (d.map fun _ => ()).keys := by
    simp [Dict.keys, Dict.map, Dict.mapWithKey]
  have hget (s : Store) (x : String) :
      ((s.entries.filter fun _ e => e.loaded).map fun _ => ()).get? x =
        if s.isLoaded x then some () else none := by
    rw [Dict.get?_map, Dict.get?_filter]
    unfold isLoaded get?
    cases s.entries.get? x with
    | none => rfl
    | some e => cases hloaded : e.loaded <;> simp [Option.filter_some, hloaded]
  unfold rids
  rw [hkeys, hkeys (Dict.filter _ s'.entries)]
  refine congrArg Dict.keys (Dict.ext_get? fun x => ?_)
  rw [hget, hget, h]

theorem normal_eq_of_snapshot (h : s.snapshot batch rid kind = .ok a)
    (h' : s'.snapshot batch rid kind = .ok b) : a.normal = b.normal := by
  cases kind with
  | model =>
    obtain ⟨vs, hvs, rfl, _⟩ := snapshot_model h
    obtain ⟨vs', hvs', rfl, _⟩ := snapshot_model h'
    obtain ⟨us, hus, hnormal⟩ := ofEntries?_of_parseEach (fun _ _ => ofStored?_of_parseStored) hvs
    obtain ⟨us', hus', hnormal'⟩ :=
      ofEntries?_of_parseEach (fun _ _ => ofStored?_of_parseStored) hvs'
    obtain rfl : us = us' := Option.some_inj.mp (hus.symm.trans hus')
    exact congrArg Content.model (normal_ofList (hnormal.symm.trans hnormal'))
  | collection =>
    obtain ⟨vs, hvs, rfl⟩ := snapshot_collection h
    obtain ⟨vs', hvs', rfl⟩ := snapshot_collection h'
    obtain ⟨us, hus, hnormal⟩ := ofStored?_of_parseValues hvs
    obtain ⟨us', hus', hnormal'⟩ := ofStored?_of_parseValues hvs'
    obtain rfl : us = us' := Option.some_inj.mp (hus.symm.trans hus')
    exact congrArg Content.collection (hnormal.symm.trans hnormal')
  | error =>
    cases h
    cases h'
    rfl

theorem refs_of_content? (h : s.content? x = some a) : s.refs x = hardRefs a.values := by
  obtain ⟨e, r, he, hr, rfl⟩ := get?_of_content? h
  rw [refs_of_get? he, Entry.hardRefs_of_replica hr]
  rfl

end Store

/-- Every hard reference in a batch points to a resource of the batch. -/
def Batch.Closed (batch : Batch) : Prop :=
  ∀ token ∈ Store.batchTokens batch, ∀ value target, Value.ofToken? token = some value →
    value.hardRef? = some target → batch.contains target = true

namespace Store

variable {s : Store} {batch : Batch}

theorem checkKinds_empty (listed : List (String × Kind)) : empty.checkKinds listed = .ok () := by
  induction listed with
  | nil => rfl
  | cons e rest ih => exact ih

theorem checkAll_of_forall {tokens : List Json}
    (h : ∀ token ∈ tokens, s.check batch token = .ok ()) : s.checkAll batch tokens = .ok () := by
  induction tokens with
  | nil => rfl
  | cons token rest ih =>
    simp only [checkAll, h token List.mem_cons_self]
    exact ih fun t ht => h t (List.mem_cons_of_mem _ ht)

/-- A closed batch that some store accepts is accepted by the empty one. -/
theorem validate_empty (hclosed : batch.Closed) (h : s.validate batch = .ok ()) :
    empty.validate batch = .ok () := by
  refine checkAll_of_forall fun token htoken => ?_
  have hcheck := of_checkAll h token htoken
  cases token with
  | arr items => cases hcheck
  | obj members =>
    rw [check] at hcheck ⊢
    cases hrid : Dict.lookup "rid" members with
    | none =>
      simp only [hrid] at hcheck ⊢
      exact hcheck
    | some target =>
      simp only [hrid] at hcheck ⊢
      cases hstr : target.str? with
      | none =>
        simp only [hstr] at hcheck
        cases hcheck
      | some rid =>
        cases hsoft : isSoft members with
        | true => simp
        | false =>
          have hvalue : Value.ofToken? (.obj members) = some (.hard ⟨rid, .model, 0⟩) := by
            simp [Value.ofToken?, hrid, hstr, hsoft]
          simp [hclosed _ htoken _ _ hvalue rfl]
  | _ => rfl

theorem validate_of_addResources {registry : Registry} {w w' : Work} {created : List String}
    (h : Op.addResources registry batch w = .ok created w') : w.store.validate batch = .ok () := by
  rw [Op.addResources] at h
  dsimp only at h
  cases hkinds : w.store.checkKinds batch.incoming with
  | error err =>
    rw [Op.bind_of_error _ (Op.liftStore_of_error hkinds)] at h
    cases h
  | ok _ =>
    rw [Op.bind_of_ok _ (Op.liftStore_of_ok hkinds)] at h
    cases hvalid : w.store.validate batch with
    | error err =>
      rw [Op.bind_of_error _ (Op.liftStore_of_error hvalid)] at h
      cases h
    | ok _ => rfl

end Store

namespace Store

variable {s s' : Store} {batch : Batch} {rid x : String} {subscriptions : Nat}

/-- A store that holds what can be reached from one resource, with the contents that a batch has for
it. -/
structure Mirrors (batch : Batch) (rid : String) (s : Store) : Prop where
  rest : s.AtRest
  root : s.isLoaded rid = true
  reached : ∀ x, s.isLoaded x = true → s.Reaches rid x
  shows : ∀ x kind shown, batch.Lists x kind → s.content? x = some shown →
    ∃ s₀ content, Store.snapshot s₀ batch x kind = .ok content ∧ (shown == content) = true

theorem of_claim {handle : Handle} (h : (s.claim rid subscriptions).1 = .ok handle) :
    ∃ e, s.get? rid = some e ∧ e.loaded = true ∧ e.fault? = none := by
  unfold claim at h
  split at h
  · cases h
  · rename_i e he
    split at h
    · rename_i hloaded
      split at h
      · cases h
      · rename_i hfault
        exact ⟨e, he, hloaded, hfault⟩
    · cases h

theorem claim_of_get? {e : Entry} (he : s.get? rid = some e) (hsound : e.Sound)
    (hloaded : e.loaded = true) (hfault : e.fault? = none) (subscriptions : Nat) :
    ∃ handle, (s.claim rid subscriptions).1 = .ok handle := by
  obtain ⟨r, hr⟩ := Option.isSome_iff_exists.mp (hsound.filled hloaded)
  have hkind : e.kind = some r.content.kind := by rw [hsound.kind, hr]; rfl
  refine ⟨⟨rid, r.content.kind, r.id⟩, ?_⟩
  simp [claim, he, hloaded, hfault, Entry.handle?, hkind, hr]

theorem fault?_eq_none_iff {e : Entry} {r : Replica} (hr : e.replica = some r) :
    e.fault? = none ↔ r.content.kind ≠ .error := by
  obtain ⟨id, content, hooks, turn⟩ := r
  unfold Entry.fault?
  rw [hr]
  cases content <;> simp [Content.kind]

theorem direct_claim {handle : Handle} (h : (s.claim rid subscriptions).1 = .ok handle)
    (x : String) : (s.claim rid subscriptions).2.direct x =
      s.direct x + if x = rid then subscriptions else 0 := by
  obtain ⟨e, he, hloaded, hfault⟩ := of_claim h
  have hstore : (s.claim rid subscriptions).2 =
      s.put rid { e with direct := e.direct + subscriptions, stale := false } := by
    simp only [claim, he, hloaded, hfault, if_true]
    split <;> rfl
  rw [hstore, direct_put]
  by_cases hx : rid = x
  · subst hx
    rw [if_pos rfl, if_pos rfl, direct_of_get? he]
  · rw [if_neg hx, if_neg (Ne.symm hx), Nat.add_zero]

theorem Pruned.isLoaded (h : s.Pruned s') (hloaded : s.isLoaded x = true)
    (hpos : 0 < s'.direct x) : s'.isLoaded x = true := by
  obtain ⟨e, he, hl⟩ := isLoaded_iff.mp hloaded
  cases he' : s'.get? x with
  | none =>
    rw [h.direct, direct_of_get? he, (h.gone he he').1] at hpos
    cases hpos
  | some e' =>
    obtain ⟨e₀, n, he₀, rfl⟩ := h.kept he'
    cases he.symm.trans he₀
    exact isLoaded_iff.mpr ⟨_, he', hl⟩

theorem Pruned.content? (h : s.Pruned s') {shown : Content} (hshown : s'.content? x = some shown) :
    s.content? x = some shown := by
  obtain ⟨e', r, he', hr, rfl⟩ := get?_of_content? hshown
  obtain ⟨e, n, he, rfl⟩ := h.kept he'
  exact content?_of_get? he hr

end Store

namespace Work.Merges

variable {batch : Batch} {created : List String} {w w' : Work} {rid : String} {kind : Kind}
  {e : Entry}

theorem fault?_eq_none_iff (h : w.Merges batch created w') (hlists : batch.Lists rid kind)
    (he : w'.store.get? rid = some e) : e.fault? = none ↔ kind ≠ .error := by
  obtain ⟨shown, content, hshown, hread, hsame⟩ := h.shows rid kind hlists
  obtain ⟨e', r, he', hr, rfl⟩ := Store.get?_of_content? hshown
  cases he.symm.trans he'
  rw [Store.fault?_eq_none_iff hr, Content.kind_of_beq hsame, (Store.of_snapshot hread).1]

end Work.Merges

namespace Cache

variable {root : String → Prop} {c : Cache} {batch : Batch} {rid : String} {subscriptions : Nat}
  {handle : Handle}

/-- A batch that gives hold of a resource does not list it as an error. -/
theorem ne_error_of_merge {extra : String → Nat} {kind : Kind} (h : c.Kept extra root)
    (hdisjoint : batch.Disjoint) (hlists : batch.Lists rid kind)
    (hok : (c.merge batch rid subscriptions).1 = .ok handle) : kind ≠ .error := by
  rcases merge_run h hdisjoint rid subscriptions with
    ⟨err, hmerge, _⟩ | ⟨created, w, c', hrun, hmerges, hmerge, _, _⟩
  · rw [hmerge] at hok
    cases hok
  · rw [hmerge] at hok
    obtain ⟨e, he, hloaded, hfault⟩ := Store.of_claim hok
    rw [Store.announces_settleLoaded.get?_foldl] at he
    exact (hmerges.fault?_eq_none_iff hlists he).mp hfault

/-- A merge that gives hold of a resource counts its subscriptions, and nothing else changes. -/
theorem merge_direct (h : c.Tidy root) (hdisjoint : batch.Disjoint)
    (hok : (c.merge batch rid subscriptions).1 = .ok handle) (x : String) :
    (c.merge batch rid subscriptions).2.store.direct x =
      c.store.direct x + if x = rid then subscriptions else 0 := by
  rcases merge_run h hdisjoint rid subscriptions with
    ⟨err, hmerge, _⟩ | ⟨created, w, c', hrun, hmerges, hmerge, _, hpruned⟩
  · rw [hmerge] at hok
    cases hok
  · rw [hmerge] at hok ⊢
    have htold : (created.foldl Store.settleLoaded w.store).direct x = w.store.direct x := by
      unfold Store.direct
      rw [Store.announces_settleLoaded.get?_foldl]
    rw [hpruned.direct, Store.direct_claim hok, htold, hmerges.direct]

/-- Where one resource is the only one that is subscribed, a merge that gives hold of it leaves
nothing but what the batch has for it. -/
theorem merge_mirrors (h : c.Tidy fun _ => False) (hdisjoint : batch.Disjoint)
    (hok : (c.merge batch rid subscriptions).1 = .ok handle)
    (hdirect : ∀ x, 0 < (c.merge batch rid subscriptions).2.store.direct x ↔ x = rid) :
    (c.merge batch rid subscriptions).2.store.Mirrors batch rid := by
  rcases merge_run h hdisjoint rid subscriptions with
    ⟨err, hmerge, _⟩ | ⟨created, w, c', hrun, hmerges, hmerge, htidy, hpruned⟩
  · rw [hmerge] at hok
    cases hok
  · rw [hmerge] at hok hdirect ⊢
    have hagrees := (Store.announces_settleLoaded.agrees_foldl w.store created).trans
      (Store.claim_spec (created.foldl Store.settleLoaded w.store) rid subscriptions).1
    refine ⟨htidy.rest, ?_, fun x hx => ?_, fun x kind shown hlists hshown => ?_⟩
    · obtain ⟨e, he, hloaded, _⟩ := Store.of_claim hok
      have hclaimed := (Store.claim_spec (created.foldl Store.settleLoaded w.store) rid
        subscriptions).1.isLoaded rid
      rw [Store.isLoaded_iff.mpr ⟨e, he, hloaded⟩] at hclaimed
      exact hpruned.isLoaded hclaimed ((hdirect rid).mpr rfl)
    · obtain ⟨r, hr, hlead⟩ := htidy.rooted x hx
      rw [htidy.rest.settled.links_eq_refs] at hlead
      exact (hdirect r).mp (hr.resolve_right id) ▸ hlead
    · obtain ⟨shown', content, hshown', hread, hsame⟩ := hmerges.shows x kind hlists
      have hbefore := hpruned.content? hshown
      rw [hagrees.content?, hshown'] at hbefore
      cases hbefore
      exact ⟨w.store, content, hread, hsame⟩

/-- An empty cache takes a closed batch that another cache has taken, and gives hold of the same
resource. Nothing comes into it that the batch does not list. -/
theorem merge_empty {fresh : Cache} {n : Nat} (h : c.Tidy root) (hfresh : fresh.Tidy root)
    (hstore : fresh.store = .empty) (hdisjoint : batch.Disjoint) (hclosed : batch.Closed)
    (hlisted : batch.contains rid = true)
    (hok : (c.merge batch rid subscriptions).1 = .ok handle) :
    (∃ handle, (fresh.merge batch rid n).1 = .ok handle) ∧
      ∀ x, (fresh.merge batch rid n).2.store.isLoaded x = true → batch.contains x = true := by
  rcases merge_run h hdisjoint rid subscriptions with
    ⟨err, hmerge, _⟩ | ⟨created, w, c', hrun, hmerges, hmerge, _, _⟩
  · rw [hmerge] at hok
    cases hok
  obtain ⟨kind, hlists⟩ := Batch.contains_iff.mp hlisted
  have hkind : kind ≠ .error := ne_error_of_merge h hdisjoint hlists hok
  obtain ⟨created', w', hrun', hmerges'⟩ := @Op.addResources_of_checks ⟨fresh.store, {}⟩
    fresh.registry batch hfresh.registry hdisjoint hfresh.rest.sound.sturdy
    (by rw [hstore]; exact Store.checkKinds_empty _)
    (by rw [hstore]; exact Store.validate_empty hclosed (Store.validate_of_addResources hrun))
  obtain ⟨c'', hmerge', _, hpruned⟩ := merge_of_run hfresh rid n hrun' hmerges'.toMerged
  have hagrees := Store.announces_settleLoaded.agrees_foldl w'.store created'
  rw [hmerge']
  refine ⟨?_, fun x hx => ?_⟩
  · obtain ⟨e, he, hloaded⟩ := Store.isLoaded_iff.mp (hmerges'.loaded rid hlisted)
    have hfault := (hmerges'.fault?_eq_none_iff hlists he).mpr hkind
    rw [← Store.announces_settleLoaded.get?_foldl] at he
    exact Store.claim_of_get? he ((hagrees.sturdy hmerges'.sturdy).entry he) hloaded hfault n
  · obtain ⟨e'', he'', _⟩ := Store.isLoaded_iff.mp hx
    obtain ⟨e', _, he', rfl⟩ := hpruned.kept he''
    obtain ⟨e, he, _⟩ := (hagrees.trans (Store.claim_spec _ rid n).1).get? he'
    exact (hmerges'.fresh (by rw [hstore]; rfl) he).1

end Cache

namespace Store.Mirrors

variable {s s' : Store} {batch : Batch} {rid x : String}

theorem content?_beq (h : s.Mirrors batch rid) (h' : s'.Mirrors batch rid)
    (hlisted : batch.contains x = true) (hloaded : s.isLoaded x = true)
    (hloaded' : s'.isLoaded x = true) :
    ∃ a b, s.content? x = some a ∧ s'.content? x = some b ∧ (a == b) = true := by
  obtain ⟨kind, hlists⟩ := Batch.contains_iff.mp hlisted
  have hshown {s : Store} (h : s.Mirrors batch rid) (hloaded : s.isLoaded x = true) :
      ∃ shown s₀ content, s.content? x = some shown ∧
        Store.snapshot s₀ batch x kind = .ok content ∧ (shown == content) = true := by
    obtain ⟨e, he, hr⟩ := hasReplica_iff.mp (h.rest.sound.sturdy.hasReplica hloaded)
    obtain ⟨r, hr⟩ := Option.isSome_iff_exists.mp hr
    have hcontent := content?_of_get? he hr
    obtain ⟨s₀, content, hread, hsame⟩ := h.shows x kind _ hlists hcontent
    exact ⟨_, s₀, content, hcontent, hread, hsame⟩
  obtain ⟨a, s₀, content, ha, hread, hsame⟩ := hshown h hloaded
  obtain ⟨b, s₀', content', hb, hread', hsame'⟩ := hshown h' hloaded'
  refine ⟨a, b, ha, hb, ?_⟩
  rw [Content.beq_iff_normal] at hsame hsame' ⊢
  rw [hsame, hsame', normal_eq_of_snapshot hread hread']

theorem refs_eq (h : s.Mirrors batch rid) (h' : s'.Mirrors batch rid)
    (hlisted : batch.contains x = true) (hloaded : s.isLoaded x = true)
    (hloaded' : s'.isLoaded x = true) : s.refs x = s'.refs x := by
  obtain ⟨a, b, ha, hb, hsame⟩ := h.content?_beq h' hlisted hloaded hloaded'
  rw [refs_of_content? ha, refs_of_content? hb, Content.hardRefs_of_beq hsame]

/-- Two stores that mirror one batch have the same resources loaded, if one of them has only
resources of the batch loaded. -/
theorem isLoaded_eq (h : s.Mirrors batch rid) (h' : s'.Mirrors batch rid)
    (hlisted : ∀ x, s'.isLoaded x = true → batch.contains x = true) (x : String) :
    s.isLoaded x = s'.isLoaded x := by
  have hforth (y : String) (hy : s.Reaches rid y) : s'.isLoaded y = true := by
    induction hy with
    | refl => exact h'.root
    | @tail a b ha hb ih =>
      have hloaded := h.rest.settled.isLoaded_of_mem_refs hb
      rw [h.refs_eq h' (hlisted a ih) hloaded ih] at hb
      exact World.isLoaded_of_reaches h'.rest ih (.single hb)
  have hback (y : String) (hy : s'.Reaches rid y) : s.isLoaded y = true := by
    induction hy with
    | refl => exact h.root
    | @tail a b ha hb ih =>
      have hloaded := h'.rest.settled.isLoaded_of_mem_refs hb
      rw [← h.refs_eq h' (hlisted a hloaded) ih hloaded] at hb
      exact World.isLoaded_of_reaches h.rest ih (.single hb)
  rw [Bool.eq_iff_iff]
  exact ⟨fun hx => hforth x (h.reached x hx), fun hx => hback x (h'.reached x hx)⟩

theorem refs_of_not_loaded (h : s.Mirrors batch rid) (hx : s.isLoaded x = false) :
    s.refs x = [] := by
  refine List.eq_nil_iff_forall_not_mem.mpr fun y hy => ?_
  rw [h.rest.settled.isLoaded_of_mem_refs hy] at hx
  cases hx

theorem refs_eq_all (h : s.Mirrors batch rid) (h' : s'.Mirrors batch rid)
    (hlisted : ∀ x, s'.isLoaded x = true → batch.contains x = true) (x : String) :
    s.refs x = s'.refs x := by
  have hloaded := h.isLoaded_eq h' hlisted x
  cases hx : s'.isLoaded x with
  | true => exact h.refs_eq h' (hlisted x hx) (hloaded.trans hx) hx
  | false =>
    rw [h.refs_of_not_loaded (hloaded.trans hx), h'.refs_of_not_loaded hx]

theorem references_eq (h : s.Mirrors batch rid) (h' : s'.Mirrors batch rid)
    (hlisted : ∀ x, s'.isLoaded x = true → batch.contains x = true) (x : String) :
    s.references x = s'.references x := by
  refine Dict.total_eq_of_getD fun k => ?_
  have hweight (s : Store) : ((s.entries.get? k).map fun e => e.hardRefs.count x).getD 0 =
      (s.refs k).count x := by
    unfold refs get?
    cases s.entries.get? k <;> rfl
  rw [hweight, hweight, h.refs_eq_all h' hlisted]

end Store.Mirrors

namespace World

variable {registry : Registry} {w : World} {batch : Batch} {rid : String} {handle : Handle}

/-- However a cache has come to what it holds of a resource, the only one that is subscribed: a
closed batch makes of it what an empty cache would load. The same resources are loaded, of the same
kinds, with equal contents and with the same counts of references. -/
theorem resubscribe_matches_add (hregistry : registry.Quiet) (h : Run registry w)
    (hidle : w.callers = [] ∧ w.leaving = [] ∧ w.resubscribing = [])
    (hdirect : ∀ x, 0 < w.cache.store.direct x ↔ x = rid) (hdisjoint : batch.Disjoint)
    (hlisted : batch.contains rid = true) (hclosed : batch.Closed)
    (hok : (w.cache.resubscribe batch rid).1 = .ok handle) :
    (∃ handle, ((start registry).cache.add batch rid).1 = .ok handle) ∧
    (w.cache.resubscribe batch rid).2.store.rids =
      ((start registry).cache.add batch rid).2.store.rids ∧
    (∀ x ∈ (w.cache.resubscribe batch rid).2.store.rids, ∃ e e' r r',
      (w.cache.resubscribe batch rid).2.store.get? x = some e ∧
      ((start registry).cache.add batch rid).2.store.get? x = some e' ∧
      e'.kind = e.kind ∧ e'.indirect = e.indirect ∧ e.replica = some r ∧ e'.replica = some r' ∧
      (r.content == r'.content) = true) ∧
    (w.cache.resubscribe batch rid).2.store.direct rid = w.cache.store.direct rid := by
  have htidy : w.cache.Tidy fun _ => False := (tidy_of_run hregistry h).weaken fun x hx => by
    rw [hidle.2.1] at hx
    cases hx
  have hempty : (start registry).cache.Tidy fun _ => False := Cache.tidy_empty hregistry
  obtain ⟨⟨handle', hadd⟩, hinside⟩ :=
    @Cache.merge_empty _ _ _ _ _ _ _ 1 htidy hempty rfl hdisjoint hclosed hlisted hok
  have hdirect₁ (x : String) : (w.cache.merge batch rid 0).2.store.direct x =
      w.cache.store.direct x := by
    rw [Cache.merge_direct htidy hdisjoint hok]
    split <;> rfl
  have hdirect₂ (x : String) : 0 < ((start registry).cache.merge batch rid 1).2.store.direct x ↔
      x = rid := by
    rw [Cache.merge_direct hempty hdisjoint hadd]
    change 0 < 0 + _ ↔ _
    split <;> simp [*]
  have hmirrors := Cache.merge_mirrors htidy hdisjoint hok fun x => by rw [hdirect₁, hdirect]
  have hmirrors' := Cache.merge_mirrors hempty hdisjoint hadd hdirect₂
  have hloaded := hmirrors.isLoaded_eq hmirrors' hinside
  refine ⟨⟨handle', hadd⟩, Store.rids_eq_of_isLoaded hloaded, fun x hx => ?_, hdirect₁ rid⟩
  have hx : (w.cache.merge batch rid 0).2.store.isLoaded x = true := Store.mem_rids_iff.mp hx
  have hx' := (hloaded x).symm.trans hx
  obtain ⟨a, b, ha, hb, hsame⟩ := hmirrors.content?_beq hmirrors' (hinside x hx') hx hx'
  obtain ⟨e, r, he, hr, rfl⟩ := Store.get?_of_content? ha
  obtain ⟨e', r', he', hr', rfl⟩ := Store.get?_of_content? hb
  refine ⟨e, e', r, r', he, he', ?_, ?_, hr, hr', hsame⟩
  · rw [(hmirrors.rest.sound.entry he).kind, (hmirrors'.rest.sound.entry he').kind, hr, hr']
    exact congrArg some (Content.kind_of_beq hsame).symm
  · rw [hmirrors.rest.accounted.exact he, hmirrors'.rest.accounted.exact he',
      hmirrors.references_eq hmirrors' hinside x]

def plainBatch : Batch := ⟨Dict.ofList [("a", Dict.ofList [("name", .str "x")])], ∅, ∅⟩

theorem plainBatch_closed : plainBatch.Closed := by
  intro token htoken value target hvalue htarget
  have htokens : Store.batchTokens plainBatch = [.str "x"] := rfl
  rw [htokens, List.mem_singleton] at htoken
  subst htoken
  cases hvalue
  cases htarget

theorem direct_selfWorld (x : String) : 0 < selfWorld.cache.store.direct x ↔ x = "a" := by
  have hadded : ((start .empty).cache.merge selfBatch "a" 1).1 = .ok ⟨"a", .model, 0⟩ := rfl
  have hempty : (start .empty).cache.Tidy fun _ => False :=
    Cache.tidy_empty Registry.quiet_empty
  have hdirect := Cache.merge_direct hempty selfBatch_disjoint hadded x
  change selfWorld.cache.store.direct x = 0 + _ at hdirect
  rw [hdirect]
  split <;> simp [*]

theorem resubscribe_matches_add_plain :
    (selfWorld.cache.resubscribe plainBatch "a").1 = .ok ⟨"a", .model, 0⟩ ∧
      (selfWorld.cache.resubscribe plainBatch "a").2.store.rids =
        ((start .empty).cache.add plainBatch "a").2.store.rids ∧
      (selfWorld.cache.resubscribe plainBatch "a").2.store.direct "a" = 1 := by
  have hok : (selfWorld.cache.resubscribe plainBatch "a").1 = .ok ⟨"a", .model, 0⟩ := rfl
  obtain ⟨_, hrids, _, hdirect⟩ := resubscribe_matches_add Registry.quiet_empty run_selfWorld
    ⟨rfl, rfl, rfl⟩ direct_selfWorld (Batch.disjoint_of_models rfl rfl) rfl plainBatch_closed hok
  exact ⟨hok, hrids, hdirect.trans rfl⟩

end World

end LiveResource
