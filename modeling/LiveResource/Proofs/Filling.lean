import LiveResource.Proofs.Merge

set_option autoImplicit false

/-!
# Replicas of contradictory batches

A batch may list a resource in several sections. The replica that it gets is then of the last of
these kinds, but its snapshot is looked up as one of the first. It is not filled, and the references
of a snapshot that is not shown are counted: entries of such resources count too much, never too
little. Apart from that a merge does what it does for other batches.
-/

namespace LiveResource

/-- Factories whose hooks let every event pass and do not edit what their replicas hold. -/
structure Registry.Transparent (r : Registry) : Prop where
  model : ∀ rid, (r.createModel rid).2.Transparent
  collection : ∀ rid, (r.createCollection rid).2.Transparent

/-- Factories whose collections refer to nothing as long as they are not filled. -/
def Registry.Bare (r : Registry) : Prop := ∀ rid, hardRefs (r.createCollection rid).1 = []

namespace Registry

variable {registry : Registry}

theorem transparent_empty : Registry.empty.Transparent := by
  refine ⟨fun rid => ?_, fun rid => ?_⟩
  · unfold createModel empty
    rw [PatternMap.get?_empty]
    exact Hooks.transparent_pass
  · unfold createCollection empty
    rw [PatternMap.get?_empty]
    exact Hooks.transparent_pass

theorem bare_empty : Registry.empty.Bare := by
  intro rid
  unfold createCollection empty
  rw [PatternMap.get?_empty]
  rfl

theorem Transparent.quiet (h : registry.Transparent) : registry.Quiet :=
  ⟨fun rid => (h.model rid).toQuiet, fun rid => (h.collection rid).toQuiet⟩

theorem transparent_create (h : registry.Transparent) (batch : Batch) (rid : String)
    (kind : Kind) : (registry.create batch rid kind).2.Transparent := by
  cases kind with
  | model => exact h.model rid
  | collection => exact h.collection rid
  | error => exact Hooks.transparent_pass

end Registry

namespace Batch

variable {batch : Batch} {rid : String} {kind : Kind}

def tokensOf (b : Batch) (rid : String) : List Json :=
  match b.models.get? rid with
  | some tokens => tokens.values
  | none => (b.collections.get? rid).getD []

/-- What is counted though no replica refers to it: the references of each resource that several
sections list, once for every one of these. -/
def unshown (b : Batch) : List String :=
  ((b.incoming.map (·.1)).filter b.contradicts).flatMap fun rid => Store.targets (b.tokensOf rid)

theorem unshown_eq_nil_iff : batch.unshown = [] ↔
    ∀ rid, batch.contradicts rid = true → Store.targets (batch.tokensOf rid) = [] := by
  rw [unshown, List.flatMap_eq_nil_iff]
  refine forall_congr' fun rid => ⟨fun h hcontra => h (List.mem_filter.mpr ⟨?_, hcontra⟩),
    fun h hmem => h (List.mem_filter.mp hmem).2⟩
  obtain ⟨kind, _, hlists, _⟩ := exists_lists_of_contradicts hcontra
  exact mem_rids_iff.mpr (contains_iff.mpr ⟨kind, hlists⟩)

theorem Disjoint.unshown (h : batch.Disjoint) : batch.unshown = [] :=
  unshown_eq_nil_iff.mpr fun rid hcontra => by
    rw [disjoint_iff.mp h rid] at hcontra
    cases hcontra

theorem ListsLast.ne_model (h : batch.ListsLast rid kind) (hcontra : batch.contradicts rid = true) :
    kind ≠ .model := by
  rintro rfl
  obtain ⟨kind, kind', hlists, hlists', hne⟩ := exists_lists_of_contradicts hcontra
  have hrank := h.2 kind hlists
  have hrank' := h.2 kind' hlists'
  cases kind <;> cases kind' <;> simp_all [Kind.rank]

/-- A replica is a collection only if the contradiction is that a model is listed too. -/
theorem ListsLast.ne_collection (h : batch.ListsLast rid kind)
    (hcontra : batch.contradicts rid = true) (hno : ¬ batch.Lists rid .model) :
    kind ≠ .collection := by
  rintro rfl
  obtain ⟨kind, kind', hlists, hlists', hne⟩ := exists_lists_of_contradicts hcontra
  have hrank := h.2 kind hlists
  have hrank' := h.2 kind' hlists'
  cases kind <;> cases kind' <;> simp_all [Kind.rank]

end Batch

namespace Content

variable {content : Content}

theorem clean_of_kind (h : content.kind ≠ .model) : content.Clean := by
  cases content with
  | model fields => exact absurd rfl h
  | _ => trivial

end Content

namespace Store

variable {s : Store} {registry : Registry} {batch : Batch} {rid : String} {kind : Kind}

theorem transparent_createAll (h : registry.Transparent) (batch : Batch)
    (incoming : List (String × Kind)) (hs : s.Transparent) :
    (s.createAll registry batch incoming).1.Transparent := by
  refine @createAll_induction s registry batch Transparent (fun s rid hs => ?_)
    (fun s rid kind e hs he _ => ?_) incoming hs
  · cases hnone : s.get? rid with
    | some e =>
      rw [ensure, obtain_of_get? hnone]
      exact hs
    | none =>
      rw [ensure, obtain_of_none hnone]
      intro x e r he hr
      rw [get?_put] at he
      split at he
      · cases he
        cases hr
      · exact hs x e r he hr
  · intro x e' r' he' hr'
    rw [get?_create he] at he'
    split at he'
    · cases he'
      cases hr'
      exact Registry.transparent_create h batch rid kind
    · exact hs x e' r' he' hr'

/-- A new replica that is still to be visited. One that a single section lists waits for its
snapshot. One that several sections list, visited before or not, refers to nothing. -/
def Fillable (s : Store) (registry : Registry) (batch : Batch) (rid : String) : Prop :=
  batch.contradicts rid = true ∧ (∃ e r, s.get? rid = some e ∧ e.replica = some r ∧
    batch.ListsLast rid r.content.kind ∧ r.hardRefs = []) ∨
  batch.contradicts rid = false ∧ ∃ kind, batch.Lists rid kind ∧ s.Awaits registry batch rid kind

theorem fillable_of_awaits (hbare : registry.Bare ∨ batch.Disjoint)
    (hlast : batch.ListsLast rid kind) (h : s.Awaits registry batch rid kind) :
    s.Fillable registry batch rid := by
  cases hcontra : batch.contradicts rid with
  | false => exact .inr ⟨hcontra, kind, hlast.1, h⟩
  | true =>
    obtain ⟨e, r, he, _, hr, hcontent⟩ := h
    have hkind : r.content.kind = kind := hcontent ▸ Registry.kind_create registry batch rid kind
    refine .inl ⟨hcontra, e, r, he, hr, hkind ▸ hlast, ?_⟩
    rw [Replica.hardRefs, hcontent]
    cases kind with
    | model => exact absurd rfl (hlast.ne_model hcontra)
    | error => rfl
    | collection =>
      refine (hbare.resolve_right fun hdisjoint => ?_) rid
      rw [Batch.disjoint_iff.mp hdisjoint rid] at hcontra
      cases hcontra

/-- A rid comes again among the newcomers only if several sections list it. -/
theorem contradicts_of_newcomers (s : Store) (batch : Batch) :
    (s.newcomers batch).Pairwise fun x y => x = y → batch.contradicts x = true := by
  refine List.pairwise_map.mpr (List.Pairwise.imp_of_mem (fun {i j} hi hj hne heq => ?_)
    ((Batch.nodup_incoming batch).filter _))
  obtain ⟨hi, _⟩ := List.mem_filter.mp hi
  obtain ⟨hj, _⟩ := List.mem_filter.mp hj
  refine Batch.contradicts_of_lists (Batch.mem_incoming_iff.mp hi)
    (Batch.mem_incoming_iff.mp (heq ▸ hj : (i.1, j.2) ∈ batch.incoming)) fun hkind => ?_
  exact hne (Prod.ext heq hkind)

theorem isLoaded_of_contradicts (h : s.Sturdy) (hkinds : s.checkKinds batch.incoming = .ok ())
    (hcontra : batch.contradicts rid = true) : s.isLoaded rid = false := by
  rw [Bool.eq_false_iff]
  intro hloaded
  obtain ⟨kind, kind', hlists, hlists', hne⟩ := Batch.exists_lists_of_contradicts hcontra
  obtain ⟨content, hcontent, rfl⟩ := content?_of_checkKinds h hkinds hlists hloaded
  obtain ⟨content', hcontent', rfl⟩ := content?_of_checkKinds h hkinds hlists' hloaded
  rw [hcontent] at hcontent'
  cases hcontent'
  exact hne rfl

theorem filter_newcomers (h : s.Sturdy) (hkinds : s.checkKinds batch.incoming = .ok ()) :
    (s.newcomers batch).filter batch.contradicts =
      (batch.incoming.map (·.1)).filter batch.contradicts := by
  rw [newcomers, List.filter_map, List.filter_map, List.filter_filter]
  refine congrArg (List.map _) (List.filter_congr fun i _ => ?_)
  cases hcontra : batch.contradicts i.1 with
  | false => simp [Function.comp_apply, hcontra]
  | true => simp [Function.comp_apply, hcontra, isLoaded_of_contradicts h hkinds hcontra]

end Store

theorem Work.Alters.fillable {touched : String → Prop} {w w' : Work} {registry : Registry}
    {batch : Batch} {x : String} (h : w.Alters touched w') (hx : w.store.Fillable registry batch x)
    (hnot : ¬ touched x) : w'.store.Fillable registry batch x := by
  rcases hx with ⟨hcontra, e, r, he, hr, hlast, hbare⟩ | ⟨honce, kind, hlists, hawaits⟩
  · obtain ⟨e', he', _, hframe⟩ := h.kept he
    exact .inl ⟨hcontra, e', r, he', (hframe.resolve_left hnot).1.trans hr, hlast, hbare⟩
  · exact .inr ⟨honce, kind, hlists, h.awaits hnot hawaits⟩

namespace Op

variable {w : Work} {registry : Registry} {batch : Batch} {rid : String} {e : Entry} {r : Replica}

/-- The references of a snapshot of another kind than the replica are counted, and that is all. -/
theorem initContent_run_other (he : w.store.get? rid = some e) (hr : e.replica = some r)
    (hread : ∀ kind, batch.Lists rid kind →
      ∃ content, w.store.snapshot batch rid kind = .ok content)
    (hmodel : batch.Lists rid .model → r.content.kind ≠ .model)
    (hcollection : ¬ batch.Lists rid .model → batch.Lists rid .collection →
      r.content.kind ≠ .collection) :
    (∀ t ∈ Store.targets (batch.tokensOf rid), w.store.hasReplica t = true) ∧
      initContent batch rid w =
        .ok () ⟨w.store.gain (Store.targets (batch.tokensOf rid)), w.out⟩ := by
  rw [initContent, bind_of_ok _ (replica_of_get? he hr)]
  unfold Batch.tokensOf
  cases hmodels : batch.models.get? rid with
  | some tokens =>
    have hlists : batch.Lists rid .model := Dict.contains_iff.mpr ⟨tokens, hmodels⟩
    obtain ⟨content, hcontent⟩ := hread .model hlists
    obtain ⟨vs, hvs, _, _⟩ := Store.snapshot_model hcontent
    rw [hmodels, Option.getD_some] at hvs
    have hrefs : hardRefs (vs.map (·.2)) = Store.targets tokens.values :=
      Store.hardRefs_of_parseEach hvs
    rw [← hrefs]
    refine ⟨Store.hasReplica_of_reads
      (Store.reads_of_parseEach (fun _ _ => Store.parse_of_parseStored) hvs), ?_⟩
    simp only
    rw [bind_of_ok _ (parseFieldsCounted_run hvs)]
    have hother := hmodel hlists
    cases hc : r.content with
    | model fields =>
      rw [hc] at hother
      exact absurd rfl hother
    | _ => rfl
  | none =>
    have hno : ¬ batch.Lists rid .model := fun hlists => by
      obtain ⟨tokens, htokens⟩ := Batch.get?_of_lists hlists
      rw [hmodels] at htokens
      cases htokens
    cases hcollections : batch.collections.get? rid with
    | none =>
      refine ⟨fun t ht => (by cases ht), ?_⟩
      simp only [Option.getD_none, Store.targets, List.filterMap_nil, Store.gain_nil]
      rfl
    | some tokens =>
      have hlists : batch.Lists rid .collection := Dict.contains_iff.mpr ⟨tokens, hcollections⟩
      obtain ⟨content, hcontent⟩ := hread .collection hlists
      obtain ⟨vs, hvs, _⟩ := Store.snapshot_collection hcontent
      rw [hcollections, Option.getD_some] at hvs
      rw [Option.getD_some, ← Store.hardRefs_of_parseValues hvs]
      refine ⟨Store.hasReplica_of_reads (Store.reads_of_parseValues hvs), ?_⟩
      simp only
      rw [bind_of_ok _ (parseValuesCounted_run hvs)]
      have hother := hcollection hno hlists
      cases hc : r.content with
      | collection values =>
        rw [hc] at hother
        exact absurd rfl hother
      | _ => rfl

/-- A replica that several sections list is left as it is. -/
theorem initResource_left (h : w.store.Sturdy) (he : w.store.get? rid = some e)
    (hr : e.replica = some r) (hread : ∀ kind, batch.Lists rid kind →
      ∃ content, w.store.snapshot batch rid kind = .ok content)
    (hcontra : batch.contradicts rid = true) (hlast : batch.ListsLast rid r.content.kind)
    (hbare : r.hardRefs = []) :
    ∃ w' e', initResource batch rid w = .ok () w' ∧
      w.Swells (Store.targets (batch.tokensOf rid)) (· = rid) w' ∧
      w'.out.events = w.out.events ∧ w'.store.get? rid = some e' ∧ e'.loaded = true ∧
        e'.replica = some r := by
  obtain ⟨hgained, hrun⟩ := initContent_run_other he hr hread (fun _ => hlast.ne_model hcontra)
    fun hno _ => hlast.ne_collection hcontra hno
  generalize Store.targets (batch.tokensOf rid) = gained at hgained hrun ⊢
  have hgot : (w.store.gain gained).get? rid =
      some { e with replica := some r, indirect := e.indirect + gained.count rid } := by
    rw [← hr, Store.get?_gain, he]
    rfl
  have hput (e' : Entry) : ((w.store.gain gained).put rid e').get? rid = some e' := by
    rw [Store.get?_put, if_pos rfl]
  have hempty : e.links = [] := by
    rw [Entry.links, Entry.hardRefs_of_replica hr, hbare, ite_self]
  have hclean := Content.clean_of_kind (hlast.ne_model hcontra)
  refine ⟨_, _, initResource_run hrun hgot, ?_, rfl, hput _, rfl, rfl⟩
  have hfilled : (w.store.gain gained).put rid { e with
        replica := some r
        indirect := e.indirect + gained.count rid
        loaded := true } =
      ((w.store.gain gained).lose []).put rid { e with
        replica := some r
        indirect := e.indirect + gained.count rid
        loaded := true } := by rw [Store.lose_nil]
  refine .exchange h he ((h.entry he).fill hr rfl rfl hclean _) (Entry.edited_filled hr rfl rfl _)
    rfl (fun t => ?_) (fun t => Nat.le_refl _) hgained (fun {r₁ v} hr₁ hv => ?_) hfilled
    (List.append_nil _).symm fun _ => .inl
  · rw [hempty]
    change r.hardRefs.count t + 0 + _ = 0 + _
    rw [hbare]
    rfl
  · cases hr₁
    exact .inr (Store.reads_of_hardRefs hbare v hv)

/-- To fill new replicas counts what they refer to, and what several sections list besides. -/
theorem initAll_swells {created : List String} (h : w.store.Sturdy)
    (honce : created.Pairwise fun x y => x = y → batch.contradicts x = true)
    (hfillable : ∀ rid ∈ created, w.store.Fillable registry batch rid)
    (hread : ∀ rid kind, batch.Lists rid kind →
      ∃ content, w.store.snapshot batch rid kind = .ok content) :
    ∃ w', created.forM (initResource batch) w = .ok () w' ∧
      w.Swells ((created.filter batch.contradicts).flatMap fun rid =>
        Store.targets (batch.tokensOf rid)) (· ∈ created) w' ∧
      w'.out.events = w.out.events ∧ ∀ rid ∈ created, w'.store.isLoaded rid = true := by
  induction created generalizing w with
  | nil => exact ⟨w, rfl, .refl h, rfl, fun rid hmem => (by cases hmem)⟩
  | cons rid rest ih =>
    rw [List.pairwise_cons] at honce
    -- one replica, after which the others can still be filled
    have hfirst : ∃ w₁ surplus, initResource batch rid w = .ok () w₁ ∧
        w.Swells surplus (· = rid) w₁ ∧ w₁.out.events = w.out.events ∧
        w₁.store.isLoaded rid = true ∧ (∀ x ∈ rest, w₁.store.Fillable registry batch x) ∧
        surplus = ([rid].filter batch.contradicts).flatMap fun rid =>
          Store.targets (batch.tokensOf rid) := by
      have hrest {x : String} (hx : x ∈ rest) := hfillable x (List.mem_cons_of_mem _ hx)
      rcases hfillable rid List.mem_cons_self with
        ⟨hcontra, e, r, he, hr, hlast, hbare⟩ | ⟨hsingle, kind, hlists, e, r, he, hl, hr, hcontent⟩
      · obtain ⟨w₁, e₁, hrun₁, hswells₁, hevents₁, he₁, hl₁, hr₁⟩ :=
          initResource_left h he hr (hread rid) hcontra hlast hbare
        refine ⟨w₁, _, hrun₁, hswells₁, hevents₁, Store.isLoaded_iff.mpr ⟨e₁, he₁, hl₁⟩,
          fun x hx => ?_, by simp [hcontra]⟩
        by_cases heq : x = rid
        · exact .inl ⟨heq ▸ hcontra, e₁, r, heq ▸ he₁, hr₁, heq ▸ hlast, hbare⟩
        · exact hswells₁.toAlters.fillable (hrest hx) heq
      · have hkind : r.content.kind = kind :=
          hcontent ▸ Registry.kind_create registry batch rid kind
        have hfault (heq : kind = .error) :
            r.content = .error ((batch.errors.get? rid).getD default) := by
          rw [hcontent, heq]
          rfl
        obtain ⟨content, hsnapshot⟩ := hread rid kind hlists
        obtain ⟨w₁, hrun₁, hevolves₁, hevents₁, hloaded₁, _⟩ :=
          initResource_spec h hsingle hlists he hl hr hkind hfault hsnapshot
        refine ⟨w₁, [], hrun₁, hevolves₁.toSwells, hevents₁, hloaded₁, fun x hx => ?_,
          by simp [hsingle]⟩
        refine hevolves₁.toAlters.fillable (hrest hx) fun heq => ?_
        rw [honce.1 x hx heq.symm] at hsingle
        cases hsingle
    obtain ⟨w₁, surplus, hrun₁, hswells₁, hevents₁, hloaded₁, hrest, hsurplus⟩ := hfirst
    obtain ⟨w₂, hrun₂, hswells₂, hevents₂, hloaded₂⟩ := ih hswells₁.sturdy honce.2 hrest
      fun x kind hlists => by
        rw [Store.snapshot_congr hswells₁.parseRef]
        exact hread x kind hlists
    have hswells := (hswells₁.mono fun x hx => hx ▸ List.mem_cons_self).trans
      (hswells₂.mono fun x hx => List.mem_cons_of_mem rid hx)
    rw [hsurplus, ← List.flatMap_append, ← List.filter_append, List.singleton_append] at hswells
    refine ⟨w₂, ?_, hswells, hevents₂.trans hevents₁, fun x hx => ?_⟩
    · change (initResource batch rid >>= fun _ => rest.forM (initResource batch)) w = _
      rw [bind_of_ok _ hrun₁, hrun₂]
    · rcases List.mem_cons.mp hx with rfl | hx
      · exact hswells₂.isLoaded hloaded₁
      · exact hloaded₂ x hx

end Op

/-- A store in which events can be taken whatever batches have been merged: every replica has its
first contents and lets every event pass, and enough references are counted. -/
structure Store.Fit (s : Store) : Prop where
  sturdy : s.Sturdy
  settled : s.Settled
  transparent : s.Transparent

/-- What is loaded stays loaded as what it is, and what changes of it is told. -/
structure Work.Feeds (w w' : Work) : Prop where
  fit : w'.store.Fit
  kept : ∀ {x r}, w.store.loaded? x = some r →
    ∃ r', w'.store.loaded? x = some r' ∧ r'.content.kind = r.content.kind
  sends : w.Sends (w.store.isLoaded · = true) w'

namespace Work

variable {w w' w'' : Work} {touched : String → Prop}

theorem Feeds.refl (h : w.store.Fit) : w.Feeds w :=
  ⟨h, fun hr => ⟨_, hr, rfl⟩, .nothing rfl fun x r r' hr hr' _ => by
    rw [hr] at hr'
    cases hr'
    rfl⟩

theorem Feeds.evolves (h : w.Feeds w') (hevolves : w'.Evolves touched w'')
    (htouched : ∀ x, touched x → w.store.isLoaded x = true) : w.Feeds w'' := by
  refine ⟨⟨hevolves.sturdy, hevolves.settled h.fit.settled, hevolves.transparent h.fit.transparent⟩,
    fun hr => ?_, h.sends.trans (hevolves.sends.mono htouched) (fun hr => ?_)
      fun _ => h.fit.transparent⟩
  · obtain ⟨r', hr', hkind⟩ := h.kept hr
    obtain ⟨e', he', hl', hreplica'⟩ := Store.loaded?_eq_some hr'
    obtain ⟨r'', hr'', _⟩ := hevolves.loaded? hr'
    obtain ⟨e'', he'', _, hreplica''⟩ := Store.loaded?_eq_some hr''
    refine ⟨r'', hr'', Eq.trans ?_ hkind⟩
    exact hevolves.kind_replica h.fit.sturdy he' hreplica' he'' hreplica''
  · exact (h.kept hr).imp fun _ hr' => hr'.1

variable {s₁ : Store} {batch : Batch}

theorem settled_of_new (h : w.store.Settled)
    (hgrown : w.store.Grown (batch.contains · = true) s₁)
    (halters : Alters (· ∈ w.store.newcomers batch) ⟨s₁, w.out⟩ w')
    (hloaded : ∀ x ∈ w.store.newcomers batch, w'.store.isLoaded x = true) : w'.store.Settled := by
  intro x e' he' hreplica
  by_cases hnew : x ∈ w.store.newcomers batch
  · obtain ⟨e₁, he₁, hl⟩ := Store.isLoaded_iff.mp (hloaded x hnew)
    cases he'.symm.trans he₁
    exact hl
  · have hold : batch.contains x = true → w.store.isLoaded x = true := fun hlisted => by
      simpa [Store.mem_newcomers, hlisted] using hnew
    obtain ⟨e₁, he₁⟩ := halters.back he'
    obtain ⟨e₂, he₂, _, hframe⟩ := halters.kept he₁
    cases he'.symm.trans he₂
    obtain ⟨hsame, hl⟩ := hframe.resolve_left hnew
    rw [hl]
    cases he : w.store.get? x with
    | none =>
      have hunloaded : w.store.isLoaded x = false := by
        rw [Store.isLoaded, he]
      rw [hold (hgrown.fresh he he₁).1] at hunloaded
      cases hunloaded
    | some e =>
      obtain ⟨e₃, he₃, _, _, _, _, _, _, hkept⟩ := hgrown.kept he
      cases he₁.symm.trans he₃
      have heq : e₁ = e := by
        refine hkept ((Classical.em (batch.contains x = true)).imp_left fun hlisted => ?_)
        obtain ⟨e₄, he₄, hl₄⟩ := Store.isLoaded_iff.mp (hold hlisted)
        cases he.symm.trans he₄
        exact hl₄
      subst heq
      exact h x e₁ he (hsame ▸ hreplica)

theorem feeds_of_new (h : w.store.Fit) (hgrown : w.store.Grown (batch.contains · = true) s₁)
    (ht : s₁.Transparent) (halters : Alters (· ∈ w.store.newcomers batch) ⟨s₁, w.out⟩ w')
    (hevents : w'.out.events = w.out.events)
    (hloaded : ∀ x ∈ w.store.newcomers batch, w'.store.isLoaded x = true) : w.Feeds w' := by
  have hsame {x : String} {r : Replica} (hr : w.store.loaded? x = some r) :
      w'.store.loaded? x = some r := by
    obtain ⟨r', hr', _, hframe⟩ := halters.loaded? (hgrown.loaded? hr)
    rcases hframe with hnew | rfl
    · obtain ⟨e, he, hl, _⟩ := Store.loaded?_eq_some hr
      have htrue := Store.isLoaded_iff.mpr ⟨e, he, hl⟩
      rw [(Store.mem_newcomers.mp hnew).2] at htrue
      cases htrue
    · exact hr'
  refine ⟨⟨halters.sturdy, settled_of_new h.settled hgrown halters hloaded, halters.transparent ht⟩,
    fun hr => ⟨_, hsame hr, rfl⟩, .nothing hevents fun x r r' hr hr' _ => ?_⟩
  rw [hsame hr] at hr'
  cases hr'
  rfl

end Work

namespace Op

variable {w : Work} {registry : Registry} {batch : Batch} {rid name : String}

/-- The stages of a merge that passes the checks: the new replicas are filled, and then the others
are brought in line. -/
theorem addResources_stages (hregistry : registry.Quiet) (hbare : registry.Bare ∨ batch.Disjoint)
    (h : w.store.Sturdy) (hkinds : w.store.checkKinds batch.incoming = .ok ())
    (hvalid : w.store.validate batch = .ok ()) :
    ∃ s₁ w₂ w₃, (w.store.createAll registry batch batch.incoming).1 = s₁ ∧
      w.store.Grown (batch.contains · = true) s₁ ∧
      Work.Swells batch.unshown (· ∈ w.store.newcomers batch) ⟨s₁, w.out⟩ w₂ ∧
      w₂.out.events = w.out.events ∧
      (∀ rid ∈ w.store.newcomers batch, w₂.store.isLoaded rid = true) ∧
      w₂.Evolves (· ∈ (w.store.residents batch).map (·.1)) w₃ ∧
      addResources registry batch w = .ok (w.store.newcomers batch) w₃ := by
  obtain ⟨s₁, hrun₁, hgrown, hsturdy, hawaits, hread⟩ :=
    Store.createAll_ready hregistry h hvalid
  obtain ⟨w₂, hrun₂, hswells₂, hevents₂, hloaded₂⟩ := @initAll_swells ⟨s₁, w.out⟩ registry batch
    (w.store.newcomers batch) hsturdy (w.store.contradicts_of_newcomers batch)
    (fun rid hrid => by
      obtain ⟨kind, hlast, hawaiting⟩ := hawaits rid hrid
      exact Store.fillable_of_awaits hbare hlast hawaiting) hread
  rw [Store.filter_newcomers h hkinds] at hswells₂
  obtain ⟨w₃, hrun₃, hevolves₃, _⟩ := @syncAll_spec w₂ batch (w.store.residents batch)
    hswells₂.sturdy (Store.nodup_residents h hkinds)
    (residents_ready h hkinds hgrown hswells₂.toAlters hread)
  exact ⟨s₁, w₂, w₃, by rw [hrun₁], hgrown, hswells₂, hevents₂, hloaded₂, hevolves₃,
    addResources_run hkinds hvalid hrun₁ hrun₂ hrun₃⟩

/-- After the checks a merge succeeds, whatever its sections list. -/
theorem addResources_of_accepted (hregistry : registry.Quiet)
    (hbare : registry.Bare ∨ batch.Disjoint) (h : w.store.Sturdy)
    (hkinds : w.store.checkKinds batch.incoming = .ok ())
    (hvalid : w.store.validate batch = .ok ()) :
    ∃ created w', addResources registry batch w = .ok created w' ∧
      w.Merged batch.unshown batch created w' := by
  obtain ⟨s₁, w₂, w₃, hcreate, hgrown, hswells₂, _, hloaded₂, hevolves₃, hrun⟩ :=
    addResources_stages hregistry hbare h hkinds hvalid
  have hbalanced {extra : String → Nat} (hs : w.store.Balanced extra) : s₁.Balanced extra :=
    hcreate ▸ Store.balanced_createAll hregistry batch.incoming hs
  have hswells := (hswells₂.mono fun x hx => (Store.mem_newcomers.mp hx).1).trans
    (hevolves₃.toSwells.mono fun x hx => (Store.of_mem_residents hx).1)
  rw [List.append_nil] at hswells
  refine ⟨_, w₃, hrun, @Work.Merged.of_steps _ batch _ w ⟨s₁, w.out⟩ w₃ rfl hgrown hswells hbalanced
    (fun x => Store.mem_newcomers) fun x hx => ?_⟩
  cases hl : w.store.isLoaded x with
  | true => exact hevolves₃.isLoaded (hswells₂.isLoaded ((hgrown.isLoaded x).trans hl))
  | false => exact hevolves₃.isLoaded (hloaded₂ x (Store.mem_newcomers.mpr ⟨hx, hl⟩))

/-- Whatever its sections list, a merge refuses the batch and changes nothing, or it succeeds. -/
theorem addResources_merged (hregistry : registry.Quiet) (hbare : registry.Bare ∨ batch.Disjoint)
    (h : w.store.Sturdy) :
    (∃ err, addResources registry batch w = .error err w ∧
      ∀ rid, err ≠ .negativeReferences rid) ∨
    ∃ created w', addResources registry batch w = .ok created w' ∧
      w.Merged batch.unshown batch created w' :=
  (addResources_refused registry batch w).imp_right fun ⟨hkinds, hvalid⟩ =>
    addResources_of_accepted hregistry hbare h hkinds hvalid

theorem addResources_feeds (hregistry : registry.Transparent)
    (hbare : registry.Bare ∨ batch.Disjoint) (h : w.store.Fit) :
    (∃ err, addResources registry batch w = .error err w) ∨
    ∃ created w', addResources registry batch w = .ok created w' ∧ w.Feeds w' := by
  rcases addResources_refused registry batch w with ⟨err, hrun, _⟩ | ⟨hkinds, hvalid⟩
  · exact .inl ⟨err, hrun⟩
  · obtain ⟨s₁, w₂, w₃, hcreate, hgrown, hswells₂, hevents₂, hloaded₂, hevolves₃, hrun⟩ :=
      addResources_stages hregistry.quiet hbare h.sturdy hkinds hvalid
    have ht := Store.transparent_createAll hregistry batch batch.incoming h.transparent
    rw [hcreate] at ht
    have hfeeds := Work.feeds_of_new h hgrown ht hswells₂.toAlters hevents₂ hloaded₂
    exact .inr ⟨_, w₃, hrun, hfeeds.evolves hevolves₃ fun x hx => (Store.of_mem_residents hx).2⟩

end Op

end LiveResource
