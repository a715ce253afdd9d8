import LiveResource.Proofs.Edits
import LiveResource.Proofs.Tokens
import LiveResource.Store.Merge

set_option autoImplicit false

/-!
# Replicas and their snapshots

A new replica is filled from its snapshot, and a loaded one is brought in line with it. Neither
fails once the snapshot can be read, and both end in the contents of the snapshot.
-/

namespace LiveResource

namespace Batch

def Lists (b : Batch) (rid : String) : Kind → Prop
  | .model => b.models.contains rid = true
  | .collection => b.collections.contains rid = true
  | .error => b.errors.contains rid = true

def Disjoint (b : Batch) : Prop :=
  ∀ rid kind kind', b.Lists rid kind → b.Lists rid kind' → kind = kind'

theorem disjoint_of_models {b : Batch} (hcollections : b.collections = ∅) (herrors : b.errors = ∅) :
    b.Disjoint := by
  have hmodel (rid : String) (kind : Kind) (h : b.Lists rid kind) : kind = .model := by
    cases kind with
    | model => rfl
    | collection =>
      rw [Lists, hcollections] at h
      cases h
    | error =>
      rw [Lists, herrors] at h
      cases h
  intro rid kind kind' h h'
  exact (hmodel rid kind h).trans (hmodel rid kind' h').symm

def contradicts (b : Batch) (rid : String) : Bool :=
  b.models.contains rid && b.collections.contains rid ||
    (b.models.contains rid || b.collections.contains rid) && b.errors.contains rid

theorem contradicts_of_lists {b : Batch} {rid : String} {kind kind' : Kind} (h : b.Lists rid kind)
    (h' : b.Lists rid kind') (hne : kind ≠ kind') : b.contradicts rid = true := by
  cases kind <;> cases kind' <;> simp_all [Lists, contradicts]

theorem exists_lists_of_contradicts {b : Batch} {rid : String} (h : b.contradicts rid = true) :
    ∃ kind kind', b.Lists rid kind ∧ b.Lists rid kind' ∧ kind ≠ kind' := by
  simp only [contradicts, Bool.or_eq_true, Bool.and_eq_true] at h
  rcases h with ⟨hmodel, hcollection⟩ | ⟨hmodel | hcollection, herror⟩
  · exact ⟨.model, .collection, hmodel, hcollection, by simp⟩
  · exact ⟨.model, .error, hmodel, herror, by simp⟩
  · exact ⟨.collection, .error, hcollection, herror, by simp⟩

theorem disjoint_iff {b : Batch} : b.Disjoint ↔ ∀ rid, b.contradicts rid = false := by
  constructor
  · intro h rid
    rw [Bool.eq_false_iff]
    intro hcontra
    obtain ⟨kind, kind', hlists, hlists', hne⟩ := exists_lists_of_contradicts hcontra
    exact hne (h rid kind kind' hlists hlists')
  · intro h rid kind kind' hlists hlists'
    by_contra hne
    have hcontra := contradicts_of_lists hlists hlists' hne
    rw [h rid] at hcontra
    cases hcontra

end Batch

namespace Op

variable {w : Work} {rid : String}

theorem parseCounted_run {token : Json} {v : Value} (h : w.store.parseStored token = .ok v) :
    parseCounted token w = .ok v ⟨w.store.gain (hardRefs [v]), w.out⟩ := by
  have hexists : ∀ t ∈ hardRefs [v], ∃ e, w.store.get? t = some e := by
    intro t ht
    have hreads : ∀ u ∈ [v], w.store.Reads u := fun u hu =>
      List.mem_singleton.mp hu ▸ Store.reads_of_parseStored h
    obtain ⟨e, he, _⟩ := Store.hasReplica_iff.mp (Store.hasReplica_of_reads hreads t ht)
    exact ⟨e, he⟩
  rw [parseCounted, bind_of_ok _ (liftStore_of_ok h), bind_of_ok _ (countValue_run hexists)]
  rfl

theorem parseFieldsCounted_run {entries : List (String × Json)} {vs : List (String × Value)}
    (h : Store.parseEach w.store.parseStored entries = .ok vs) :
    parseFieldsCounted entries w = .ok vs ⟨w.store.gain (hardRefs (vs.map (·.2))), w.out⟩ := by
  induction entries generalizing w vs with
  | nil =>
    cases h
    rw [List.map_nil, hardRefs, List.filterMap_nil, Store.gain_nil]
    rfl
  | cons e rest ih =>
    obtain ⟨key, token⟩ := e
    obtain ⟨v, others, hv, hvs, rfl⟩ := Store.parseEach_cons_ok h
    have hsame : (w.store.gain (hardRefs [v])).parseStored = w.store.parseStored :=
      Store.parseStored_congr (Store.parseRef_recount _ _)
    have hrest := @ih ⟨w.store.gain (hardRefs [v]), w.out⟩ others (by rw [hsame]; exact hvs)
    rw [parseFieldsCounted, bind_of_ok _ (parseCounted_run hv), bind_of_ok _ hrest,
      List.map_cons, hardRefs_cons v (others.map (·.2)), Store.gain_gain]
    rfl

theorem parseValuesCounted_run {tokens : List Json} {vs : List Value}
    (h : w.store.parseValues tokens = .ok vs) :
    parseValuesCounted tokens w = .ok vs ⟨w.store.gain (hardRefs vs), w.out⟩ := by
  induction tokens generalizing w vs with
  | nil =>
    cases h
    rw [hardRefs, List.filterMap_nil, Store.gain_nil]
    rfl
  | cons token rest ih =>
    obtain ⟨v, others, hv, hvs, rfl⟩ := Store.parseValues_cons_ok h
    have hsame : (w.store.gain (hardRefs [v])).parseValues = w.store.parseValues :=
      Store.parseValues_congr (Store.parseRef_recount _ _)
    have hrest := @ih ⟨w.store.gain (hardRefs [v]), w.out⟩ others (by rw [hsame]; exact hvs)
    rw [parseValuesCounted, bind_of_ok _ (parseCounted_run hv), bind_of_ok _ hrest,
      hardRefs_cons v others, Store.gain_gain]
    rfl

end Op

namespace Store

def snapshot (s : Store) (batch : Batch) (rid : String) : Kind → Except CacheError Content
  | .model => (s.parseFields ((batch.models.get? rid).getD ∅)).map .model
  | .collection => (s.parseValues ((batch.collections.get? rid).getD [])).map .collection
  | .error => .ok (.error ((batch.errors.get? rid).getD default))

theorem snapshot_congr {s s' : Store} (h : s'.parseRef = s.parseRef) (batch : Batch) (rid : String)
    (kind : Kind) : s'.snapshot batch rid kind = s.snapshot batch rid kind := by
  cases kind with
  | model => simp only [snapshot, parseFields_congr h]
  | collection => simp only [snapshot, parseValues_congr h]
  | error => rfl

theorem snapshot_model {s : Store} {batch : Batch} {rid : String} {content : Content}
    (h : s.snapshot batch rid .model = .ok content) :
    ∃ vs, parseEach s.parseStored ((batch.models.get? rid).getD ∅).entries = .ok vs ∧
      content = .model (Dict.ofList vs) ∧ (Dict.ofList vs).values = vs.map (·.2) := by
  unfold snapshot parseFields at h
  cases hvs : parseEach s.parseStored ((batch.models.get? rid).getD ∅).entries with
  | error err =>
    rw [hvs] at h
    cases h
  | ok vs =>
    rw [hvs] at h
    cases h
    exact ⟨vs, rfl, rfl, by rw [Dict.values, entries_of_parseEach hvs]⟩

theorem snapshot_collection {s : Store} {batch : Batch} {rid : String} {content : Content}
    (h : s.snapshot batch rid .collection = .ok content) :
    ∃ vs, s.parseValues ((batch.collections.get? rid).getD []) = .ok vs ∧
      content = .collection vs := by
  unfold snapshot at h
  cases hvs : s.parseValues ((batch.collections.get? rid).getD []) with
  | error err =>
    rw [hvs] at h
    cases h
  | ok vs =>
    rw [hvs] at h
    cases h
    exact ⟨vs, rfl, rfl⟩

/-- A snapshot is of the kind it is listed as, its references are what their targets denote, and no
    field of it is marked as deleted. -/
theorem of_snapshot {s : Store} {batch : Batch} {rid : String} {kind : Kind} {content : Content}
    (h : s.snapshot batch rid kind = .ok content) : content.kind = kind ∧
      (∀ v ∈ content.values, s.Reads v) ∧ content.Clean := by
  cases kind with
  | model =>
    obtain ⟨vs, hvs, rfl, hvalues⟩ := snapshot_model h
    refine ⟨rfl, ?_, clean_of_parseEach hvs⟩
    change ∀ v ∈ (Dict.ofList vs).values, _
    rw [hvalues]
    exact reads_of_parseEach (fun _ _ => parse_of_parseStored) hvs
  | collection =>
    obtain ⟨vs, hvs, rfl⟩ := snapshot_collection h
    exact ⟨rfl, reads_of_parseValues hvs, trivial⟩
  | error =>
    cases h
    exact ⟨rfl, fun v hv => (by cases hv), trivial⟩

end Store

namespace Entry

variable {e : Entry} {r r' : Replica}

theorem Sound.fill (h : e.Sound) (hr : e.replica = some r)
    (hkind : r'.content.kind = r.content.kind) (hhooks : r'.hooks = r.hooks)
    (hclean : r'.content.Clean) (n : Nat) :
    ({ e with replica := some r', indirect := n, loaded := true } : Entry).Sound := by
  refine ⟨?_, fun _ => rfl, fun r₁ hr₁ => ?_, fun r₁ hr₁ _ => ?_⟩
  · rw [h.kind, hr]
    exact congrArg some hkind.symm
  · cases hr₁
    rw [hhooks]
    exact h.quiet r hr
  · cases hr₁
    exact hclean

theorem edited_filled (hr : e.replica = some r) (hid : r'.id = r.id) (hhooks : r'.hooks = r.hooks)
    (n : Nat) : Edited { e with indirect := n }
      { e with replica := some r', indirect := n, loaded := true } := by
  refine ⟨rfl, ?_, fun {r₁ r₂} hr₁ hr₂ => .inl ?_, rfl, rfl, rfl, rfl, fun _ => rfl⟩
  · rw [hr]
    exact congrArg some hid
  · cases hr.symm.trans hr₁
    cases hr₂
    exact hhooks

end Entry

theorem Work.evolves_filled {w w' : Work} {rid : String} {e : Entry} {r r' : Replica}
    {content : Content} (h : w.store.Sturdy) (he : w.store.get? rid = some e)
    (hunloaded : e.loaded = false) (hr : e.replica = some r) (hkind : content.kind = r.content.kind)
    (hreads : ∀ v ∈ content.values, w.store.Reads v) (hclean : content.Clean)
    (hcontent : r'.content = content) (hid : r'.id = r.id) (hhooks : r'.hooks = r.hooks)
    (hstore : w'.store = ((w.store.gain (hardRefs content.values)).lose []).put rid { e with
      replica := some r'
      indirect := e.indirect + (hardRefs content.values).count rid
      loaded := true })
    (horphans : w'.out.orphans = w.out.orphans) (hevents : w'.out.events = w.out.events)
    (herrors : ∀ err ∈ w'.out.errors, err ∈ w.out.errors ∨ ∃ rid fault, err = .handler rid fault) :
    w.Evolves (· = rid) w' := by
  subst hcontent
  have hunheld : w.store.unheld [] = [] := rfl
  refine .exchange h he ((h.entry he).fill hr hkind hhooks hclean _)
    (Entry.edited_filled hr hid hhooks _) rfl (fun t => ?_) (Store.hasReplica_of_reads hreads)
    (fun {r₁ v} hr₁ hv => ?_) hstore (by rw [horphans, hunheld, List.append_nil]) herrors
    (by rw [hevents, List.append_nil]) (fun event hmem => by cases hmem) fun _ _ _ hl => ?_
  · rw [Entry.links_of_not_loaded hunloaded]
    change (hardRefs r'.content.values).count t + 0 = 0 + _
    rw [Nat.add_zero, Nat.zero_add]
  · cases hr₁
    exact .inr (hreads v hv)
  · rw [hunloaded] at hl
    cases hl

namespace Op

variable {w : Work} {rid : String} {e : Entry} {r : Replica} {batch : Batch}

theorem judged_run_discard (outcome : Outcome Unit) :
    (do let _ ← judged rid (outcome.map fun _ => true) : Op Unit) w =
      .ok () (w.noted rid (outcome.map fun _ => none)) := by
  cases outcome with
  | error fault => rfl
  | ok passed => rfl

theorem initContent_run_model {tokens : Dict Json} {vs : List (String × Value)}
    (he : w.store.get? rid = some e) (hr : e.replica = some r) (hkind : r.content.kind = .model)
    (hquiet : r.hooks.Quiet) (htokens : batch.models.get? rid = some tokens)
    (hvs : Store.parseEach w.store.parseStored tokens.entries = .ok vs) :
    initContent batch rid w = .ok ()
      ((w.edited rid r (.model (Dict.ofList vs)) (hardRefs (vs.map (·.2))) []).noted rid
        ((r.hooks.initModel r.turn (Dict.ofList vs)).2.map fun _ => none)) := by
  rw [initContent, bind_of_ok _ (replica_of_get? he hr)]
  simp only [htokens]
  rw [bind_of_ok _ (parseFieldsCounted_run hvs)]
  cases hcontent : r.content with
  | model fields =>
    simp only
    rw [bind_of_ok _ (setReplica_run _), hquiet.initModel, judged_run_discard,
      ← edited_gain]
  | collection values =>
    rw [hcontent] at hkind
    cases hkind
  | error fault =>
    rw [hcontent] at hkind
    cases hkind

theorem initContent_run_collection {tokens : List Json} {vs : List Value}
    (he : w.store.get? rid = some e) (hr : e.replica = some r)
    (hkind : r.content.kind = .collection) (hquiet : r.hooks.Quiet)
    (hmodels : batch.models.get? rid = none) (htokens : batch.collections.get? rid = some tokens)
    (hvs : w.store.parseValues tokens = .ok vs) :
    initContent batch rid w = .ok ()
      ((w.edited rid r (.collection vs) (hardRefs vs) []).noted rid
        ((r.hooks.initCollection r.turn vs).2.map fun _ => none)) := by
  rw [initContent, bind_of_ok _ (replica_of_get? he hr)]
  simp only [hmodels, htokens]
  rw [bind_of_ok _ (parseValuesCounted_run hvs)]
  cases hcontent : r.content with
  | collection values =>
    simp only
    rw [bind_of_ok _ (setReplica_run _), hquiet.initCollection, judged_run_discard,
      ← edited_gain]
  | model fields =>
    rw [hcontent] at hkind
    cases hkind
  | error fault =>
    rw [hcontent] at hkind
    cases hkind

theorem initContent_run_error (he : w.store.get? rid = some e) (hr : e.replica = some r)
    (hmodels : batch.models.get? rid = none) (hcollections : batch.collections.get? rid = none) :
    initContent batch rid w = .ok () w := by
  rw [initContent, bind_of_ok _ (replica_of_get? he hr)]
  simp only [hmodels, hcollections]
  rfl

theorem initResource_run {w' : Work} {e' : Entry} (h : initContent batch rid w = .ok () w')
    (he : w'.store.get? rid = some e') : initResource batch rid w =
      .ok () ⟨w'.store.put rid { e' with loaded := true }, w'.out⟩ := by
  rw [initResource, bind_of_ok _ h, bind_of_ok _ (entry_of_get? he), modifyStore_run,
    Store.modify_eq_put he]

end Op

theorem Batch.get?_of_lists {batch : Batch} {rid : String} (h : batch.Lists rid .model) :
    ∃ tokens, batch.models.get? rid = some tokens :=
  Dict.contains_iff.mp h

theorem Batch.get?_models_of_once {batch : Batch} {rid : String} {kind : Kind}
    (h : batch.contradicts rid = false) (hlists : batch.Lists rid kind) (hkind : kind ≠ .model) :
    batch.models.get? rid = none := by
  cases hget : batch.models.get? rid with
  | none => rfl
  | some tokens =>
    have hmodel : batch.Lists rid .model := Dict.contains_iff.mpr ⟨tokens, hget⟩
    rw [contradicts_of_lists hlists hmodel hkind] at h
    cases h

theorem Batch.get?_collections_of_once {batch : Batch} {rid : String} {kind : Kind}
    (h : batch.contradicts rid = false) (hlists : batch.Lists rid kind)
    (hkind : kind ≠ .collection) : batch.collections.get? rid = none := by
  cases hget : batch.collections.get? rid with
  | none => rfl
  | some tokens =>
    have hcollection : batch.Lists rid .collection := Dict.contains_iff.mpr ⟨tokens, hget⟩
    rw [contradicts_of_lists hlists hcollection hkind] at h
    cases h

namespace Op

variable {w : Work} {rid : String} {e : Entry} {r : Replica} {batch : Batch} {kind : Kind}
  {content : Content}

theorem initResource_done {w₁ : Work} {r' : Replica} (h : w.store.Sturdy)
    (he : w.store.get? rid = some e) (hunloaded : e.loaded = false) (hr : e.replica = some r)
    (hkind : content.kind = r.content.kind)
    (hreads : ∀ v ∈ content.values, w.store.Reads v) (hclean : content.Clean)
    (hcontent : r'.content = content) (hid : r'.id = r.id) (hhooks : r'.hooks = r.hooks)
    (hrun : initContent batch rid w = .ok () w₁)
    (hstore : w₁.store = ((w.store.gain (hardRefs content.values)).lose []).put rid { e with
      replica := some r'
      indirect := e.indirect + (hardRefs content.values).count rid })
    (horphans : w₁.out.orphans = w.out.orphans) (hevents : w₁.out.events = w.out.events)
    (herrors : ∀ err ∈ w₁.out.errors, err ∈ w.out.errors ∨ ∃ rid fault, err = .handler rid fault) :
    ∃ w', initResource batch rid w = .ok () w' ∧ w.Evolves (· = rid) w' ∧
      w'.out.events = w.out.events ∧ w'.store.isLoaded rid = true ∧
        w'.store.content? rid = some content := by
  have he₁ : w₁.store.get? rid = some { e with
      replica := some r'
      indirect := e.indirect + (hardRefs content.values).count rid } := by
    rw [hstore, Store.get?_put, if_pos rfl]
  have hgot := Store.get?_put w₁.store rid { e with
    replica := some r'
    indirect := e.indirect + (hardRefs content.values).count rid
    loaded := true } rid
  rw [if_pos rfl] at hgot
  refine ⟨_, initResource_run hrun he₁, ?_, hevents, Store.isLoaded_iff.mpr ⟨_, hgot, rfl⟩, ?_⟩
  · apply Work.evolves_filled h he hunloaded hr hkind hreads hclean hcontent hid hhooks
    · rw [hstore, Store.put_put]
    · exact horphans
    · exact hevents
    · exact herrors
  · rw [Store.content?_of_get? hgot rfl, hcontent]

/-- A new replica is filled from the snapshot, and its resource is loaded then. -/
theorem initResource_spec (h : w.store.Sturdy) (honce : batch.contradicts rid = false)
    (hlists : batch.Lists rid kind) (he : w.store.get? rid = some e) (hunloaded : e.loaded = false)
    (hr : e.replica = some r) (hkind : r.content.kind = kind)
    (hfault : kind = .error → r.content = .error ((batch.errors.get? rid).getD default))
    (hsnapshot : w.store.snapshot batch rid kind = .ok content) :
    ∃ w', initResource batch rid w = .ok () w' ∧ w.Evolves (· = rid) w' ∧
      w'.out.events = w.out.events ∧ w'.store.isLoaded rid = true ∧
        w'.store.content? rid = some content := by
  have hquiet := (h.entry he).quiet r hr
  obtain ⟨hsame, hreads, hclean⟩ := Store.of_snapshot hsnapshot
  have hkinds : content.kind = r.content.kind := hsame.trans hkind.symm
  -- whatever becomes of the hook call, the contents are those of the snapshot
  have hhooked (outcome : Outcome Unit)
      (hrun : initContent batch rid w = .ok ()
        ((w.edited rid r content (hardRefs content.values) []).noted rid
          (outcome.map fun _ => none))) :
      ∃ w', initResource batch rid w = .ok () w' ∧ w.Evolves (· = rid) w' ∧
        w'.out.events = w.out.events ∧ w'.store.isLoaded rid = true ∧
          w'.store.content? rid = some content := by
    have hcontent : (r.hooked content).content = content := rfl
    apply initResource_done h he hunloaded hr hkinds hreads hclean hcontent rfl rfl hrun
    · rw [Work.store_noted, Work.store_edited he]
      rfl
    · rw [Work.orphans_noted, Work.edited]
      simp [Store.unheld]
    · rw [Work.events_noted, Work.passed_map_none, List.append_nil, Work.edited]
    · intro err herr
      have hmem := Work.mem_errors_noted herr
      exact hmem
  cases kind with
  | model =>
    obtain ⟨tokens, htokens⟩ := Batch.get?_of_lists hlists
    obtain ⟨vs, hvs, rfl, hvalues⟩ := Store.snapshot_model hsnapshot
    rw [htokens] at hvs
    have hrun := initContent_run_model he hr hkind hquiet htokens hvs
    rw [← hvalues] at hrun
    exact hhooked _ hrun
  | collection =>
    obtain ⟨tokens, htokens⟩ := Dict.contains_iff.mp hlists
    obtain ⟨vs, hvs, rfl⟩ := Store.snapshot_collection hsnapshot
    rw [htokens] at hvs
    have hmodels := Batch.get?_models_of_once honce hlists (by simp)
    exact hhooked _ (initContent_run_collection he hr hkind hquiet hmodels htokens hvs)
  | error =>
    cases hsnapshot
    have hmodels := Batch.get?_models_of_once honce hlists (by simp)
    have hcollections := Batch.get?_collections_of_once honce hlists (by simp)
    have hrun := initContent_run_error he hr hmodels hcollections
    refine initResource_done h he hunloaded hr hkinds hreads hclean (hfault rfl) rfl rfl hrun ?_
      rfl rfl fun _ => .inl
    have hput : w.store.put rid { e with replica := some r } = w.store := by
      rw [← hr]
      exact Store.put_self he
    exact hput.symm.trans (by simp [hardRefs, Content.values])

/-- A script whose indices are in range is replayed as events. -/
theorem applyEdits_spec {script : List Edit} {values result : List Value} (h : w.store.Sturdy)
    (hloaded : w.store.isLoaded rid = true)
    (hcontent : w.store.content? rid = some (.collection values))
    (hreplay : replay values script = some result)
    (hvalues : ∀ index value, Edit.add index value ∈ script → w.store.Reads value) :
    ∃ w', script.forM (applyEdit rid) w = .ok () w' ∧ w.Evolves (· = rid) w' ∧
      w'.store.content? rid = some (.collection result) := by
  induction script generalizing w values with
  | nil =>
    cases hreplay
    exact ⟨w, rfl, .refl h, hcontent⟩
  | cons edit rest ih =>
    -- one step, then the rest of the script
    have hstep (values' : List Value) (hrest : replay values' rest = some result)
        (hedit : ∃ w', applyEdit rid edit w = .ok () w' ∧ w.Evolves (· = rid) w' ∧
          w'.store.content? rid = some (.collection values')) :
        ∃ w', (edit :: rest).forM (applyEdit rid) w = .ok () w' ∧ w.Evolves (· = rid) w' ∧
          w'.store.content? rid = some (.collection result) := by
      obtain ⟨w₁, hrun₁, hevolves₁, hcontent₁⟩ := hedit
      obtain ⟨w₂, hrun₂, hevolves₂, hcontent₂⟩ := ih hevolves₁.sturdy (hevolves₁.isLoaded hloaded)
        hcontent₁ hrest fun index value hmem =>
          (Store.reads_congr hevolves₁.parseRef).mpr (hvalues index value (List.mem_cons_of_mem _ hmem))
      refine ⟨w₂, ?_, hevolves₁.trans hevolves₂, hcontent₂⟩
      change (applyEdit rid edit >>= fun _ => rest.forM (applyEdit rid)) w = _
      rw [bind_of_ok _ hrun₁, hrun₂]
    cases edit with
    | add index value =>
      rw [replay, Edit.apply] at hreplay
      by_cases hindex : index ≤ values.length
      · rw [if_pos hindex] at hreplay
        exact hstep _ hreplay (applyAdd_spec h hloaded hcontent hindex
          (hvalues index value List.mem_cons_self))
      · rw [if_neg hindex] at hreplay
        cases hreplay
    | remove index =>
      rw [replay, Edit.apply] at hreplay
      by_cases hindex : index < values.length
      · rw [if_pos hindex] at hreplay
        exact hstep _ hreplay (applyRemove_spec h hloaded hcontent hindex)
      · rw [if_neg hindex] at hreplay
        cases hreplay

theorem synchronize_model {fields new : Fields} (h : w.store.Sturdy)
    (hloaded : w.store.isLoaded rid = true)
    (hcontent : w.store.content? rid = some (.model fields))
    (hparse : w.store.parseFields ((batch.models.get? rid).getD ∅) = .ok new)
    (hclean : (Content.model fields).Clean) (hclean' : (Content.model new).Clean)
    (hreads : ∀ v ∈ new.values, w.store.Reads v) :
    ∃ w' shown, synchronize batch rid .model w = .ok () w' ∧ w.Evolves (· = rid) w' ∧
      w'.store.content? rid = some shown ∧ (shown == .model new) = true := by
  obtain ⟨e, r, he, hr, hmodel⟩ := Store.get?_of_content? hcontent
  have hlift : liftStore (·.parseFields ((batch.models.get? rid).getD ∅)) w = .ok new w :=
    liftStore_of_ok hparse
  have hsame : (Content.model (Change.writeAll fields .none (diffModel fields new).entries).1 ==
      .model new) = true := Change.writeAll_diffModel hclean hclean'
  have hchanges : ∀ v ∈ (diffModel fields new).values, w.store.Reads v := by
    intro v hv
    rcases mem_values_diffModel hv with hmem | rfl
    · exact hreads v hmem
    · intro ref href
      cases href
  rw [synchronize, bind_of_ok _ (replica_of_get? he hr)]
  simp only
  rw [bind_of_ok _ hlift]
  simp only [hmodel]
  cases hempty : (diffModel fields new).isEmpty with
  | true =>
    rw [List.isEmpty_iff.mp hempty] at hsame
    exact ⟨w, .model fields, rfl, .refl h, hcontent, hsame⟩
  | false =>
    obtain ⟨w', hrun, hevolves, hcontent'⟩ := applyChange_spec h hloaded hcontent hchanges
    exact ⟨w', _, hrun, hevolves, hcontent', hsame⟩

theorem synchronize_collection {values new : List Value} (h : w.store.Sturdy)
    (hloaded : w.store.isLoaded rid = true)
    (hcontent : w.store.content? rid = some (.collection values))
    (hparse : w.store.parseValues ((batch.collections.get? rid).getD []) = .ok new)
    (hreads : ∀ v ∈ new, w.store.Reads v) :
    ∃ w' shown, synchronize batch rid .collection w = .ok () w' ∧ w.Evolves (· = rid) w' ∧
      w'.store.content? rid = some shown ∧ (shown == .collection new) = true := by
  obtain ⟨e, r, he, hr, hcollection⟩ := Store.get?_of_content? hcontent
  have hlift : liftStore (·.parseValues ((batch.collections.get? rid).getD [])) w = .ok new w :=
    liftStore_of_ok hparse
  obtain ⟨result, hreplay, hsame⟩ := replay_diffCollection values new
  have hvalues : ∀ index value, Edit.add index value ∈ diffCollection values new →
      w.store.Reads value := fun index value hmem => hreads value (mem_diffCollection hmem)
  rw [synchronize, bind_of_ok _ (replica_of_get? he hr)]
  simp only
  rw [bind_of_ok _ hlift]
  simp only [hcollection]
  obtain ⟨w', hrun, hevolves, hcontent'⟩ := applyEdits_spec h hloaded hcontent hreplay hvalues
  exact ⟨w', _, hrun, hevolves, hcontent', hsame⟩

theorem synchronize_error {fault : Fault} (h : w.store.Sturdy)
    (hloaded : w.store.isLoaded rid = true) (hcontent : w.store.content? rid = some (.error fault)) :
    ∃ w', synchronize batch rid .error w = .ok () w' ∧ w.Evolves (· = rid) w' ∧
      w'.store.content? rid = some (.error ((batch.errors.get? rid).getD default)) := by
  obtain ⟨e, r, he, hr, herror⟩ := Store.get?_of_content? hcontent
  obtain ⟨e', he', hl⟩ := Store.isLoaded_iff.mp hloaded
  rw [he] at he'
  cases he'
  have hsound := h.entry he
  have hput (r' : Replica) : w.store.rewrite rid r' =
      ((w.store.gain []).lose []).put rid { e with replica := some r' } := by
    rw [Store.gain_nil, Store.lose_nil, Store.rewrite_eq_put he]
  rw [synchronize, bind_of_ok _ (replica_of_get? he hr)]
  simp only
  refine ⟨_, setReplica_run _, ?_, ?_⟩
  · refine .exchange h he ?_ ?_ rfl ?_ (fun t ht => by cases ht) (fun {r' v} hr' hv => ?_) (hput _)
      (by simp [Store.unheld]) (fun _ => .inl) (List.append_nil _).symm
      (fun event hmem => by cases hmem) ?_
    · refine ⟨?_, fun _ => rfl, fun r' hr' => ?_, fun r' hr' _ => ?_⟩
      · rw [hsound.kind, hr, Option.map_some, herror]
        rfl
      · cases hr'
        exact Hooks.quiet_pass
      · cases hr'
        trivial
    · refine ⟨rfl, ?_, fun {r₁ r'} hr₁ hr' => .inr ?_, rfl, rfl, rfl, rfl, id⟩
      · rw [hr]
        rfl
      · cases hr'
        rfl
    · intro t
      have hold : e.links = [] := by
        rw [Entry.links_of_loaded hl, Entry.hardRefs_of_replica hr, Replica.hardRefs, herror]
        rfl
      rw [hold]
      change (if e.loaded = true then [] else []).count t + _ = _
      rw [if_pos hl]
    · cases hr'
      cases hv
    · intro _ r₁ r' _ hr₁ _ hkind
      cases hr.symm.trans hr₁
      rw [herror] at hkind
      exact absurd rfl hkind
  · rw [Store.content?_of_get? (by rw [Store.get?_rewrite, if_pos rfl, he]; rfl) rfl]

/-- A loaded replica is brought in line with its snapshot. -/
theorem synchronize_spec {old : Content} (h : w.store.Sturdy)
    (hloaded : w.store.isLoaded rid = true) (hcontent : w.store.content? rid = some old)
    (hkind : old.kind = kind) (hsnapshot : w.store.snapshot batch rid kind = .ok content) :
    ∃ w' shown, synchronize batch rid kind w = .ok () w' ∧ w.Evolves (· = rid) w' ∧
      w'.store.content? rid = some shown ∧ (shown == content) = true := by
  obtain ⟨hsame, hreads, hclean⟩ := Store.of_snapshot hsnapshot
  have hclean' : old.Clean := by
    obtain ⟨e, r, he, hr, rfl⟩ := Store.get?_of_content? hcontent
    obtain ⟨e', he', hl⟩ := Store.isLoaded_iff.mp hloaded
    rw [he] at he'
    cases he'
    exact (h.entry he).clean r hr hl
  cases old with
  | model fields =>
    subst hkind
    obtain ⟨vs, hvs, rfl, _⟩ := Store.snapshot_model hsnapshot
    have hparse : w.store.parseFields ((batch.models.get? rid).getD ∅) = .ok (Dict.ofList vs) := by
      rw [Store.parseFields, hvs]
      rfl
    exact synchronize_model h hloaded hcontent hparse hclean' hclean hreads
  | collection values =>
    subst hkind
    obtain ⟨vs, hvs, rfl⟩ := Store.snapshot_collection hsnapshot
    exact synchronize_collection h hloaded hcontent hvs hreads
  | error fault =>
    subst hkind
    obtain ⟨w', hrun, hevolves, hcontent'⟩ := @synchronize_error w rid batch fault h hloaded hcontent
    cases hsnapshot
    exact ⟨w', _, hrun, hevolves, hcontent', BEq.rfl⟩

end Op

end LiveResource
