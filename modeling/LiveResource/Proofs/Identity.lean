import LiveResource.Cache.Holdings
import LiveResource.Proofs.Courses
import LiveResource.Proofs.Traces

set_option autoImplicit false

/-!
# Replicas and the references to them

A stored reference names the replica that its target had when the reference was read. What is
referred to is loaded, and what is loaded keeps its replica until it is evicted; it is not evicted
while something that stays refers to it. So a stored reference always leads to the replica that is
cached.
-/

namespace LiveResource

namespace Store

variable {s s' s'' : Store} {x rid : String} {e e' : Entry} {r : Replica} {ref : Ref}
  {extra : String → Nat}

theorem handle?_eq_some {handle : Handle} (h : s.handle? x = some handle) :
    ∃ e, s.get? x = some e ∧ e.handle? x = some handle := Option.bind_eq_some_iff.mp h

theorem handle?_of_get? {handle : Handle} (he : s.get? x = some e)
    (hhandle : e.handle? x = some handle) : s.handle? x = some handle := by
  rw [handle?, he, Option.bind_some, hhandle]

theorem handle?_of_parseRef (h : s.Settled) (href : s.parseRef rid = .ok (.hard ref)) :
    s.handle? rid = some ref.handle := by
  unfold parseRef at href
  split at href
  · cases href
  · rename_i e he
    split at href
    · rename_i kind r hkind hr
      cases href
      have hl : e.loaded = true := h rid e he (by rw [hr]; rfl)
      exact handle?_of_get? he (Entry.handle?_of_filled hkind hr hl)
    · cases href

theorem parseRef_of_handle? (h : s.handle? rid = some ref.handle) :
    s.parseRef rid = .ok (.hard ref) := by
  obtain ⟨e, he, hhandle⟩ := handle?_eq_some h
  obtain ⟨kind, r, hkind, hr, _, heq⟩ := Entry.handle?_eq_some hhandle
  cases ref
  cases heq
  simp only [parseRef, he, hkind, hr]

theorem Rests.exists_handle (h : s.Rests extra) (hx : s.isLoaded x = true) :
    ∃ handle, s.handle? x = some handle := by
  obtain ⟨e, he, hl⟩ := isLoaded_iff.mp hx
  obtain ⟨r, hr⟩ := Option.isSome_iff_exists.mp ((h.sound.entry he).filled hl)
  have hkind := (h.sound.entry he).kind
  rw [hr, Option.map_some] at hkind
  exact ⟨_, handle?_of_get? he (Entry.handle?_of_filled hkind hr hl)⟩

def Truthful (s : Store) : Prop := ∀ x r, s.loaded? x = some r → ∀ v ∈ r.content.values, s.Reads v

/-- Loaded resources keep their replicas, and references that led to what is cached still do. -/
structure Advances (s s' : Store) : Prop where
  held : ∀ {x handle}, s.handle? x = some handle → s'.handle? x = some handle
  truthful : s.Truthful → s'.Truthful

def Fades (s s' : Store) : Prop := ∀ x e', s'.get? x = some e' → e'.replica = none ∨
  ∃ e, s.get? x = some e ∧ e'.kind = e.kind ∧ e'.replica = e.replica ∧ e'.loaded = e.loaded

/-- Resources are loaded and edited first, and then some are evicted. -/
def Continues (s s' : Store) : Prop := ∃ m, s.Advances m ∧ m.Fades s'

namespace Advances

theorem refl (s : Store) : s.Advances s := ⟨id, id⟩

theorem trans (h : s.Advances s') (h' : s'.Advances s'') : s.Advances s'' :=
  ⟨fun hhandle => h'.held (h.held hhandle), fun hs => h'.truthful (h.truthful hs)⟩

end Advances

theorem Grown.advances {listed : String → Prop} (h : s.Grown listed s') (hs : s.Settled) :
    s.Advances s' := by
  have hheld {x : String} {handle : Handle} (hhandle : s.handle? x = some handle) :
      s'.handle? x = some handle := by
    obtain ⟨e, he, hfilled⟩ := handle?_eq_some hhandle
    obtain ⟨_, _, _, _, hl, _⟩ := Entry.handle?_eq_some hfilled
    obtain ⟨e', he', _, _, _, _, _, _, hsame⟩ := h.kept he
    rw [hsame (.inl hl)] at he'
    exact handle?_of_get? he' hfilled
  refine ⟨hheld, fun htruthful x r hr v hv ref href => ?_⟩
  obtain ⟨e', he', hl, hreplica⟩ := loaded?_eq_some hr
  cases he : s.get? x with
  | none =>
    rw [(h.fresh he he').2.1] at hl
    cases hl
  | some e =>
    obtain ⟨e₁, he₁, _, _, _, _, hloaded, _, hsame⟩ := h.kept he
    cases he'.symm.trans he₁
    rw [hsame (.inl (hloaded ▸ hl))] at hl hreplica
    have hreads := htruthful x r (loaded?_of_get? he hl hreplica) v hv ref href
    exact parseRef_of_handle? (hheld (handle?_of_parseRef hs hreads))

theorem Agrees.handle? (h : s.Agrees s') (x : String) : s'.handle? x = s.handle? x := by
  unfold Store.handle?
  cases he : s.get? x with
  | none =>
    have hcore := h.core x
    rw [he, Option.map_none, Option.map_eq_none_iff] at hcore
    rw [hcore]
  | some e =>
    obtain ⟨e', he', hkind, hreplica, hloaded, _⟩ := h.get?' he
    rw [he', Option.bind_some, Option.bind_some]
    simp only [Entry.handle?, hkind, hreplica, hloaded]

theorem Agrees.parseRef (h : s.Agrees s') : s'.parseRef = s.parseRef := by
  funext x
  unfold Store.parseRef
  cases he : s.get? x with
  | none =>
    have hcore := h.core x
    rw [he, Option.map_none, Option.map_eq_none_iff] at hcore
    rw [hcore]
  | some e =>
    obtain ⟨e', he', hkind, hreplica, _⟩ := h.get?' he
    simp only [he', hkind, hreplica]

theorem Agrees.advances (h : s.Agrees s') : s.Advances s' := by
  refine ⟨fun hhandle => (h.handle? _).trans hhandle, fun htruthful x r hr v hv => ?_⟩
  rw [h.loaded?] at hr
  exact (reads_congr h.parseRef).mpr (htruthful x r hr v hv)

theorem advances_put (he : s.get? rid = some e) (hcore : e'.core = e.core) :
    s.Advances (s.put rid e') := (agrees_put he hcore).advances

namespace Fades

theorem refl (s : Store) : s.Fades s := fun _ _ he => .inr ⟨_, he, rfl, rfl, rfl⟩

theorem trans (h : s.Fades s') (h' : s'.Fades s'') : s.Fades s'' := by
  intro x e'' he''
  rcases h' x e'' he'' with hnone | ⟨e', he', hkind', hreplica', hloaded'⟩
  · exact .inl hnone
  · rcases h x e' he' with hnone | ⟨e, he, hkind, hreplica, hloaded⟩
    · exact .inl (hreplica'.trans hnone)
    · exact .inr ⟨e, he, hkind'.trans hkind, hreplica'.trans hreplica, hloaded'.trans hloaded⟩

theorem of_get? (h : ∀ x e', s'.get? x = some e' → s.get? x = some e') : s.Fades s' :=
  fun x e' he' => .inr ⟨e', h x e' he', rfl, rfl, rfl⟩

theorem handle? (h : s.Fades s') {handle : Handle} (hhandle : s'.handle? x = some handle) :
    s.handle? x = some handle := by
  obtain ⟨e', he', hfilled⟩ := handle?_eq_some hhandle
  obtain ⟨kind, r, hkind', hr', hl', heq⟩ := Entry.handle?_eq_some hfilled
  rcases h x e' he' with hnone | ⟨e, he, hkind, hreplica, hloaded⟩
  · rw [hnone] at hr'
    cases hr'
  · rw [heq]
    exact handle?_of_get? he (Entry.handle?_of_filled (hkind.symm.trans hkind')
      (hreplica.symm.trans hr') (hloaded.symm.trans hl'))

theorem loaded? (h : s.Fades s') (hr : s'.loaded? x = some r) : s.loaded? x = some r := by
  obtain ⟨e', he', hl', hr'⟩ := loaded?_eq_some hr
  rcases h x e' he' with hnone | ⟨e, he, _, hreplica, hloaded⟩
  · rw [hnone] at hr'
    cases hr'
  · exact loaded?_of_get? he (hloaded.symm.trans hl') (hreplica.symm.trans hr')

theorem truthful (h : s.Fades s') (hrest : s'.Rests extra) (hs : s.Truthful) : s'.Truthful := by
  intro x r hr v hv ref href
  subst href
  have hreads := hs x r (h.loaded? hr) _ hv ref rfl
  obtain ⟨e', he', hl', hreplica'⟩ := loaded?_eq_some hr
  have hlink : ref.rid ∈ e'.links := by
    rw [Entry.links_of_loaded hl', Entry.hardRefs_of_replica hreplica']
    exact List.mem_filterMap.mpr ⟨_, hv, rfl⟩
  obtain ⟨ref', href'⟩ := parseRef_of_hasReplica hrest.sound.sturdy (hrest.sound.closed he' hlink)
  have hhandle := h.handle? (handle?_of_parseRef hrest.settled href')
  have hrid : ref'.rid = ref.rid := by
    have hnamed := hardRef?_of_parseRef href'
    exact Option.some.inj hnamed
  have hsame := parseRef_of_handle? hhandle
  rw [hreads] at hsame
  cases hsame
  exact href'

/-- Evictions and the recounting of references leave replicas as they are. -/
theorem purge : Purge Fades where
  refl := refl
  trans := trans
  recount s rid count x e' he' := by
    rw [get?_modify] at he'
    split at he'
    · obtain ⟨e, he, rfl⟩ := Option.map_eq_some_iff.mp he'
      exact .inr ⟨e, he, rfl, rfl, rfl⟩
    · exact .inr ⟨e', he', rfl, rfl, rfl⟩
  evict {s gone} _ := of_get? fun x e' he' => by
    rw [get?_foldl_remove] at he'
    split at he'
    · cases he'
    · exact he'

theorem obtain (s : Store) (rid : String) : s.Fades (s.obtain rid).2 := by
  cases hnone : s.get? rid with
  | some e =>
    rw [obtain_of_get? hnone]
    exact refl s
  | none =>
    rw [obtain_of_none hnone]
    intro x e' he'
    rw [get?_put] at he'
    split at he'
    · cases he'
      exact .inl rfl
    · exact .inr ⟨e', he', rfl, rfl, rfl⟩

theorem remove (s : Store) (rid : String) : s.Fades (s.remove rid) :=
  of_get? fun _ _ he' => (get?_of_remove he').1

end Fades

theorem Agrees.fades (h : s.Agrees s') : s.Fades s' := by
  intro x e' he'
  obtain ⟨e, he, hkind, hreplica, hloaded, _⟩ := h.get? he'
  exact .inr ⟨e, he, hkind, hreplica, hloaded⟩

theorem Pruned.fades (h : s.Pruned s') : s.Fades s' := by
  intro x e' he'
  obtain ⟨e, n, he, rfl⟩ := h.kept he'
  exact .inr ⟨e, he, rfl, rfl, rfl⟩

theorem fades_put (he : s.get? rid = some e) (hcore : e'.core = e.core) : s.Fades (s.put rid e') :=
  (agrees_put he hcore).fades

theorem fades_modify {f : Entry → Entry} (hcore : ∀ e, (f e).core = e.core) :
    s.Fades (s.modify rid f) := (agrees_modify hcore).fades

namespace Continues

theorem of_fades (h : s.Fades s') : s.Continues s' := ⟨s, .refl s, h⟩

theorem refl (s : Store) : s.Continues s := of_fades (.refl s)

theorem fades (h : s.Continues s') (h' : s'.Fades s'') : s.Continues s'' := by
  obtain ⟨m, hadvances, hfades⟩ := h
  exact ⟨m, hadvances, hfades.trans h'⟩

/-- What is loaded before and after has not changed its replica in between. -/
theorem handle_eq (h : s.Continues s') {handle handle' : Handle} (hs : s.handle? x = some handle)
    (hs' : s'.handle? x = some handle') : handle' = handle := by
  obtain ⟨m, hadvances, hfades⟩ := h
  have hsame := (hfades.handle? hs').symm.trans (hadvances.held hs)
  exact Option.some.inj hsame

theorem truthful (h : s.Continues s') (hrest : s'.Rests extra) (hs : s.Truthful) :
    s'.Truthful := by
  obtain ⟨m, hadvances, hfades⟩ := h
  exact hfades.truthful hrest (hadvances.truthful hs)

end Continues

end Store

theorem Work.Alters.advances {touched : String → Prop} {w w' : Work} (h : w.Alters touched w') :
    w.store.Advances w'.store := by
  refine ⟨fun {x handle} hhandle => ?_, fun htruthful x r' hr' v hv => ?_⟩
  · obtain ⟨e, he, hfilled⟩ := Store.handle?_eq_some hhandle
    obtain ⟨kind, r, hkind, hr, hl, rfl⟩ := Entry.handle?_eq_some hfilled
    obtain ⟨e', he', hedited, _⟩ := h.kept he
    obtain ⟨r', hr', hid, _⟩ := hedited.replica hr
    rw [← hid]
    exact Store.handle?_of_get? he' (Entry.handle?_of_filled (hedited.kind.trans hkind) hr'
      (hedited.loaded hl))
  · rw [Store.reads_congr h.parseRef]
    rcases h.recalls hr' hv with ⟨r, hr, hold⟩ | hreads
    · exact htruthful x r hr v hold
    · exact hreads

namespace Op

variable {w : Work} {registry : Registry} {batch : Batch} {extra : String → Nat}

theorem addResources_advances (hregistry : registry.Quiet)
    (hbare : registry.Bare ∨ batch.Disjoint) (h : w.store.Rests extra) :
    w.store.Advances ((addResources registry batch).left w).store := by
  rcases addResources_refused registry batch w with ⟨err, hrun, _⟩ | ⟨hkinds, hvalid⟩
  · rw [left_of_error hrun]
    exact .refl _
  · obtain ⟨s₁, w₂, w₃, _, hgrown, hswells, _, _, hevolves, hrun⟩ :=
      addResources_stages hregistry hbare h.sound.sturdy hkinds hvalid
    rw [left_of_ok hrun]
    exact (hgrown.advances h.settled).trans (hswells.toAlters.advances.trans
      hevolves.toAlters.advances)

end Op

theorem Store.Advances.course {registry : Registry} (hregistry : registry.Quiet) :
    Store.Course registry Store.Advances Store.Fades where
  toPurge := Store.Fades.purge
  begins := .refl
  goes := .trans
  add hbare hrest := Op.addResources_advances hregistry hbare hrest
  edit h := h.advances
  tell h _ := h.advances
  claim _ he _ := Store.advances_put he rfl
  drop he _ := Store.fades_put he rfl

namespace Cache

variable {c c' : Cache} {rid name : String} {batch : Batch} {data : Option Json}
  {extra : String → Nat} {root : String → Prop}

theorem target?_of_get? {ref : Ref} (h : c.get? ref.rid = some ref.handle) :
    ∃ target, c.store.loaded? ref.rid = some target ∧ target.id = ref.replica ∧
      ∀ held : Holdings, held.target? c ref = some ⟨ref.rid, ref.kind, target.content⟩ := by
  obtain ⟨e, he, hfilled⟩ := Store.handle?_eq_some h
  obtain ⟨kind, r, hkind, hr, hl, heq⟩ := Entry.handle?_eq_some hfilled
  have hid : r.id = ref.handle.replica := by rw [heq]
  have hcached : (c.store.get? ref.handle.rid).bind (·.replica) = some r := by
    change (c.store.get? ref.rid).bind _ = _
    rw [he, Option.bind_some, hr]
  have hview : c.view? ref.handle = some ⟨ref.rid, ref.kind, r.content⟩ := by
    simp only [view?, Store.replica?, hcached, hid, if_true, Option.map_some]
    rfl
  refine ⟨r, Store.loaded?_of_get? he hl hr, hid, fun held => ?_⟩
  have halive : held.isAlive c ref.handle = true := by
    simp only [Holdings.isAlive, holds, hcached, hid, beq_self_eq_true, Bool.true_or]
  rw [Holdings.target?, if_pos halive, hview]

theorem merge_continues (h : c.Kept extra root) (hdisjoint : batch.Disjoint) (rid : String)
    (subscriptions : Nat) : c.store.Continues (c.merge batch rid subscriptions).2.store :=
  (Store.Advances.course h.registry).merge h (.inr hdisjoint) rid subscriptions

theorem mergeReply_continues {reply : Outcome Json} (h : c.Kept extra root)
    (hdisjoint : RepliesDisjoint reply) (rid : String) (subscriptions : Nat) :
    c.store.Continues (c.mergeReply rid subscriptions reply).2.store :=
  (Store.Advances.course h.registry).mergeReply h (.inr hdisjoint) rid subscriptions

theorem handleEvent_continues (h : c.Kept extra root) (hdisjoint : EmbedsDisjoint data)
    (rid name : String) : c.store.Continues (c.handleEvent rid name data).2.store :=
  (Store.Advances.course h.registry).handleEvent h (.inr hdisjoint) rid name

theorem closeFetch_fades (s : Store) (rid : String) (result : Outcome Handle) :
    s.Fades (closeFetch s rid result) := by
  unfold closeFetch
  cases he : s.get? rid with
  | none => exact .refl s
  | some e =>
    have hput : s.Fades (s.put rid { e with subscribing := none }) := Store.fades_put he rfl
    cases result with
    | ok handle => exact hput
    | error fault =>
      dsimp only
      split
      · exact hput.trans ((Store.agrees_settle _ _ _).fades.trans (.remove _ rid))
      · exact hput

theorem fetched_continues {reply : Outcome Json} (h : c.Kept extra root)
    (hdisjoint : RepliesDisjoint reply) (rid : String) (shared : Ticket) :
    c.store.Continues (c.fetched rid shared reply).2.store :=
  ((mergeReply_continues h hdisjoint rid 1).fades (closeFetch_fades _ rid _)).fades
    (Store.agrees_settle _ shared _).fades

theorem resubscribed_continues {reply : Outcome Json} (h : c.Kept extra root)
    (hdisjoint : RepliesDisjoint reply) (rid : String) :
    c.store.Continues (c.resubscribed rid reply).store := by
  have hmerged := mergeReply_continues h hdisjoint rid 0
  unfold resubscribed
  split
  · rename_i handle c' hreply
    rw [hreply] at hmerged
    exact hmerged
  · rename_i reason c' hreply
    rw [hreply] at hmerged
    have hdropped : c'.store.Fades (c'.store.modify rid Entry.dropped) :=
      Store.fades_modify fun _ => rfl
    exact hmerged.fades (hdropped.trans (Store.Fades.purge.dropSubscription c' rid reason))

theorem subscribe_fades (c : Cache) (rid : String) :
    c.store.Fades (c.subscribe rid).2.store := by
  obtain ⟨e, s, hobtain, hget, _, hcases⟩ := c.subscribe_cases rid
  have hobtained := Store.Fades.obtain c.store rid
  rw [hobtain] at hobtained
  rcases hcases with ⟨_, heq⟩ | ⟨_, shared, _, heq⟩ | ⟨_, _, heq⟩
  · rw [heq]
    exact hobtained.trans (Store.fades_put hget rfl)
  · rw [heq]
    exact hobtained
  · rw [heq]
    have hissued : s.Fades s.issued := .of_get? fun _ _ => id
    have hget' : s.issued.get? rid = some e := hget
    exact hobtained.trans (hissued.trans (Store.fades_put hget' rfl))

theorem join_fades (c : Cache) (rid : String) (outcome : Outcome Unit) :
    c.store.Fades (c.join rid outcome).2.store := by
  rcases c.join_cases rid outcome with ⟨_, _, heq⟩ | ⟨_, _, heq⟩ | ⟨e, _, he, heq⟩
  · rw [heq]
    exact .refl _
  · rw [heq]
    exact .refl _
  · rw [heq]
    exact Store.fades_put he rfl

theorem leave_fades (c : Cache) (rid : String) : c.store.Fades (c.leave rid).2.store := by
  rcases Store.Fades.purge.leave c rid with ⟨_, heq⟩ | ⟨e, he, _, hleft⟩
  · rw [heq]
    exact .refl _
  · have hput : c.store.Fades (c.store.put rid e.left) := Store.fades_put he rfl
    exact hput.trans hleft

theorem unsubscribe_fades (c : Cache) (rid : String) :
    c.store.Fades (c.unsubscribe rid).2.store := by
  rcases c.unsubscribe_cases rid with ⟨_, heq⟩ | ⟨e, he, _, hcases⟩
  · rw [heq]
    exact .refl _
  · have hput : c.store.Fades (c.store.put rid e.unsubscribed) := Store.fades_put he rfl
    rcases hcases with ⟨_, heq⟩ | ⟨_, _, heq⟩ | ⟨_, _, left, hleave, heq⟩
    · rw [heq]
      exact hput
    · rw [heq]
      exact hput
    · rw [heq, ← hleave]
      exact hput.trans (leave_fades _ rid)

theorem released_fades (c : Cache) (rid : String) (reply : Outcome Unit) :
    c.store.Fades (c.released rid reply).2.store := by
  cases reply with
  | ok _ => exact leave_fades c rid
  | error fault => exact Store.fades_modify fun _ => rfl

end Cache

namespace World

variable {registry : Registry} {w w' : World} {action : Action} {err : Option CacheError}
  {x : String}

/-- Whatever comes next loads and edits first, and evicts last. -/
theorem continues_perform (h : w.Tidy) (hlegal : action.Legal)
    (hstep : w.perform action = some (err, w')) : w.cache.store.Continues w'.cache.store := by
  cases acts_of_perform hstep with
  | add batch rid => exact Cache.merge_continues h hlegal rid 1
  | resubscribe batch rid => exact Cache.merge_continues h hlegal rid 0
  | event rid name data => exact Cache.handleEvent_continues h hlegal rid name
  | fetched _ _ => exact Cache.fetched_continues h hlegal _ _
  | resubscribed _ _ => exact Cache.resubscribed_continues h hlegal _
  | setAllStale => exact .of_fades w.cache.agrees_setAllStale.fades
  | subscribe rid => exact .of_fades (w.cache.subscribe_fades rid)
  | join _ _ _ => exact .of_fades (w.cache.join_fades _ _)
  | refuse _ _ _ => exact .of_fades (w.cache.join_fades _ _)
  | ask _ => exact .of_fades (w.cache.unsubscribe_fades _)
  | unsubscribe _ => exact .of_fades (w.cache.unsubscribe_fades _)
  | released reply _ => exact .of_fades (w.cache.released_fades _ reply)
  | loaded _ _ => exact .refl _
  | subscribeStale => exact .refl _

theorem truthful_of_run (hregistry : registry.Quiet) (h : Run registry w) :
    w.cache.store.Truthful := by
  induction h with
  | start =>
    intro x r hr
    cases hr
  | step hrun hlegal hstep ih =>
    have htidy := tidy_of_run hregistry hrun
    exact (continues_perform htidy hlegal hstep).truthful
      (tidy_perform htidy hlegal hstep).1.rest ih

theorem ticketed_of_run (h : Run registry w) : w.Ticketed := by
  induction h with
  | start => exact ticketed_start registry
  | step _ _ hstep ih => exact ih.acts (acts_of_perform hstep)

/-- What is loaded by a step gets a replica that there has never been before. -/
theorem number_of_loaded (h : w.Tidy) (hnew : w.cache.store.isLoaded x = false)
    (hstep : w.perform action = some (err, w')) {handle : Handle}
    (hhandle : w'.cache.get? x = some handle) : w.cache.store.nextReplica ≤ handle.replica := by
  obtain ⟨e', he', hfilled⟩ := Store.handle?_eq_some hhandle
  obtain ⟨kind, r', _, hr', _, rfl⟩ := Entry.handle?_eq_some hfilled
  obtain ⟨e, hancestor, hgrows, _⟩ := (acts_of_perform hstep).descends.entry he'
  rcases hgrows.replica hr' with ⟨r, hr, _⟩ | hnumber
  · rcases hancestor with he | ⟨pending, _, rfl⟩
    · have hl := h.rest.settled x e he (by rw [hr]; rfl)
      rw [Store.isLoaded_iff.mpr ⟨e, he, hl⟩] at hnew
      cases hnew
    · cases hr
  · exact hnumber

/-- After any run every cached replica is loaded, of the kind that is recorded for it, and has a
number that has been given out. Whatever it refers to is loaded too, and the reference leads to the
very replica that is cached for its target. In every step what stays loaded keeps its replica and
its kind, and what is loaded anew gets a replica with a new number. The merge of a reply is a step
of its own as well, so all this holds in between the merge and what follows it. -/
theorem references_resolve (hregistry : registry.Quiet) (h : Run registry w) :
    (∀ x e r, w.cache.store.get? x = some e → e.replica = some r →
      e.loaded = true ∧ e.kind = some r.content.kind ∧ r.id < w.cache.store.nextReplica ∧
      ∀ ref, .hard ref ∈ r.content.values → w.cache.get? ref.rid = some ref.handle ∧
        ∃ target, w.cache.store.loaded? ref.rid = some target ∧ target.id = ref.replica ∧
          ∀ held : Holdings,
            held.target? w.cache ref = some ⟨ref.rid, ref.kind, target.content⟩) ∧
    ∀ action err w', action.Legal → w.perform action = some (err, w') →
      (∀ x, w.cache.store.isLoaded x = true → w'.cache.store.isLoaded x = true →
        ∃ handle, w.cache.get? x = some handle ∧ w'.cache.get? x = some handle) ∧
      ∀ x handle, w'.cache.get? x = some handle → w.cache.store.isLoaded x = false →
        w.cache.store.nextReplica ≤ handle.replica := by
  have htidy := tidy_of_run hregistry h
  refine ⟨fun x e r he hr => ?_, fun action err w' hlegal hstep => ⟨fun x hx hx' => ?_, ?_⟩⟩
  · have hl := htidy.rest.settled x e he (by rw [hr]; rfl)
    have hkind := (htidy.rest.sound.entry he).kind
    rw [hr, Option.map_some] at hkind
    refine ⟨hl, hkind, (ticketed_of_run h).numbered.replica he hr, fun ref hmem => ?_⟩
    have hreads := truthful_of_run hregistry h x r (Store.loaded?_of_get? he hl hr) _ hmem ref rfl
    have hhandle := Store.handle?_of_parseRef htidy.rest.settled hreads
    obtain ⟨target, htarget, hid, hview⟩ := Cache.target?_of_get? hhandle
    exact ⟨hhandle, target, htarget, hid, hview⟩
  · obtain ⟨handle, hhandle⟩ := htidy.rest.exists_handle hx
    obtain ⟨handle', hhandle'⟩ := (tidy_perform htidy hlegal hstep).1.rest.exists_handle hx'
    have hsame := (continues_perform htidy hlegal hstep).handle_eq hhandle hhandle'
    exact ⟨handle, hhandle, hsame ▸ hhandle'⟩
  · exact fun x handle hhandle hnew => number_of_loaded htidy hnew hstep hhandle

/-- Two models that refer to each other are found by their references, and the one that has been
left is the same as long as it is kept. -/
theorem references_resolve_ring :
    (leavingWorld.cache.store.loaded? "a").map (·.content.values) =
      some [.hard ⟨"m", .model, 0⟩, .hard ⟨"m", .model, 0⟩] ∧
    (leavingWorld.cache.store.loaded? "m").map (·.content.values) =
      some [.hard ⟨"a", .model, 1⟩] ∧
    leavingWorld.cache.get? "m" = some ⟨"m", .model, 0⟩ ∧
    leavingWorld.cache.get? "a" = some ⟨"a", .model, 1⟩ ∧
    leftWorld.cache.get? "m" = some ⟨"m", .model, 0⟩ := by
  obtain ⟨hrefs, hsteps⟩ := references_resolve Registry.quiet_empty run_leavingWorld
  have hfound (x : String) (ref : Ref) (values : List Value)
      (hvalues : (leavingWorld.cache.store.loaded? x).map (·.content.values) = some values)
      (hmem : .hard ref ∈ values) : leavingWorld.cache.get? ref.rid = some ref.handle := by
    obtain ⟨r, hr, rfl⟩ := Option.map_eq_some_iff.mp hvalues
    obtain ⟨e, he, _, hreplica⟩ := Store.loaded?_eq_some hr
    obtain ⟨_, _, _, hresolve⟩ := hrefs x e r he hreplica
    exact (hresolve ref hmem).1
  have hforth : (leavingWorld.cache.store.loaded? "a").map (·.content.values) =
      some [.hard ⟨"m", .model, 0⟩, .hard ⟨"m", .model, 0⟩] := by rfl
  have hback : (leavingWorld.cache.store.loaded? "m").map (·.content.values) =
      some [.hard ⟨"a", .model, 1⟩] := by rfl
  have hleft := hfound "a" ⟨"m", .model, 0⟩ _ hforth List.mem_cons_self
  have hstep : leavingWorld.perform (.released "m" (.ok ())) = some (none, leftWorld) := rfl
  obtain ⟨handle, hbefore, hafter⟩ :=
    (hsteps (.released "m" (.ok ())) none _ trivial hstep).1 "m" (by rfl) loaded_leftWorld.2
  cases hleft.symm.trans hbefore
  exact ⟨hforth, hback, hleft, hfound "m" ⟨"a", .model, 1⟩ _ hback List.mem_cons_self, hafter⟩

end World

end LiveResource
