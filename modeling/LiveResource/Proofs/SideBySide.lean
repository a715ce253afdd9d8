import LiveResource.Proofs.Mirroring
import LiveResource.Proofs.Refusal
import LiveResource.Proofs.Twins

set_option autoImplicit false

/-!
# Caches side by side

Two caches that differ in their hooks only are led through the same operations. In one of them the
hooks let everything pass; in the other one they may fail or suppress what they like. Every
operation has the same outcome in both, and leaves caches that differ in their hooks only. What the
two have sent differs in the answers of the hooks, and in nothing else.
-/

namespace LiveResource

namespace Notice

def event? : Notice → Option ResourceEvent
  | .resource event => if event.isEnd then none else some event
  | _ => none

def failure? : Notice → Option CacheError
  | .cacheError (.handler rid fault) => some (.handler rid fault)
  | _ => none

def isOther (notice : Notice) : Bool := notice.event?.isNone && notice.failure?.isNone

end Notice

/-- What the hooks have answered is sent, in the order of the calls: their events and errors. -/
structure Relays (registry : Registry) (calls : List HookCall) (news : List Notice) : Prop where
  events : news.filterMap Notice.event? = calls.flatMap (·.passed registry)
  failures : news.filterMap Notice.failure? = calls.flatMap (·.failed registry)

namespace Output

variable {registry : Registry} {calls : List HookCall} {out : Output}

def notices (out : Output) : List Notice :=
  out.events.map Notice.resource ++ out.errors.map Notice.cacheError

theorem Tells.handler (h : out.Tells registry calls) {err : CacheError} (herr : err ∈ out.errors) :
    ∃ rid fault, err = .handler rid fault := by
  rw [h.errors] at herr
  obtain ⟨call, _, hfailed⟩ := List.mem_flatMap.mp herr
  unfold HookCall.failed at hfailed
  split at hfailed
  · cases hfailed
  · exact ⟨_, _, List.mem_singleton.mp hfailed⟩

theorem Tells.relays (h : out.Tells registry calls) : Relays registry calls out.notices := by
  have hevents (events : List ResourceEvent) :
      (events.map Notice.resource).filterMap Notice.event? = events.filter (!·.isEnd) := by
    rw [List.filterMap_map, ← List.filterMap_eq_filter]
    refine congrArg (fun f => List.filterMap f events) (funext fun event => ?_)
    cases hend : event.isEnd <;> simp [Notice.event?, Option.guard, hend]
  have hnone (errors : List CacheError) :
      (errors.map Notice.cacheError).filterMap Notice.event? = [] := by
    rw [List.filterMap_map]
    exact List.filterMap_eq_nil_iff.mpr fun _ _ => rfl
  have hnone' (events : List ResourceEvent) :
      (events.map Notice.resource).filterMap Notice.failure? = [] := by
    rw [List.filterMap_map]
    exact List.filterMap_eq_nil_iff.mpr fun _ _ => rfl
  have herrors : (out.errors.map Notice.cacheError).filterMap Notice.failure? = out.errors := by
    rw [List.filterMap_map]
    refine Eq.trans (List.filterMap_congr fun err herr => ?_) List.filterMap_some
    obtain ⟨rid, fault, rfl⟩ := h.handler herr
    rfl
  refine ⟨?_, ?_⟩
  · rw [notices, List.filterMap_append, hevents, hnone, List.append_nil, h.events]
  · rw [notices, List.filterMap_append, hnone', herrors, List.nil_append, h.errors]

/-- Apart from what hooks have answered, the ends of subscriptions are sent. -/
theorem Tells.others (h : out.Tells registry calls) : out.notices.filter (·.isOther) =
    (out.events.filter (·.isEnd)).map Notice.resource := by
  have herrors : (out.errors.map Notice.cacheError).filter (·.isOther) = [] := by
    refine List.filter_eq_nil_iff.mpr fun notice hmem => ?_
    obtain ⟨err, herr, rfl⟩ := List.mem_map.mp hmem
    obtain ⟨rid, fault, rfl⟩ := h.handler herr
    exact Bool.false_ne_true
  rw [notices, List.filter_append, herrors, List.append_nil, List.filter_map]
  refine congrArg (fun p => (List.filter p out.events).map Notice.resource) (funext fun event => ?_)
  cases hend : event.isEnd <;> simp [Notice.isOther, Notice.event?, Notice.failure?, hend]

end Output

namespace Registry

variable {r r' : Registry}

def passing (r : Registry) : Registry :=
  ⟨.empty, .empty, fun rid => ((r.createModel rid).1, .pass),
    fun rid => ((r.createCollection rid).1, .pass)⟩

theorem createModel_passing (r : Registry) (rid : String) :
    r.passing.createModel rid = ((r.createModel rid).1, .pass) := by
  rw [createModel, passing, PatternMap.get?_empty]
  rfl

theorem createCollection_passing (r : Registry) (rid : String) :
    r.passing.createCollection rid = ((r.createCollection rid).1, .pass) := by
  rw [createCollection, passing, PatternMap.get?_empty]
  rfl

theorem twins_passing (r : Registry) : r.Twins r.passing :=
  ⟨fun rid => by rw [createModel_passing], fun rid => by rw [createCollection_passing]⟩

theorem hooks_passing (r : Registry) (rid : String) (kind : Kind) :
    r.passing.hooks rid kind = .pass := by
  cases kind with
  | model => exact congrArg Prod.snd (r.createModel_passing rid)
  | collection => exact congrArg Prod.snd (r.createCollection_passing rid)
  | error => rfl

theorem passing_passing (r : Registry) : r.passing.Passing := by
  refine ⟨⟨fun rid => ?_, fun rid => ?_⟩, fun rid kind turn question => ?_⟩
  · rw [createModel_passing]
    exact Hooks.quiet_pass
  · rw [createCollection_passing]
    exact Hooks.quiet_pass
  · rw [hooks_passing]
    cases question <;> rfl

theorem Passing.transparent (h : r.Passing) : r.Transparent := by
  have hhooks (rid : String) (kind : Kind) : (r.hooks rid kind).Transparent := by
    have hpass (turn : Nat) (question : Question) := h.pass rid kind turn question
    have hjudged {outcome : Outcome Bool} {event : ResourceEvent}
        (heq : (outcome.map fun passed => if passed then some event else none) =
          .ok (some event)) : outcome = .ok true := by
      cases outcome with
      | error fault => cases heq
      | ok passed => cases passed <;> first | rfl | cases heq
    refine ⟨h.toQuiet.hooks rid kind, fun turn fields change => ?_, fun turn values index value =>
      hjudged (hpass turn (.add values index value)), fun turn values index value =>
      hjudged (hpass turn (.remove values index value)), fun turn fields name data =>
      hjudged (hpass turn (.customModel fields name data)), fun turn values name data =>
      hjudged (hpass turn (.customCollection values name data))⟩
    have hchange := hpass turn (.change fields change)
    rw [Hooks.answer] at hchange
    cases hanswer : ((r.hooks rid kind).change turn fields change).2 with
    | error fault =>
      rw [hanswer] at hchange
      cases hchange
    | ok passed =>
      rw [hanswer] at hchange
      cases passed with
      | none => cases hchange
      | some change' =>
        cases hchange
        rfl
  exact ⟨fun rid => hhooks rid .model, fun rid => hhooks rid .collection⟩

theorem Twins.bare (h : r.Twins r') (hbare : r.Bare) : r'.Bare := fun rid => by
  rw [← h.collection rid]
  exact hbare rid

theorem Twins.symm (h : r.Twins r') : r'.Twins r :=
  ⟨fun rid => (h.model rid).symm, fun rid => (h.collection rid).symm⟩

end Registry

namespace Store

variable {s s' : Store} {r : Registry}

theorem Sturdy.of_plain (h : s'.Sturdy) (hplain : s.plain = s'.plain) (hquiet : r.Quiet)
    (hdressed : s.Dressed r) : s.Sturdy := by
  refine ⟨fun {x e} he => ?_, fun {x e} he => ?_, fun {x e t} he ht => ?_⟩
  all_goals obtain ⟨e', he', hsame⟩ := get?_of_plain hplain he
  · have hreplica : e.replica.map Replica.plain = e'.replica.map Replica.plain :=
      congrArg Entry.replica hsame
    have hloaded : e.loaded = e'.loaded := (congrArg Entry.loaded hsame :)
    have hentry := h.entry he'
    refine ⟨?_, fun hl => ?_, fun q hq => ?_, fun q hq hl => ?_⟩
    · have hkind : e.kind = e'.kind := (congrArg Entry.kind hsame :)
      have hmap := congrArg (Option.map fun q : Replica => q.content.kind) hreplica
      rw [Option.map_map, Option.map_map] at hmap
      rw [hkind, hentry.kind]
      exact hmap.symm
    · have hfilled := congrArg Option.isSome hreplica
      rw [Option.isSome_map, Option.isSome_map, hentry.filled (hloaded ▸ hl)] at hfilled
      exact hfilled
    · have hhooks := hdressed.hooks (x := x) ((replicaOf?_of_get? he).trans hq)
      rw [hhooks]
      exact hquiet.hooks x _
    · rw [hq, Option.map_some] at hreplica
      obtain ⟨q', hq', hcontent⟩ := Option.map_eq_some_iff.mp hreplica.symm
      have hcontents : q.content = q'.content := (congrArg Replica.content hcontent.symm :)
      rw [hcontents]
      exact hentry.clean q' hq' (hloaded ▸ hl)
  · have hindirect : e.indirect = e'.indirect := (congrArg Entry.indirect hsame :)
    have hlinked := congr_plain (·.linked x) (fun s => s.linked_plain x) hplain
    rw [hindirect]
    exact hlinked ▸ h.enough he'
  · have hlinks : e.links = e'.links := by rw [← Entry.links_plain e, hsame, Entry.links_plain]
    have hthere := congr_plain (·.hasReplica t) (fun s => s.hasReplica_plain t) hplain
    exact hthere.trans (h.closed he' (hlinks ▸ ht))

theorem Settled.of_plain (h : s'.Settled) (hplain : s.plain = s'.plain) : s.Settled := by
  intro x e he hreplica
  obtain ⟨e', he', hsame⟩ := get?_of_plain hplain he
  have hmap : e.replica.map Replica.plain = e'.replica.map Replica.plain :=
    congrArg Entry.replica hsame
  have hisSome := congrArg Option.isSome hmap
  rw [Option.isSome_map, Option.isSome_map] at hisSome
  have hloaded : e.loaded = e'.loaded := (congrArg Entry.loaded hsame :)
  exact hloaded.trans (h x e' he' (hisSome ▸ hreplica))

theorem Dressed.transparent (h : s.Dressed r) (htransparent : r.Transparent) : s.Transparent := by
  intro x e q he hq
  rw [h.hooks (x := x) ((replicaOf?_of_get? he).trans hq)]
  cases q.content.kind with
  | model => exact htransparent.model x
  | collection => exact htransparent.collection x
  | error => exact Hooks.transparent_pass

theorem Fit.of_plain (h : s'.Fit) (hplain : s.plain = s'.plain) (htransparent : r.Transparent)
    (hdressed : s.Dressed r) : s.Fit :=
  ⟨h.sturdy.of_plain hplain htransparent.quiet hdressed, h.settled.of_plain hplain,
    hdressed.transparent htransparent⟩

end Store

namespace Store

theorem claim_plain (s : Store) (rid : String) (subscriptions : Nat) :
    (s.plain.claim rid subscriptions).1 = (s.claim rid subscriptions).1 ∧
      (s.claim rid subscriptions).2.plain = (s.plain.claim rid subscriptions).2 := by
  unfold claim
  rw [get?_plain]
  cases s.get? rid with
  | none => exact ⟨rfl, rfl⟩
  | some e =>
    have hhandle : (e.plain.claimed subscriptions).handle? rid =
        (e.claimed subscriptions).handle? rid := Entry.handle?_plain (e.claimed subscriptions) rid
    unfold Entry.claimed at hhandle
    simp only [Option.map_some, Entry.loaded_plain, Entry.fault?_plain]
    split
    · split
      · exact ⟨rfl, rfl⟩
      · simp only [Entry.direct_plain, Entry.loaded_plain] at hhandle ⊢
        rw [hhandle]
        split <;> exact ⟨rfl, plain_put _ _ _⟩
    · exact ⟨rfl, rfl⟩
theorem claim_error {s : Store} {rid : String} {subscriptions : Nat} {err : CacheError}
    (h : (s.claim rid subscriptions).1 = .error err) :
    (∃ x, err = .notFound x) ∨ ∃ fault, err = .resource fault := by
  unfold claim at h
  split at h
  · cases h
    exact .inl ⟨_, rfl⟩
  · split at h
    · split at h
      · cases h
        exact .inr ⟨_, rfl⟩
      · dsimp only at h
        split at h
        · cases h
        · cases h
          exact .inl ⟨_, rfl⟩
    · cases h
      exact .inl ⟨_, rfl⟩

namespace Neutral

theorem claim (rid : String) (subscriptions : Nat) :
    Neutral fun s => (s.claim rid subscriptions).2 := by
  refine ⟨fun s => (s.claim_plain rid subscriptions).2, fun s => ?_, fun s => ?_⟩
  · rcases s.claim_cases rid subscriptions with ⟨err, heq⟩ | ⟨e, he, _, _, heq, _⟩
    · rw [heq]
    · rw [heq]
      exact has_put (replicaOf?_of_get? he).symm
  · rcases s.claim_cases rid subscriptions with ⟨err, heq⟩ | ⟨e, he, _, _, heq, _⟩
    · rw [heq]
    · rw [heq]
      rfl

theorem map {f : Entry → Entry} (hcomm : ∀ e, (f e).plain = f e.plain)
    (hreplica : ∀ e, (f e).replica = e.replica) :
    Neutral fun s => { s with entries := s.entries.map f } := by
  refine ⟨fun s => ?_, fun s => has_congr (funext fun x => ?_) rfl, fun _ => rfl⟩
  · have hmap : (s.entries.map f).map Entry.plain = (s.entries.map Entry.plain).map f := by
      refine Dict.ext_get? fun k => ?_
      rw [Dict.get?_map, Dict.get?_map, Dict.get?_map, Dict.get?_map, Option.map_map,
        Option.map_map]
      exact congrArg (fun g => (s.entries.get? k).map g) (funext hcomm)
    unfold Store.plain
    dsimp only
    rw [hmap]
  · have hget : ({ s with entries := s.entries.map f } : Store).get? x = (s.get? x).map f :=
      Dict.get?_map f s.entries x
    unfold replicaOf?
    rw [hget]
    cases s.get? x with
    | none => rfl
    | some e => exact hreplica e

end Neutral

end Store

namespace Op

variable {r r' : Registry} {start : Store} {calls : List HookCall} {s s' v' : Store}
  {out out' : Output} {rid : String} {α : Type} {a : α}

/-- What succeeds in one of two runs succeeds in the other one, with the same result. -/
theorem Couples.even_ok {op : Op α} (h : Couples (Work.Even r r' start calls)
      (Work.Even r r' start calls) (Work.Even r r' start calls) op op)
    (htwins : Store.Twins r r' start calls s s') (hrun' : op ⟨s', out⟩ = .ok a ⟨v', out'⟩) :
    ∃ v, op ⟨s, out⟩ = .ok a ⟨v, out'⟩ ∧ Store.Twins r r' start calls v v' := by
  have heven : Work.Even r r' start calls ⟨s, out⟩ ⟨s', out⟩ := ⟨htwins, rfl⟩
  rcases h.cases heven with ⟨b, w, w', hrun, hok', hafter⟩ | ⟨err, w, w', _, herr', _⟩
  · cases hrun'.symm.trans hok'
    have hout : w.out = out' := hafter.out
    exact ⟨w.store, by rw [hrun, ← hout], hafter.toTwins⟩
  · cases hrun'.symm.trans herr'

end Op

namespace Cache

/-- Two caches that differ in their hooks and in what has been sent. -/
structure Alike (r r' : Registry) (c c' : Cache) : Prop where
  registry : c.registry = r
  registry' : c'.registry = r'
  plain : c.store.plain = c'.store.plain
  dressed : c.store.Dressed r
  dressed' : c'.store.Dressed r'

/-- What has become of two caches that were alike at the start. Since then the same hook calls have
been made in both, their answers have been sent, and apart from these answers the same. -/
structure Since (r r' : Registry) (c c' : Cache) (calls : List HookCall) (d d' : Cache) :
    Prop extends Store.Twins r r' c.store calls d.store d'.store where
  registry : d.registry = r
  registry' : d'.registry = r'
  sent : ∃ news news', d.channel = c.channel ++ news ∧ d'.channel = c'.channel ++ news' ∧
    Relays r calls news ∧ Relays r' calls news' ∧
      news.filter (·.isOther) = news'.filter (·.isOther)

/-- An operation has the same result for two caches, and does the same to both. -/
structure Both {α : Type} (r r' : Registry) (c c' : Cache) (x x' : α × Cache) : Prop where
  result : x.1 = x'.1
  since : ∃ calls, Since r r' c c' calls x.2 x'.2

variable {r r' : Registry} {c c' d d' : Cache} {calls : List HookCall} {rid : String}
  {err : CacheError}

namespace Alike

theorem twins (h : Alike r r' c c') : Store.Twins r r' c.store [] c.store c'.store :=
  ⟨h.plain, h.dressed.served, h.dressed'.served.of_start h.plain.symm⟩

theorem since (h : Alike r r' c c') : Since r r' c c' [] c c' :=
  ⟨h.twins, h.registry, h.registry', [], [], (List.append_nil _).symm, (List.append_nil _).symm,
    ⟨rfl, rfl⟩, ⟨rfl, rfl⟩, rfl⟩

theorem work (h : Alike r r' c c') :
    Work.Twins r r' c.store [] ⟨c.store, {}⟩ ⟨c'.store, {}⟩ :=
  ⟨h.twins, rfl, rfl, .nothing r, .nothing r'⟩

end Alike

namespace Since

theorem alike (h : Since r r' c c' calls d d') : Alike r r' d d' :=
  ⟨h.registry, h.registry', h.plain, h.served.toDressed, h.served'.toDressed⟩

theorem both {α : Type} {a : α} (h : Since r r' c c' calls d d') :
    Both r r' c c' (a, d) (a, d') := ⟨rfl, calls, h⟩

theorem withStores {s s' : Store} (h : Since r r' c c' calls d d')
    (htwins : Store.Twins r r' c.store calls s s') :
    Since r r' c c' calls { d with store := s } { d' with store := s' } :=
  ⟨htwins, h.registry, h.registry', h.sent⟩

theorem write {f : Store → Store} (h : Since r r' c c' calls d d') (hf : Store.Neutral f) :
    Since r r' c c' calls { d with store := f d.store } { d' with store := f d'.store } :=
  h.withStores (h.toTwins.write hf)

theorem put {f : Entry → Entry} {e e' : Entry} (h : Since r r' c c' calls d d')
    (he : d.store.get? rid = some e) (he' : d'.store.get? rid = some e')
    (hcomm : ∀ e, (f e).plain = f e.plain) (hreplica : ∀ e, (f e).replica = e.replica) :
    Since r r' c c' calls { d with store := d.store.put rid (f e) }
      { d' with store := d'.store.put rid (f e') } := by
  rw [← Store.modify_eq_put he f, ← Store.modify_eq_put he' f]
  exact h.write (.modify hcomm hreplica rid)

theorem send {notice : Notice} (h : Since r r' c c' calls d d')
    (hother : notice.isOther = true) : Since r r' c c' calls (d.send notice) (d'.send notice) := by
  obtain ⟨news, news', hnews, hnews', hrelays, hrelays', hothers⟩ := h.sent
  unfold Notice.isOther at hother
  rw [Bool.and_eq_true, Option.isNone_iff_eq_none, Option.isNone_iff_eq_none] at hother
  have hmore {registry : Registry} {news : List Notice} (hrelays : Relays registry calls news) :
      Relays registry calls (news ++ [notice]) := by
    refine ⟨?_, ?_⟩
    · rw [List.filterMap_append, List.filterMap_cons_none hother.1, List.filterMap_nil,
        List.append_nil, hrelays.events]
    · rw [List.filterMap_append, List.filterMap_cons_none hother.2, List.filterMap_nil,
        List.append_nil, hrelays.failures]
  refine ⟨h.toTwins, h.registry, h.registry', news ++ [notice], news' ++ [notice], ?_, ?_,
    hmore hrelays, hmore hrelays', ?_⟩
  · rw [← List.append_assoc, ← hnews]
    rfl
  · rw [← List.append_assoc, ← hnews']
    rfl
  · rw [List.filter_append, List.filter_append, hothers]

end Since

/-- What two runs have left to be sent is sent, and what is unreachable is evicted. -/
theorem flush_since {w w' : Work} (h : Work.Twins r r' c.store calls w w')
    (hfit : w'.store.Fit) : ∃ e e', (⟨r, w.store, c.channel⟩ : Cache).flush w.out = (.ok (), e) ∧
      (⟨r', w'.store, c'.channel⟩ : Cache).flush w'.out = (.ok (), e') ∧
        Since r r' c c' calls e e' := by
  obtain ⟨v', hrun', _⟩ := Op.collect_remains hfit w'.out.orphans {}
  obtain ⟨v, hrun, htwins⟩ := (Op.even_collect w'.out.orphans).even_ok h.toTwins hrun'
  rw [← h.orphans] at hrun
  refine ⟨⟨r, v, c.channel ++ w.out.events.map Notice.resource ++
      w.out.errors.map Notice.cacheError⟩, ⟨r', v', c'.channel ++ w'.out.events.map Notice.resource ++
      w'.out.errors.map Notice.cacheError⟩, by simp only [flush, run, hrun],
    by simp only [flush, run, hrun'], htwins, rfl, rfl, w.out.notices, w'.out.notices,
    List.append_assoc _ _ _, List.append_assoc _ _ _, h.tells.relays, h.tells'.relays, ?_⟩
  rw [h.tells.others, h.tells'.others, h.ends]

section

variable {batch : Batch} {name : String} {data : Option Json} {reply : Outcome Json}
  (hquiet : r.Quiet) (htransparent : r'.Transparent) (htwins : r.Twins r')

include hquiet htransparent htwins

theorem merge_both (h : Alike r r' c c') (hfit : c'.store.Fit)
    (hbare : r'.Bare ∨ batch.Disjoint) (rid : String) (subscriptions : Nat) :
    Both r r' c c' (c.merge batch rid subscriptions) (c'.merge batch rid subscriptions) ∧
      ∀ err, (c.merge batch rid subscriptions).1 = .error err →
        (Notice.cacheError err).isOther = true := by
  have hbare' : r.Bare ∨ batch.Disjoint := hbare.imp_left htwins.symm.bare
  have hsturdy := hfit.sturdy.of_plain h.plain hquiet h.dressed
  obtain ⟨registry, store, channel⟩ := c
  obtain ⟨registry', store', channel'⟩ := c'
  obtain rfl : registry = r := h.registry
  obtain rfl : registry' = r' := h.registry'
  rcases (Op.twin_addResources hquiet htransparent.quiet htwins batch).cases h.work with
    ⟨created, w, w', hrun, hrun', calls, hw⟩ | ⟨err, w, w', hrun, hrun', _⟩
  · -- the claim is made before the flush, and whatever it comes to is the outcome
    have htell := hw.toTwins.write (.foldl Store.Neutral.settleLoaded created)
    have hclaimed := htell.write (.claim rid subscriptions)
    have hresult := Store.congr_plain (fun s => (s.claim rid subscriptions).1)
      (fun s => (s.claim_plain rid subscriptions).1) htell.plain
    have hfeeds : Work.Feeds ⟨store', {}⟩ w' := by
      rcases @Op.addResources_feeds ⟨store', {}⟩ registry' batch htransparent hbare hfit with
        ⟨_, herr⟩ | ⟨_, _, hok, hfeeds⟩
      · cases herr.symm.trans hrun'
      · cases hok.symm.trans hrun'
        exact hfeeds
    have hagrees := Store.announces_settleLoaded.agrees_foldl w'.store created
    have hfit' := (hagrees.trans (Store.claim_spec _ rid subscriptions).1).remains.fit hfeeds.fit
    obtain ⟨e, e', hflush, hflush', hsince⟩ := @flush_since _ _ ⟨registry, store, channel⟩
      ⟨registry', store', channel'⟩ _ _ _ ((hw.of_stores hclaimed).orphan created) hfit'
    dsimp only at hresult hflush hflush'
    simp only [merge, run, hrun, hrun', hflush, hflush']
    refine ⟨⟨hresult, calls, hsince⟩, fun err herr => ?_⟩
    rcases Store.claim_error herr with ⟨_, rfl⟩ | ⟨_, rfl⟩ <;> rfl
  · obtain ⟨rfl, hwhy⟩ := Op.of_addResources_error hquiet hbare' hsturdy hrun
    obtain ⟨rfl, _⟩ := Op.of_addResources_error htransparent.quiet hbare hfit.sturdy hrun'
    simp only [merge, run, hrun, hrun']
    refine ⟨h.since.both, fun err' herr => ?_⟩
    cases herr
    rcases hwhy with hkinds | hvalid
    · obtain ⟨_, _, _, rfl⟩ := Store.checkKinds_error hkinds
      rfl
    · rcases Store.checkAll_error hvalid with ⟨_, rfl⟩ | ⟨_, rfl⟩ <;> rfl

theorem mergeReply_both (h : Alike r r' c c') (hfit : c'.store.Fit)
    (hbare : r'.Bare ∨ RepliesDisjoint reply) (rid : String) (subscriptions : Nat) :
    Both r r' c c' (c.mergeReply rid subscriptions reply)
      (c'.mergeReply rid subscriptions reply) := by
  unfold mergeReply
  cases reply with
  | error fault => exact h.since.both
  | ok snapshot =>
    dsimp only
    cases hbatch : Batch.ofJson snapshot with
    | error err => exact ⟨rfl, [], h.since.send rfl⟩
    | ok batch =>
      have hdisjoint := hbare.imp_right fun hdisjoint => hdisjoint snapshot batch rfl hbatch
      obtain ⟨⟨hresult, calls, hsince⟩, hother⟩ :=
        merge_both hquiet htransparent htwins h hfit hdisjoint rid subscriptions
      dsimp only
      generalize c.merge batch rid subscriptions = merged at hresult hsince hother
      generalize c'.merge batch rid subscriptions = merged' at hresult hsince
      obtain ⟨result, d⟩ := merged
      obtain ⟨result', d'⟩ := merged'
      obtain rfl : result = result' := hresult
      cases result with
      | ok handle => exact hsince.both
      | error err => exact ⟨rfl, calls, hsince.send (hother err rfl)⟩

/-- An event comes to the same, save for what is delivered. -/
theorem handleEvent_both (h : Alike r r' c c') (hfit : c'.store.Fit)
    (hbare : r'.Bare ∨ EmbedsDisjoint data) (rid name : String) :
    Both r r' c c'
      (World.told (c.handleEvent rid name data).1, (c.handleEvent rid name data).2)
      (World.told (c'.handleEvent rid name data).1, (c'.handleEvent rid name data).2) := by
  obtain ⟨registry, store, channel⟩ := c
  obtain ⟨registry', store', channel'⟩ := c'
  obtain rfl : registry = r := h.registry
  obtain rfl : registry' = r' := h.registry'
  have hplain : store.plain = store'.plain := h.plain
  have hledger : store.ledger = store'.ledger := (congrArg Store.ledger hplain :)
  unfold handleEvent
  dsimp only
  cases he : store.get? rid with
  | none =>
    rw [Store.get?_none_of_plain hplain he]
    exact h.since.both
  | some e =>
    obtain ⟨e', he', hsame⟩ := Store.get?_of_plain hplain he
    have hpending : e.pending = e'.pending := (congrArg Entry.pending hsame :)
    have hloaded : e.loaded = e'.loaded := (congrArg Entry.loaded hsame :)
    have hkind : e.kind = e'.kind := (congrArg Entry.kind hsame :)
    rw [he']
    dsimp only
    rw [hledger, hpending, hloaded]
    split
    · exact h.since.both
    · rename_i hready
      have hl : e'.loaded = true := by
        simp only [Bool.or_eq_true, Bool.not_eq_true', not_or, Bool.not_eq_false] at hready
        exact hready.2
      -- both runs come out alike, and then what they have left is flushed
      have hflushed {w w' : Work} {calls : List HookCall}
          (hw : Work.Twins registry registry' store calls w w') (hfit' : w'.store.Fit) :=
        @flush_since registry registry' ⟨registry, store, channel⟩ ⟨registry', store', channel'⟩
          calls w w' hw hfit'
      by_cases hname : name = "unsubscribe"
      · obtain ⟨v', hended', hremains⟩ :=
          @Op.endSubscription_remains ⟨store', {}⟩ hfit rid (reasonOf data)
        have hrun' : Op.endSubscription rid (reasonOf data) ⟨store', {}⟩ =
          .ok () ⟨v', { events := [.unsubscribe rid (reasonOf data)] }⟩ := hended'
        obtain ⟨v, hrun, htwin⟩ :=
          (Op.even_endSubscription rid (reasonOf data)).even_ok h.twins hrun'
        have hended : Work.Twins registry registry' store []
            ⟨v, { events := [.unsubscribe rid (reasonOf data)] }⟩
            ⟨v', { events := [.unsubscribe rid (reasonOf data)] }⟩ :=
          ⟨htwin, rfl, rfl, ⟨rfl, rfl⟩, ⟨rfl, rfl⟩⟩
        obtain ⟨d, d', hflush, hflush', hsince⟩ := hflushed hended (hremains.fit hfit)
        simp only [eventOp, if_pos hname, run, hrun, hrun', hflush, hflush']
        exact ⟨rfl, _, hsince⟩
      · have hfeeds := @Op.applyEvent_feeds ⟨store', {}⟩ registry' rid name data e' htransparent
          hbare hfit he' hl
        simp only [eventOp, if_neg hname, hkind]
        rcases (Op.twin_applyEvent hquiet htransparent.quiet htwins rid e'.kind name data).cases
          h.work with ⟨_, w, w', hrun, hrun', calls, hw⟩ | ⟨err, w, w', hrun, hrun', calls, hw⟩
        · rw [Op.left_of_ok hrun'] at hfeeds
          obtain ⟨d, d', hflush, hflush', hsince⟩ := hflushed hw hfeeds.fit
          simp only [run, hrun, hrun', hflush, hflush']
          exact ⟨rfl, _, hsince⟩
        · rw [Op.left_of_error hrun'] at hfeeds
          obtain ⟨d, d', hflush, hflush', hsince⟩ := hflushed hw hfeeds.fit
          simp only [run, hrun, hrun', hflush, hflush']
          exact ⟨rfl, _, hsince⟩

end

theorem setAllStale_both (h : Alike r r' c c') : Both r r' c c' c.setAllStale c'.setAllStale := by
  have hstale := h.since.write (.map
    (f := fun e => if (e.loaded && 0 < e.direct) = true then { e with stale := true } else e)
    (fun e => by
      rw [Entry.loaded_plain, Entry.direct_plain]
      split <;> rfl)
    (fun e => by split <;> rfl))
  refine ⟨?_, [], hstale⟩
  have hcount (s : Store) : (s.plain.entries.filter fun _ e => e.loaded && 0 < e.direct).size =
      (s.entries.filter fun _ e => e.loaded && 0 < e.direct).size := by
    change ((s.entries.map Entry.plain).filter _).size = _
    rw [Dict.filter_map]
    exact List.length_map _
  exact Store.congr_plain
    (fun s => (s.entries.filter fun _ e => e.loaded && decide (0 < e.direct)).size) hcount h.plain

theorem subscribe_both (h : Alike r r' c c') (rid : String) :
    Both r r' c c' (c.subscribe rid) (c'.subscribe rid) := by
  have hobtained := h.since.write (.obtain rid)
  have hget := Store.get?_obtain c.store rid
  have hget' := Store.get?_obtain c'.store rid
  obtain ⟨e', he', hsame⟩ := Store.get?_of_plain hobtained.plain hget
  cases he'.symm.trans hget'
  unfold subscribe
  generalize c.store.obtain rid = obtained at hobtained hget hsame
  generalize c'.store.obtain rid = obtained' at hobtained hget' hsame
  obtain ⟨e, s⟩ := obtained
  obtain ⟨e', s'⟩ := obtained'
  obtain ⟨q, rfl⟩ := Entry.eq_of_plain hsame
  have hledger : s.ledger = s'.ledger := (congrArg Store.ledger hobtained.plain :)
  dsimp only
  split
  · exact ⟨rfl, [], hobtained.put (f := Entry.subscribed) hget hget' (fun _ => rfl) fun _ => rfl⟩
  · cases hmarker : e.subscribing with
    | some shared => exact hobtained.both
    | none =>
      have hissued := hobtained.write (f := Store.issued) ⟨fun _ => rfl, fun _ => rfl, fun _ => rfl⟩
      have hfetching := hissued.put (f := (·.fetching s'.ledger.next)) hget hget' (fun _ => rfl)
        fun _ => rfl
      have hticket : s.ledger.issue.1 = s'.ledger.next := congrArg Ledger.next hledger
      dsimp only
      rw [hticket]
      exact ⟨rfl, [], hfetching⟩

theorem closeFetch_twins {start s s' : Store} (h : Store.Twins r r' start calls s s') (rid : String)
    (result : Outcome Handle) :
    Store.Twins r r' start calls (closeFetch s rid result) (closeFetch s' rid result) := by
  unfold closeFetch
  cases he : s.get? rid with
  | none =>
    rw [Store.get?_none_of_plain h.plain he]
    exact h
  | some e =>
    obtain ⟨e', he', hsame⟩ := Store.get?_of_plain h.plain he
    have hput : Store.Twins r r' start calls (s.put rid { e with subscribing := none })
        (s'.put rid { e' with subscribing := none }) := by
      rw [← Store.modify_eq_put he fun e => { e with subscribing := none },
        ← Store.modify_eq_put he' fun e => { e with subscribing := none }]
      exact h.write (.modify (f := fun e => { e with subscribing := none }) (fun _ => rfl)
        (fun _ => rfl) rid)
    obtain ⟨q, rfl⟩ := Entry.eq_of_plain hsame
    rw [he']
    dsimp only
    split
    · exact hput
    · split
      · exact (hput.write (.settle _ _)).remove rid
      · exact hput

theorem join_both (h : Alike r r' c c') (rid : String) (outcome : Outcome Unit) :
    Both r r' c c' (c.join rid outcome) (c'.join rid outcome) := by
  unfold join
  cases outcome with
  | error fault => exact h.since.both
  | ok _ =>
    dsimp only
    cases he : c.store.get? rid with
    | none =>
      rw [Store.get?_none_of_plain h.plain he]
      exact h.since.both
    | some e =>
      obtain ⟨e', he', hsame⟩ := Store.get?_of_plain h.plain he
      have hput := h.since.put (f := Entry.subscribed) he he' (fun _ => rfl) fun _ => rfl
      obtain ⟨q, rfl⟩ := Entry.eq_of_plain hsame
      rw [he']
      exact ⟨rfl, [], hput⟩

theorem loaded_both (h : Alike r r' c c') (rid : String) (outcome : Outcome Unit) :
    c.loaded rid outcome = c'.loaded rid outcome := by
  have hhandle := Store.congr_plain (·.handle? rid) (fun s => s.handle?_plain rid) h.plain
  unfold loaded
  rw [hhandle]

theorem leave_since (h : Since r r' c c' calls d d') (hfit : d'.store.Fit) (rid : String) :
    (d.leave rid).1 = (d'.leave rid).1 ∧ Since r r' c c' calls (d.leave rid).2 (d'.leave rid).2 := by
  unfold leave
  cases he : d.store.get? rid with
  | none =>
    rw [Store.get?_none_of_plain h.plain he]
    exact ⟨rfl, h⟩
  | some e =>
    obtain ⟨e', he', hsame⟩ := Store.get?_of_plain h.plain he
    have hput := h.put (f := Entry.left) he he' (fun _ => rfl) fun _ => rfl
    have hremains : d'.store.Remains (d'.store.put rid e'.left) := Store.remains_put he' rfl
    obtain ⟨gone, v', hrun', _⟩ := Op.tryDelete_remains (hremains.fit hfit) rid {}
    obtain ⟨v, hrun, htwins⟩ := (Op.even_tryDelete rid).even_ok hput.toTwins hrun'
    obtain ⟨q, rfl⟩ := Entry.eq_of_plain hsame
    unfold Entry.left at hrun hrun'
    rw [he']
    dsimp only at hrun hrun' ⊢
    split
    · simp only [run, hrun, hrun']
      exact ⟨trivial, h.withStores htwins⟩
    · exact ⟨rfl, h⟩

theorem unsubscribe_both (h : Alike r r' c c') (hfit : c'.store.Fit) (rid : String) :
    Both r r' c c' (c.unsubscribe rid) (c'.unsubscribe rid) := by
  unfold unsubscribe
  cases he : c.store.get? rid with
  | none =>
    rw [Store.get?_none_of_plain h.plain he]
    exact h.since.both
  | some e =>
    obtain ⟨e', he', hsame⟩ := Store.get?_of_plain h.plain he
    have hput := h.since.put (f := Entry.unsubscribed) he he' (fun _ => rfl) fun _ => rfl
    have hremains : c'.store.Remains (c'.store.put rid e'.unsubscribed) := Store.remains_put he' rfl
    obtain ⟨hresult, hleft⟩ := leave_since hput (hremains.fit hfit) rid
    obtain ⟨q, rfl⟩ := Entry.eq_of_plain hsame
    unfold Entry.unsubscribed at hput hresult hleft
    rw [he']
    dsimp only at hput hresult hleft ⊢
    split
    · exact h.since.both
    · split
      · exact hput.both
      · split
        · -- nothing is known of the two caches but how they were left
          revert hresult hleft
          generalize leave _ rid = left
          generalize leave _ rid = left'
          intro hresult hleft
          obtain ⟨result, d⟩ := left
          obtain ⟨result', d'⟩ := left'
          obtain rfl : result = result' := hresult
          cases result <;> exact hleft.both
        · exact hput.both

theorem released_both (h : Alike r r' c c') (hfit : c'.store.Fit) (rid : String)
    (reply : Outcome Unit) : Both r r' c c' (c.released rid reply) (c'.released rid reply) := by
  cases reply with
  | ok _ =>
    obtain ⟨hresult, hleft⟩ := leave_since h.since hfit rid
    exact ⟨hresult, [], hleft⟩
  | error fault =>
    exact ⟨rfl, [], h.since.write (.modify (f := Entry.subscribed) (fun _ => rfl) (fun _ => rfl) rid)⟩

theorem dropSubscription_since (h : Since r r' c c' calls d d') (hfit : d'.store.Fit) (rid : String)
    (reason : Fault) :
    Since r r' c c' calls (d.dropSubscription rid reason) (d'.dropSubscription rid reason) := by
  obtain ⟨v', hended', _⟩ := @Op.endSubscription_remains ⟨d'.store, {}⟩ hfit rid reason
  have hrun' : Op.endSubscription rid reason ⟨d'.store, {}⟩ =
    .ok () ⟨v', { events := [.unsubscribe rid reason] }⟩ := hended'
  obtain ⟨v, hrun, htwins⟩ := (Op.even_endSubscription rid reason).even_ok h.toTwins hrun'
  -- nothing is left to be evicted after that
  have hdropped {d : Cache} {v : Store} (hrun : Op.endSubscription rid reason ⟨d.store, {}⟩ =
      .ok () ⟨v, { events := [.unsubscribe rid reason] }⟩) : d.dropSubscription rid reason =
        ({ d with store := v } : Cache).send (.resource (.unsubscribe rid reason)) := by
    simp only [dropSubscription, run, hrun, flush, send, List.map_cons, List.map_nil,
      List.append_nil]
    rfl
  rw [hdropped hrun, hdropped hrun']
  exact (h.withStores htwins).send rfl

section

variable {reply : Outcome Json} (hquiet : r.Quiet) (htransparent : r'.Transparent)
  (htwins : r.Twins r')

include hquiet htransparent htwins

theorem fetched_both (h : Alike r r' c c') (hfit : c'.store.Fit)
    (hbare : r'.Bare ∨ RepliesDisjoint reply) (rid : String) (shared : Ticket) :
    Both r r' c c' (c.fetched rid shared reply) (c'.fetched rid shared reply) := by
  obtain ⟨hresult, calls, hsince⟩ := mergeReply_both hquiet htransparent htwins h hfit hbare rid 1
  have hclosed := closeFetch_twins hsince.toTwins rid (c'.mergeReply rid 1 reply).1
  have hsettled := hclosed.write (.settle shared ((c'.mergeReply rid 1 reply).1.map fun _ => ()))
  refine ⟨hresult, calls, ?_⟩
  change Since r r' c c' calls
    { (c.mergeReply rid 1 reply).2 with
      store := (closeFetch (c.mergeReply rid 1 reply).2.store rid (c.mergeReply rid 1 reply).1).settle
        shared ((c.mergeReply rid 1 reply).1.map fun _ => ()) } _
  rw [hresult]
  exact hsince.withStores hsettled

theorem resubscribed_both (h : Alike r r' c c') (hfit : c'.store.Fit)
    (hbare : r'.Bare ∨ RepliesDisjoint reply) (rid : String) :
    ∃ calls, Since r r' c c' calls (c.resubscribed rid reply) (c'.resubscribed rid reply) := by
  obtain ⟨hresult, calls, hsince⟩ := mergeReply_both hquiet htransparent htwins h hfit hbare rid 0
  have hmerged : c'.Feeds (c'.mergeReply rid 0 reply).2 := by
    refine mergeReply_feeds ?_ ?_ hfit rid 0
    · rw [h.registry']
      exact htransparent
    · rw [h.registry']
      exact hbare
  have hfit' := hmerged.fit
  unfold resubscribed
  generalize c.mergeReply rid 0 reply = merged at hresult hsince
  generalize c'.mergeReply rid 0 reply = merged' at hresult hsince hfit'
  obtain ⟨result, d⟩ := merged
  obtain ⟨result', d'⟩ := merged'
  obtain rfl : result = result' := hresult
  cases result with
  | ok handle => exact ⟨calls, hsince⟩
  | error reason => exact ⟨calls, dropSubscription_since hsince hfit' rid reason⟩

end

end Cache

end LiveResource
