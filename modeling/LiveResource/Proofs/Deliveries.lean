import LiveResource.Proofs.Contradictions
import LiveResource.Proofs.Telling

set_option autoImplicit false

/-!
# What an event call returns

An event may embed a batch, and to bring cached resources up to date with that batch makes events as
well. The call returns the last event of all if it is for the resource that the call is about. This
is the event that was asked for, unless that one comes to nothing while the batch has changed the
same resource last.
-/

namespace LiveResource

def Question.name? (question : Question) : Option String := (question.event? "").map (·.name)

/-- A hook may change the values of an event, but neither its resource nor its name. -/
theorem Hooks.of_answer {h : Hooks} {rid : String} {turn : Nat} {question : Question}
    {event : ResourceEvent} (hanswer : h.answer rid turn question = .ok (some event)) :
    event.rid = rid ∧ question.name? = some event.name := by
  have hpassed {outcome : Outcome Bool} {asked : ResourceEvent}
      (heq : (outcome.map fun passed => if passed then some asked else none) = .ok (some event)) :
      event = asked := by
    rcases outcome with fault | passed
    · cases heq
    · cases passed <;> cases heq
      rfl
  cases question with
  | initModel fields =>
    cases hinit : (h.initModel turn fields).2 <;> simp [answer, hinit, Except.map] at hanswer
  | initCollection values =>
    cases hinit : (h.initCollection turn values).2 <;>
      simp [answer, hinit, Except.map] at hanswer
  | change fields change =>
    have hmapped : (h.change turn fields change).2.map (·.map (.change rid)) = .ok (some event) :=
      hanswer
    rcases houtcome : (h.change turn fields change).2 with fault | changed
    · rw [houtcome] at hmapped
      cases hmapped
    · rw [houtcome] at hmapped
      cases changed <;> cases hmapped
      exact ⟨rfl, rfl⟩
  | add values index value =>
    rw [hpassed hanswer]
    exact ⟨rfl, rfl⟩
  | remove values index value =>
    rw [hpassed hanswer]
    exact ⟨rfl, rfl⟩
  | customModel fields name data =>
    rw [hpassed hanswer]
    exact ⟨rfl, rfl⟩
  | customCollection values name data =>
    rw [hpassed hanswer]
    exact ⟨rfl, rfl⟩

namespace Store

variable {s : Store} {rid name : String} {kind : Option Kind} {data : Option Json}
  {content : Content} {question : Question} {event : ResourceEvent}

/-- What the hook of a replica is asked about an event, once the contents have been edited. It is
asked neither about a change that makes no difference nor about any event of an error. -/
def asked? (s : Store) (kind : Option Kind) (name : String) (data : Option Json) :
    Content → Option Question
  | .model fields =>
    if kind = some .model ∧ name = "change" then do
      let tokens ← (Dict.lookup "values" (Op.membersOf data)).bind Json.members?
      let changes ← (s.parseChanges tokens).toOption
      let (fields, change) := Change.writeAll fields .none changes.entries
      if change.new.isEmpty then none else some (.change fields change)
    else if kind = some .error then none
    else some (.customModel fields name data)
  | .collection values =>
    if kind = some .collection ∧ name = "add" then do
      let index ← (Dict.lookup "idx" (Op.membersOf data)).bind Json.natural?
      let token ← Dict.lookup "value" (Op.membersOf data)
      let value ← (s.parseStored token).toOption
      some (.add (values.insertIdx index value) index value)
    else if kind = some .collection ∧ name = "remove" then do
      let index ← (Dict.lookup "idx" (Op.membersOf data)).bind Json.natural?
      let value ← values[index]?
      some (.remove (values.eraseIdx index) index value)
    else if kind = some .error then none
    else some (.customCollection values name data)
  | .error _ => none

def told (s : Store) (rid : String) (kind : Option Kind) (name : String) (data : Option Json) :
    List ResourceEvent :=
  if name = "unsubscribe" then [.unsubscribe rid (Cache.reasonOf data)]
  else match s.replicaOf? rid with
    | none => []
    | some r => r.answers rid (s.asked? kind name data r.content)

/-- An event comes of one with this name and these data: it is the end of a subscription, or the
hook has been asked and has let it pass. Nothing comes of an event that makes no difference or is
suppressed, or of one that makes the hook fail. -/
def Approves (s : Store) (rid : String) (kind : Option Kind) (name : String) (data : Option Json)
    (event : ResourceEvent) : Prop :=
  name = "unsubscribe" ∧ event = .unsubscribe rid (Cache.reasonOf data) ∨
  name ≠ "unsubscribe" ∧ ∃ r question, s.replicaOf? rid = some r ∧
    s.asked? kind name data r.content = some question ∧
    r.hooks.answer rid r.turn question = .ok (some event)

theorem told_of_replicaOf? (hname : name ≠ "unsubscribe") {r : Replica}
    (hr : s.replicaOf? rid = some r) :
    s.told rid kind name data = r.answers rid (s.asked? kind name data r.content) := by
  rw [told, if_neg hname, hr]

theorem asked?_change {fields changes : Fields} {tokens : List (String × Json)}
    (htokens : (Dict.lookup "values" (Op.membersOf data)).bind Json.members? = some tokens)
    (hparse : s.parseChanges tokens = .ok changes) :
    s.asked? (some .model) "change" data (.model fields) =
      if (Change.writeAll fields .none changes.entries).2.new.isEmpty then none
      else some (.change (Change.writeAll fields .none changes.entries).1
        (Change.writeAll fields .none changes.entries).2) := by
  rw [asked?, if_pos ⟨rfl, rfl⟩, htokens, Option.bind_eq_bind, Option.bind_some, hparse]
  rfl

theorem asked?_add {values : List Value} {index : Nat} {token : Json} {value : Value}
    (hindex : (Dict.lookup "idx" (Op.membersOf data)).bind Json.natural? = some index)
    (htoken : Dict.lookup "value" (Op.membersOf data) = some token)
    (hparse : s.parseStored token = .ok value) :
    s.asked? (some .collection) "add" data (.collection values) =
      some (.add (values.insertIdx index value) index value) := by
  rw [asked?, if_pos ⟨rfl, rfl⟩, hindex, htoken, Option.bind_eq_bind, Option.bind_some,
    Option.bind_eq_bind, Option.bind_some, hparse]
  rfl

theorem asked?_remove {values : List Value} {index : Nat} {value : Value}
    (hindex : (Dict.lookup "idx" (Op.membersOf data)).bind Json.natural? = some index)
    (hvalue : values[index]? = some value) :
    s.asked? (some .collection) "remove" data (.collection values) =
      some (.remove (values.eraseIdx index) index value) := by
  rw [asked?, if_neg fun hboth => absurd hboth.2 (by decide), if_pos ⟨rfl, rfl⟩, hindex,
    Option.bind_eq_bind, Option.bind_some, hvalue]
  rfl

def Customary (kind : Option Kind) (name : String) : Prop :=
  kind ≠ some .error ∧ ¬(kind = some .model ∧ name = "change") ∧
    ¬(kind = some .collection ∧ (name = "add" ∨ name = "remove"))

theorem asked?_custom (h : Customary kind name) (content : Content) :
    s.asked? kind name data content = content.custom? name data := by
  obtain ⟨herror, hchange, hedit⟩ := h
  cases content with
  | model fields => rw [asked?, if_neg hchange, if_neg herror, Content.custom?]
  | collection values =>
    rw [asked?, if_neg fun hboth => hedit ⟨hboth.1, .inl hboth.2⟩,
      if_neg fun hboth => hedit ⟨hboth.1, .inr hboth.2⟩, if_neg herror, Content.custom?]
  | error fault => rfl

theorem asked?_error (content : Content) : s.asked? (some .error) name data content = none := by
  cases content <;> simp [asked?]

theorem mem_told_iff : event ∈ s.told rid kind name data ↔
    s.Approves rid kind name data event := by
  unfold told Approves
  split
  · rename_i hname
    simp [hname]
  · rename_i hname
    cases hr : s.replicaOf? rid with
    | none => simp [hname]
    | some r =>
      cases hasked : s.asked? kind name data r.content with
      | none => simp [hname, hasked, Replica.answers]
      | some question =>
        cases hanswer : r.hooks.answer rid r.turn question with
        | error fault => simp [hname, hasked, hanswer, Replica.answers, Work.passed]
        | ok event? =>
          cases event? <;> simp [hname, hasked, hanswer, Replica.answers, Work.passed, eq_comm]

theorem told_eq_nil_iff :
    s.told rid kind name data = [] ↔ ∀ event, ¬ s.Approves rid kind name data event := by
  simp only [List.eq_nil_iff_forall_not_mem, mem_told_iff]

theorem name?_of_asked? (h : s.asked? kind name data content = some question) :
    question.name? = some name := by
  cases content with
  | model fields =>
    rw [asked?] at h
    split at h
    · rename_i hchange
      simp only [Option.bind_eq_bind, Option.bind_eq_some_iff] at h
      obtain ⟨_, _, _, _, hquestion⟩ := h
      split at hquestion
      · cases hquestion
      · cases hquestion
        exact congrArg some hchange.2.symm
    · split at h
      · cases h
      · cases h
        rfl
  | collection values =>
    rw [asked?] at h
    split at h
    · rename_i hadd
      simp only [Option.bind_eq_bind, Option.bind_eq_some_iff] at h
      obtain ⟨_, _, _, _, _, _, hquestion⟩ := h
      cases hquestion
      exact congrArg some hadd.2.symm
    · split at h
      · rename_i hremove
        simp only [Option.bind_eq_bind, Option.bind_eq_some_iff] at h
        obtain ⟨_, _, _, _, hquestion⟩ := h
        cases hquestion
        exact congrArg some hremove.2.symm
      · split at h
        · cases h
        · cases h
          rfl
  | error fault => cases h

theorem Approves.rid_name (h : s.Approves rid kind name data event) :
    event.rid = rid ∧ event.name = name := by
  rcases h with ⟨rfl, rfl⟩ | ⟨_, r, question, _, hasked, hanswer⟩
  · exact ⟨rfl, rfl⟩
  · obtain ⟨hrid, hname⟩ := Hooks.of_answer hanswer
    rw [name?_of_asked? hasked, Option.some_inj] at hname
    exact ⟨hrid, hname.symm⟩

theorem told_cases (s : Store) (rid : String) (kind : Option Kind) (name : String)
    (data : Option Json) :
    s.told rid kind name data = [] ∨ ∃ event, s.told rid kind name data = [event] := by
  unfold told
  split
  · exact .inr ⟨_, rfl⟩
  · split
    · exact .inl rfl
    · unfold Replica.answers
      split
      · exact .inl rfl
      · unfold Work.passed
        split
        · exact .inr ⟨_, rfl⟩
        · exact .inl rfl

end Store

namespace Op

variable {α : Type} {w w' : Work} {rid name : String} {kind : Option Kind} {data : Option Json}

theorem need_eq_ok {flaw : EventFlaw} {part : Option α} {a : α}
    (h : need rid name flaw part w = .ok a w') : part = some a ∧ w' = w := by
  cases part with
  | none => cases h
  | some b =>
    cases h
    exact ⟨rfl, rfl⟩

def embed (registry : Registry) (rid name : String) (data : Option Json) : Op Unit :=
  if name ≠ "unsubscribe" ∧ hasBatch (membersOf data) = true then
    mergeEmbedded registry rid name (.obj (membersOf data))
  else pure ()

def named (rid : String) (kind : Option Kind) (name : String) (data : Option Json) : Op Unit :=
  if name = "unsubscribe" then endSubscription rid (Cache.reasonOf data)
  else applyNamed rid kind name data

theorem eventOp_eq (registry : Registry) (e : Entry) (rid name : String) (data : Option Json) :
    Cache.eventOp registry e rid name data =
      (do embed registry rid name data; named rid e.kind name data) := by
  unfold Cache.eventOp embed named
  by_cases hname : name = "unsubscribe"
  · rw [if_pos hname, if_neg fun hboth => hboth.1 hname, if_pos hname]
    exact (pure_bind _ _).symm
  · rw [if_neg hname, if_neg hname]
    cases hbatch : hasBatch (membersOf data) with
    | true => rw [applyEvent_of_hasBatch hbatch, if_pos ⟨hname, rfl⟩]
    | false =>
      rw [applyEvent_of_not_hasBatch hbatch, if_neg fun hboth => Bool.false_ne_true hboth.2]
      exact (pure_bind _ _).symm

theorem told_of_custom (hname : name ≠ "unsubscribe") (hcustom : Store.Customary kind name)
    (h : applyCustom rid name data w = .ok () w') :
    w'.out.events = w.out.events ++ w.store.told rid kind name data := by
  obtain ⟨r, hr, htold⟩ := told_of_applyCustom h
  rw [htold, Store.told_of_replicaOf? hname hr, Store.asked?_custom hcustom]

theorem told_of_model (hname : name ≠ "unsubscribe")
    (h : applyNamed rid (some .model) name data w = .ok () w') :
    w'.out.events = w.out.events ++ w.store.told rid (some .model) name data := by
  change (if name = "change" then _ else _ : Op Unit) w = _ at h
  by_cases hchange : name = "change"
  · subst hchange
    rw [if_pos rfl] at h
    obtain ⟨tokens, w₁, hneed, hrest⟩ := bind_eq_ok h
    obtain ⟨htokens, rfl⟩ := need_eq_ok hneed
    obtain ⟨changes, w₂, hread, hedit⟩ := bind_eq_ok hrest
    obtain ⟨hparse, rfl⟩ := liftStore_eq_ok hread
    obtain ⟨r, fields, hr, hcontent, htold⟩ := told_of_applyChange hedit
    rw [htold, Store.told_of_replicaOf? hname hr, hcontent, Store.asked?_change htokens hparse]
  · rw [if_neg hchange] at h
    exact told_of_custom hname ⟨nofun, fun hboth => hchange hboth.2, nofun⟩ h

theorem told_of_collection (hname : name ≠ "unsubscribe")
    (h : applyNamed rid (some .collection) name data w = .ok () w') :
    w'.out.events = w.out.events ++ w.store.told rid (some .collection) name data := by
  change (if name = "add" then _ else _ : Op Unit) w = _ at h
  by_cases hadd : name = "add"
  · subst hadd
    rw [if_pos rfl] at h
    obtain ⟨index, w₁, hneed, hrest⟩ := bind_eq_ok h
    obtain ⟨hindex, rfl⟩ := need_eq_ok hneed
    obtain ⟨token, w₂, hneed', hrest'⟩ := bind_eq_ok hrest
    obtain ⟨htoken, rfl⟩ := need_eq_ok hneed'
    obtain ⟨value, w₃, hread, hedit⟩ := bind_eq_ok hrest'
    obtain ⟨hparse, rfl⟩ := liftStore_eq_ok hread
    obtain ⟨r, values, hr, hcontent, htold⟩ := told_of_applyAdd hedit
    rw [htold, Store.told_of_replicaOf? hname hr, hcontent,
      Store.asked?_add hindex htoken hparse]
  · rw [if_neg hadd] at h
    by_cases hremove : name = "remove"
    · subst hremove
      rw [if_pos rfl] at h
      obtain ⟨index, w₁, hneed, hedit⟩ := bind_eq_ok h
      obtain ⟨hindex, rfl⟩ := need_eq_ok hneed
      obtain ⟨r, values, value, hr, hcontent, hvalue, htold⟩ := told_of_applyRemove hedit
      rw [htold, Store.told_of_replicaOf? hname hr, hcontent, Store.asked?_remove hindex hvalue]
    · rw [if_neg hremove] at h
      exact told_of_custom hname ⟨nofun, nofun, fun hboth => hboth.2.elim hadd hremove⟩ h

theorem told_of_applyNamed (hname : name ≠ "unsubscribe")
    (h : applyNamed rid kind name data w = .ok () w') :
    w'.out.events = w.out.events ++ w.store.told rid kind name data := by
  rcases kind with _ | _ | _ | _
  · exact told_of_custom hname ⟨nofun, nofun, nofun⟩ h
  · exact told_of_model hname h
  · exact told_of_collection hname h
  · -- no hook is asked about an event of an error
    rw [Tells.pure () _ _ _ h, Store.told, if_neg hname]
    cases w.store.replicaOf? rid with
    | none => rfl
    | some r =>
      dsimp only
      rw [Store.asked?_error]
      rfl

theorem told_of_named (h : named rid kind name data w = .ok () w') :
    w'.out.events = w.out.events ++ w.store.told rid kind name data := by
  by_cases hname : name = "unsubscribe"
  · rw [named, if_pos hname] at h
    rw [told_of_endSubscription h, Store.told, if_pos hname]
  · rw [named, if_neg hname] at h
    exact told_of_applyNamed hname h

end Op

namespace Cache

variable {c : Cache} {rid name : String} {data : Option Json} {e : Entry} {embedded applied : Work}
  {event : ResourceEvent}

def Drops (c : Cache) (rid : String) : Prop :=
  ∀ e, c.store.get? rid = some e → c.store.ledger.isSettled e.pending = false ∨ e.loaded = false

/-- An event for a loaded resource is applied: first what it embeds, then the event itself. -/
structure Applies (c : Cache) (rid name : String) (data : Option Json) (e : Entry)
    (embedded applied : Work) : Prop where
  entry : c.store.get? rid = some e
  settled : c.store.ledger.isSettled e.pending = true
  loaded : e.loaded = true
  embeds : Op.embed c.registry rid name data ⟨c.store, {}⟩ = .ok () embedded
  named : Op.named rid e.kind name data embedded = .ok () applied

def evicting (c : Cache) (applied : Work) : Except CacheError Unit :=
  (({ c with store := applied.store } : Cache).flush applied.out).1

theorem handleEvent_of_drops (h : c.Drops rid) :
    (c.handleEvent rid name data).1 = .ok none := by
  unfold handleEvent
  cases he : c.store.get? rid with
  | none => rfl
  | some e =>
    have hskip : (!c.store.ledger.isSettled e.pending || !e.loaded) = true := by
      rcases h e he with hpending | hloading
      · rw [hpending]
        rfl
      · rw [hloading, Bool.not_false, Bool.or_true]
    simp only [hskip, if_true]

/-- An event for a loaded resource is applied or refused. -/
theorem handleEvent_cases (c : Cache) (rid name : String) (data : Option Json) :
    c.Drops rid ∨ (∃ e embedded applied, c.Applies rid name data e embedded applied) ∨
      ∃ err, (c.handleEvent rid name data).1 = .error err := by
  cases he : c.store.get? rid with
  | none => exact .inl fun e he' => by cases he.symm.trans he'
  | some e =>
    by_cases hready : c.store.ledger.isSettled e.pending = true ∧ e.loaded = true
    · obtain ⟨hsettled, hloaded⟩ := hready
      cases hrun : eventOp c.registry e rid name data ⟨c.store, {}⟩ with
      | ok _ applied =>
        have hboth := hrun
        rw [Op.eventOp_eq] at hboth
        obtain ⟨_, embedded, hembeds, hnamed⟩ := Op.bind_eq_ok hboth
        exact .inr (.inl ⟨e, embedded, applied, he, hsettled, hloaded, hembeds, hnamed⟩)
      | error err w =>
        refine .inr (.inr ?_)
        simp only [handleEvent, he, hsettled, hloaded, run, hrun, Bool.not_true, Bool.or_false,
          Bool.false_eq_true, if_false]
        split
        · exact ⟨_, rfl⟩
        · exact ⟨_, rfl⟩
    · refine .inl fun e' he' => ?_
      cases he.symm.trans he'
      rw [not_and_or, Bool.not_eq_true, Bool.not_eq_true] at hready
      exact hready

namespace Applies

theorem eventOp (h : c.Applies rid name data e embedded applied) :
    Cache.eventOp c.registry e rid name data ⟨c.store, {}⟩ = .ok () applied := by
  rw [Op.eventOp_eq, Op.bind_of_ok _ h.embeds]
  exact h.named

/-- The event itself is returned, and if nothing comes of it the last event of what it embeds. -/
theorem handleEvent (h : c.Applies rid name data e embedded applied) :
    (c.handleEvent rid name data).1 = match c.evicting applied with
      | .error err => .error err
      | .ok () => .ok ((embedded.store.told rid e.kind name data).head?.or
        (embedded.out.events.getLast?.filter (·.rid == rid))) := by
  have hdelivered : applied.out.events.getLast?.filter (·.rid == rid) =
      (embedded.store.told rid e.kind name data).head?.or
        (embedded.out.events.getLast?.filter (·.rid == rid)) := by
    rw [Op.told_of_named h.named]
    rcases embedded.store.told_cases rid e.kind name data with hnone | ⟨event, hevent⟩
    · rw [hnone, List.append_nil]
      rfl
    · have hrid : event.rid = rid :=
        (Store.mem_told_iff.mp (hevent ▸ List.mem_singleton_self event)).rid_name.1
      simp [hevent, hrid]
  rw [← hdelivered]
  simp only [Cache.handleEvent, h.entry, h.settled, h.loaded, run, h.eventOp, Bool.not_true,
    Bool.or_false, Bool.false_eq_true, if_false, evicting]
  generalize Cache.flush _ applied.out = flushed
  obtain ⟨_ | _, c'⟩ := flushed <;> rfl

end Applies

/-- An event call returns the event that it is asked for, as the hook has approved it, or nothing if
nothing comes of that event. -/
structure ReturnsNamed (c : Cache) (rid name : String) (data : Option Json) : Prop where
  approved : ∀ event, (c.handleEvent rid name data).1 = .ok (some event) →
    event.rid = rid ∧ event.name = name ∧ ∃ e embedded applied,
      c.Applies rid name data e embedded applied ∧
        embedded.store.Approves rid e.kind name data event
  dropped : c.Drops rid → (c.handleEvent rid name data).1 = .ok none
  silent : ∀ e embedded applied, c.Applies rid name data e embedded applied →
    (∀ event, ¬ embedded.store.Approves rid e.kind name data event) →
      (c.handleEvent rid name data).1 = .ok none

/-- Nothing comes of an event by itself, but the batch that it embeds changes its resource last. -/
def Confuses (c : Cache) (rid name : String) (data : Option Json) : Prop :=
  ∃ e embedded applied last, c.Applies rid name data e embedded applied ∧
    (∀ event, ¬ embedded.store.Approves rid e.kind name data event) ∧
    embedded.out.events.getLast? = some last ∧ last.rid = rid

/-- Nothing comes of an event by itself, and what it leaves cannot be evicted. -/
def Jams (c : Cache) (rid name : String) (data : Option Json) : Prop :=
  ∃ e embedded applied err, c.Applies rid name data e embedded applied ∧
    (∀ event, ¬ embedded.store.Approves rid e.kind name data event) ∧
    c.evicting applied = .error err

theorem handleEvent_of_confuses (h : c.Confuses rid name data) (hjams : ¬ c.Jams rid name data) :
    ∃ last, (c.handleEvent rid name data).1 = .ok (some last) ∧ last.rid = rid := by
  obtain ⟨e, embedded, applied, last, happlies, hnone, hlast, hrid⟩ := h
  refine ⟨last, ?_, hrid⟩
  rw [happlies.handleEvent]
  cases hevicting : c.evicting applied with
  | error err => exact absurd ⟨e, embedded, applied, err, happlies, hnone, hevicting⟩ hjams
  | ok _ => simp [Store.told_eq_nil_iff.mpr hnone, hlast, hrid]

theorem returnsNamed_iff :
    c.ReturnsNamed rid name data ↔ ¬ c.Confuses rid name data ∧ ¬ c.Jams rid name data := by
  refine ⟨fun h => ?_, fun ⟨hconfuses, hjams⟩ => ⟨fun event hevent => ?_, handleEvent_of_drops,
    fun e embedded applied happlies hnone => ?_⟩⟩
  · have hjams : ¬ c.Jams rid name data := by
      rintro ⟨e, embedded, applied, err, happlies, hnone, hevicting⟩
      have hsilent := h.silent e embedded applied happlies hnone
      rw [happlies.handleEvent, hevicting] at hsilent
      cases hsilent
    refine ⟨fun hconfuses => ?_, hjams⟩
    obtain ⟨last, hreturned, _⟩ := handleEvent_of_confuses hconfuses hjams
    obtain ⟨e, embedded, applied, _, happlies, hnone, _⟩ := hconfuses
    cases hreturned.symm.trans (h.silent e embedded applied happlies hnone)
  · rcases c.handleEvent_cases rid name data with
      hdrops | ⟨e, embedded, applied, happlies⟩ | ⟨err, herr⟩
    · cases hevent.symm.trans (handleEvent_of_drops hdrops)
    · rw [happlies.handleEvent] at hevent
      cases hevicting : c.evicting applied with
      | error err =>
        rw [hevicting] at hevent
        cases hevent
      | ok _ =>
        rw [hevicting] at hevent
        rcases embedded.store.told_cases rid e.kind name data with hnone | ⟨told, htold⟩
        · -- what is returned then has come of the batch
          simp only [hnone, List.head?_nil, Option.none_or, Except.ok.injEq,
            Option.filter_eq_some_iff, beq_iff_eq] at hevent
          have hnothing := Store.told_eq_nil_iff.mp hnone
          exact absurd ⟨e, embedded, applied, event, happlies, hnothing, hevent⟩ hconfuses
        · simp only [htold, List.head?_cons, Option.some_or, Except.ok.injEq,
            Option.some.injEq] at hevent
          subst hevent
          have happroves : embedded.store.Approves rid e.kind name data told :=
            Store.mem_told_iff.mp (htold ▸ List.mem_singleton_self told)
          obtain ⟨hrid, hname⟩ := happroves.rid_name
          exact ⟨hrid, hname, e, embedded, applied, happlies, happroves⟩
    · cases hevent.symm.trans herr
  · rw [happlies.handleEvent]
    cases hevicting : c.evicting applied with
    | error err => exact absurd ⟨e, embedded, applied, err, happlies, hnone, hevicting⟩ hjams
    | ok _ =>
      have hother : embedded.out.events.getLast?.filter (·.rid == rid) = none := by
        refine Option.filter_eq_none_iff.mpr fun last hlast hrid => hconfuses ?_
        exact ⟨e, embedded, applied, last, happlies, hnone, hlast, beq_iff_eq.mp hrid⟩
      simp only [Store.told_eq_nil_iff.mpr hnone, hother, List.head?_nil, Option.none_or]

/-- Evictions do not fail in a cache whose counts are kept. -/
theorem not_jams {root : String → Prop} {extra : String → Nat} (h : c.Kept extra root)
    (hbare : c.registry.Bare ∨ EmbedsDisjoint data) : ¬ c.Jams rid name data := by
  rintro ⟨e, embedded, applied, err, happlies, -, hevicting⟩
  obtain ⟨surplus, _, hends⟩ := h.ends_eventOp hbare happlies.entry happlies.loaded name
  rcases handleEvent_of_ends h happlies.entry happlies.loaded hends with
    ⟨w, c', _, hrun, _, _, hflush⟩ | ⟨_, _, _, hrun, _⟩
  · cases happlies.eventOp.symm.trans hrun
    have hok : c.evicting applied = .ok () := congrArg Prod.fst hflush
    cases hok.symm.trans hevicting
  · cases happlies.eventOp.symm.trans hrun

end Cache

namespace World

/-- Whatever the cache holds and whatever its hooks do, an event call returns just the event that it
is asked for, or nothing, except in two cases, in which nothing comes of the event by itself: the
batch that it embeds changes the same resource last, or what it leaves cannot be evicted. The second
one does not happen as long as hooks leave alone what their replicas hold and counts are exact. -/
theorem returns_named_iff (w : World) (rid name : String) (data : Option Json) :
    (w.cache.ReturnsNamed rid name data ↔
      ¬ w.cache.Confuses rid name data ∧ ¬ w.cache.Jams rid name data) ∧
    ∀ registry past, Trace registry past w → registry.Quiet → Tame registry past →
      registry.Bare ∨ EmbedsDisjoint data → ¬ w.cache.Jams rid name data := by
  refine ⟨Cache.returnsNamed_iff, fun registry past htrace hquiet htame hbare => ?_⟩
  obtain ⟨extra, hkept⟩ := kept_of_trace hquiet htame htrace
  exact Cache.not_jams hkept (registry_of_trace hquiet htame htrace ▸ hbare)

def counter : Batch := ⟨Dict.ofList [("m", Dict.ofList [("n", .num (.int 1))])], ∅, ∅⟩

def counting : World :=
  { start .empty with cache := ((start .empty).cache.add counter "m").2 }

def recount : Json := .obj [("models", .obj [("m", .obj [("n", .num (.int 2))])]),
  ("values", .obj [("k", .obj [("action", .str "delete")])])]

theorem confuses_counting : counting.cache.Confuses "m" "change" (some recount) :=
  ⟨_, _, _, _, ⟨rfl, rfl, rfl, rfl, rfl⟩, Store.told_eq_nil_iff.mp rfl, rfl, rfl⟩

/-- The change comes to nothing, but the call returns the one by which the model has been brought up
to date with the batch. -/
theorem returns_named_iff_recount :
    ¬ counting.cache.ReturnsNamed "m" "change" (some recount) ∧
      ∃ event, (counting.cache.handleEvent "m" "change" (some recount)).1 = .ok (some event) ∧
        event.rid = "m" := by
  have hstep : (start .empty).perform (.add counter "m") = some (none, counting) := rfl
  obtain ⟨hiff, hevicts⟩ := returns_named_iff counting "m" "change" (some recount)
  have hjams := hevicts .empty _ (.step .refl hstep) Registry.quiet_empty
    (.inl Registry.bare_empty) (.inl Registry.bare_empty)
  exact ⟨fun hnamed => (hiff.mp hnamed).1 confuses_counting,
    Cache.handleEvent_of_confuses confuses_counting hjams⟩

end World

end LiveResource
