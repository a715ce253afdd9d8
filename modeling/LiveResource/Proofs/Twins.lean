import LiveResource.Proofs.HookCalls

set_option autoImplicit false

/-!
# Two runs that differ in their hooks

Hooks that do not edit what their replicas hold have no say in what an operation does to a store. Two
runs of an operation on stores that differ in their hooks only have the same result, and leave
stores that differ in their hooks only. On the way both have made the same hook calls, and what they
deliver and report is what their hooks have answered.
-/

namespace LiveResource

/-- What has been delivered and reported is what the hooks have answered, the ends of subscriptions
aside. -/
structure Output.Tells (registry : Registry) (calls : List HookCall) (out : Output) : Prop where
  events : out.events.filter (!·.isEnd) = calls.flatMap (·.passed registry)
  errors : out.errors = calls.flatMap (·.failed registry)

theorem Output.Tells.nothing (registry : Registry) : Output.Tells registry [] {} := ⟨rfl, rfl⟩

/-- Two runs, with different hooks, that have made the same calls since the start. -/
structure Work.Twins (r r' : Registry) (start : Store) (calls : List HookCall) (w w' : Work) :
    Prop extends Store.Twins r r' start calls w.store w'.store where
  orphans : w.out.orphans = w'.out.orphans
  ends : w.out.events.filter (·.isEnd) = w'.out.events.filter (·.isEnd)
  tells : w.out.Tells r calls
  tells' : w'.out.Tells r' calls

def Work.Twin (r r' : Registry) (start : Store) (w w' : Work) : Prop :=
  ∃ calls, Work.Twins r r' start calls w w'

structure Work.Even (r r' : Registry) (start : Store) (calls : List HookCall) (w w' : Work) :
    Prop extends Store.Twins r r' start calls w.store w'.store where
  out : w.out = w'.out

def Store.AtTurn (s : Store) (rid : String) (replica turn : Nat) : Prop :=
  ∃ r, s.replicaOf? rid = some r ∧ r.id = replica ∧ r.turn = turn

namespace Work

variable {r r' : Registry} {start : Store} {calls : List HookCall} {w w' : Work} {rid : String}

theorem Twins.of_stores {s s' : Store} (h : Twins r r' start calls w w')
    (htwins : Store.Twins r r' start calls s s') : Twins r r' start calls ⟨s, w.out⟩ ⟨s', w'.out⟩ :=
  ⟨htwins, h.orphans, h.ends, h.tells, h.tells'⟩

theorem Twins.write {f : Store → Store} (h : Twins r r' start calls w w') (hf : Store.Neutral f) :
    Twins r r' start calls ⟨f w.store, w.out⟩ ⟨f w'.store, w'.out⟩ :=
  h.of_stores (h.toTwins.write hf)

theorem Twins.orphan (h : Twins r r' start calls w w') (rids : List String) :
    Twins r r' start calls { w with out := { w.out with orphans := w.out.orphans ++ rids } }
      { w' with out := { w'.out with orphans := w'.out.orphans ++ rids } } :=
  ⟨h.toTwins, congrArg (· ++ rids) h.orphans, h.ends, ⟨h.tells.events, h.tells.errors⟩,
    ⟨h.tells'.events, h.tells'.errors⟩⟩

theorem neutral_recount (rid : String) (count : Nat → Nat) :
    Store.Neutral (·.modify rid fun e => { e with indirect := count e.indirect }) :=
  .modify (f := fun e => { e with indirect := count e.indirect }) (fun _ => rfl) (fun _ => rfl) rid

theorem tells_noted {registry : Registry} (h : w.out.Tells registry calls) (call : HookCall) :
    (w.noted call.rid (registry.answer call)).out.Tells registry (calls ++ [call]) := by
  have hpassed : (call.passed registry).filter (!·.isEnd) = call.passed registry :=
    List.filter_eq_self.mpr fun event hmem => by rw [HookCall.not_isEnd_of_passed hmem]; rfl
  refine ⟨?_, ?_⟩
  · rw [events_noted, List.filter_append, h.events, List.flatMap_append, List.flatMap_singleton]
    exact congrArg _ hpassed
  · rw [List.flatMap_append, List.flatMap_singleton, ← h.errors]
    unfold noted HookCall.failed
    cases registry.answer call with
    | error fault => rfl
    | ok event? => cases event? <;> exact (List.append_nil _).symm

theorem ends_noted (w : Work) (registry : Registry) (call : HookCall) :
    (w.noted call.rid (registry.answer call)).out.events.filter (·.isEnd) =
      w.out.events.filter (·.isEnd) := by
  have hpassed : (call.passed registry).filter (·.isEnd) = [] :=
    List.filter_eq_nil_iff.mpr fun event hmem => by
      rw [HookCall.not_isEnd_of_passed hmem]
      exact Bool.false_ne_true
  rw [events_noted, List.filter_append]
  change _ ++ (call.passed registry).filter (·.isEnd) = _
  rw [hpassed, List.append_nil]

theorem Twins.noted {s s' : Store} {call : HookCall} (h : Twins r r' start calls w w')
    (htwins : Store.Twins r r' start (calls ++ [call]) s s') :
    Twins r r' start (calls ++ [call])
      ((⟨s, w.out⟩ : Work).noted call.rid (r.answer call))
      ((⟨s', w'.out⟩ : Work).noted call.rid (r'.answer call)) := by
  refine ⟨?_, ?_, ?_, tells_noted (w := ⟨s, w.out⟩) h.tells call,
    tells_noted (w := ⟨s', w'.out⟩) h.tells' call⟩
  · rw [store_noted, store_noted]
    exact htwins
  · rw [orphans_noted, orphans_noted]
    exact h.orphans
  · rw [ends_noted, ends_noted]
    exact h.ends

end Work

namespace Op

variable {α β γ : Type}

/-- The same result, and what is left is related, be it after a success or after an error. -/
def Coupled (failed after : Work → Work → Prop) :
    EStateM.Result CacheError Work α → EStateM.Result CacheError Work α → Prop
  | .ok a v, .ok a' v' => a = a' ∧ after v v'
  | .error err v, .error err' v' => err = err' ∧ failed v v'
  | _, _ => False

def Couples (failed before after : Work → Work → Prop) (op op' : Op α) : Prop :=
  ∀ w w', before w w' → Coupled failed after (op w) (op' w')

/-- A relation that goes with whatever leaves the hooks alone. -/
structure Lockstep (failed same : Work → Work → Prop) : Prop where
  fails : ∀ {w w'}, same w w' → failed w w'
  plain : ∀ {w w'}, same w w' → w.store.plain = w'.store.plain
  recount : ∀ {w w'} (rid : String) (count : Nat → Nat), same w w' →
    same ⟨w.store.modify rid fun e => { e with indirect := count e.indirect }, w.out⟩
      ⟨w'.store.modify rid fun e => { e with indirect := count e.indirect }, w'.out⟩
  orphan : ∀ {w w'} (rid : String), same w w' →
    same { w with out := { w.out with orphans := w.out.orphans ++ [rid] } }
      { w' with out := { w'.out with orphans := w'.out.orphans ++ [rid] } }

namespace Couples

variable {failed before middle after : Work → Work → Prop} {op op' : Op α} {f f' : α → Op β}
  {w w' : Work}

theorem cases (h : Couples failed before after op op') (hw : before w w') :
    (∃ a v v', op w = .ok a v ∧ op' w' = .ok a v' ∧ after v v') ∨
    ∃ err v v', op w = .error err v ∧ op' w' = .error err v' ∧ failed v v' := by
  have hboth := h w w' hw
  unfold Coupled at hboth
  split at hboth
  · rename_i a v a' v' hrun hrun'
    obtain ⟨rfl, hafter⟩ := hboth
    exact .inl ⟨a, v, v', hrun, hrun', hafter⟩
  · rename_i err v err' v' hrun hrun'
    obtain ⟨rfl, hfailed⟩ := hboth
    exact .inr ⟨err, v, v', hrun, hrun', hfailed⟩
  · exact hboth.elim

theorem pure (a : α) : Couples failed before before (Pure.pure a : Op α) (Pure.pure a) :=
  fun _ _ hw => ⟨rfl, hw⟩

theorem bind (h : Couples failed before middle op op')
    (hf : ∀ a, Couples failed middle after (f a) (f' a)) :
    Couples failed before after (op >>= f) (op' >>= f') := by
  intro w w' hw
  rcases h.cases hw with ⟨a, v, v', hrun, hrun', hmiddle⟩ | ⟨err, v, v', hrun, hrun', hfailed⟩
  · rw [bind_of_ok f hrun, bind_of_ok f' hrun']
    exact hf a v v' hmiddle
  · rw [bind_of_error f hrun, bind_of_error f' hrun']
    exact ⟨rfl, hfailed⟩

theorem forM {l : List γ} {g g' : γ → Op Unit}
    (h : ∀ x ∈ l, Couples failed before before (g x) (g' x)) :
    Couples failed before before (l.forM g) (l.forM g') := by
  induction l with
  | nil => exact .pure ()
  | cons x rest ih =>
    exact (h x List.mem_cons_self).bind fun _ => ih fun y hy => h y (List.mem_cons_of_mem _ hy)

theorem mono {failed' before' after' : Work → Work → Prop} (h : Couples failed before after op op')
    (hfailed : ∀ {w w'}, failed w w' → failed' w w')
    (hbefore : ∀ {w w'}, before' w w' → before w w')
    (hafter : ∀ {w w'}, after w w' → after' w w') : Couples failed' before' after' op op' := by
  intro w w' hw
  rcases h.cases (hbefore hw) with ⟨a, v, v', hrun, hrun', hv⟩ | ⟨err, v, v', hrun, hrun', hv⟩
  · rw [hrun, hrun']
    exact ⟨rfl, hafter hv⟩
  · rw [hrun, hrun']
    exact ⟨rfl, hfailed hv⟩

end Couples

namespace Lockstep

variable {failed same after : Work → Work → Prop} (hL : Lockstep failed same)

include hL

theorem throw (err : CacheError) :
    Couples failed same after (MonadExcept.throw err : Op α) (MonadExcept.throw err) :=
  fun _ _ hw => ⟨rfl, hL.fails hw⟩

theorem liftStore {f : Store → Except CacheError α} (hf : ∀ s : Store, f s.plain = f s) :
    Couples failed same same (Op.liftStore f) (Op.liftStore f) := by
  intro w w' hw
  have hsame := Store.congr_plain f hf (hL.plain hw)
  unfold Op.liftStore
  rw [hsame]
  cases f w'.store with
  | ok a => exact ⟨rfl, hw⟩
  | error err => exact ⟨rfl, hL.fails hw⟩

theorem of_entry {rid : String} {f f' : Entry → Op β}
    (hf : ∀ e e', e.plain = e'.plain → Couples failed same after (f e) (f' e')) :
    Couples failed same after (Op.entry rid >>= f) (Op.entry rid >>= f') := by
  intro w w' hw
  cases he : w.store.get? rid with
  | some e =>
    obtain ⟨e', he', hplain⟩ := Store.get?_of_plain (hL.plain hw) he
    rw [bind_of_ok f (entry_of_get? he), bind_of_ok f' (entry_of_get? he')]
    exact hf e e' hplain w w' hw
  | none =>
    have he' := Store.get?_none_of_plain (hL.plain hw) he
    have hrun : Op.entry rid w = .error (.notFound rid) w := liftStore_of_error (by rw [he])
    have hrun' : Op.entry rid w' = .error (.notFound rid) w' := liftStore_of_error (by rw [he'])
    rw [bind_of_error f hrun, bind_of_error f' hrun']
    exact ⟨rfl, hL.fails hw⟩

theorem recounted (rid : String) (count : Nat → Nat) : Couples failed same same
    (modifyStore (·.modify rid fun e => { e with indirect := count e.indirect }))
    (modifyStore (·.modify rid fun e => { e with indirect := count e.indirect })) :=
  fun _ _ hw => ⟨rfl, hL.recount rid count hw⟩

theorem orphaned (rid : String) : Couples failed same same (Op.orphan rid) (Op.orphan rid) :=
  fun _ _ hw => ⟨rfl, hL.orphan rid hw⟩

theorem addIndirect (rid : String) :
    Couples failed same same (Op.addIndirect rid) (Op.addIndirect rid) :=
  hL.of_entry fun _ _ _ => hL.recounted rid (· + 1)

theorem removeIndirect (rid : String) :
    Couples failed same same (Op.removeIndirect rid) (Op.removeIndirect rid) := by
  refine hL.of_entry fun e e' hplain => ?_
  have hindirect : e.indirect = e'.indirect := (congrArg Entry.indirect hplain :)
  rw [hindirect]
  split
  · exact (hL.throw _).bind fun _ => hL.recounted rid (· - 1)
  · exact hL.recounted rid (· - 1)

theorem releaseReference (rid : String) :
    Couples failed same same (Op.releaseReference rid) (Op.releaseReference rid) := by
  refine (hL.removeIndirect rid).bind fun _ => hL.of_entry fun e e' hplain => ?_
  have hdirect : e.direct = e'.direct := (congrArg Entry.direct hplain :)
  rw [hdirect]
  split
  · exact hL.orphaned rid
  · exact .pure ()

theorem countValue (value : Value) :
    Couples failed same same (Op.countValue value) (Op.countValue value) := by
  unfold Op.countValue
  split
  · exact hL.addIndirect _
  · exact .pure ()

theorem releaseValue (value : Value) :
    Couples failed same same (Op.releaseValue value) (Op.releaseValue value) := by
  unfold Op.releaseValue
  split
  · exact hL.releaseReference _
  · exact .pure ()

theorem parseCounted (token : Json) :
    Couples failed same same (Op.parseCounted token) (Op.parseCounted token) := by
  have hparse (s : Store) : s.plain.parseStored token = s.parseStored token :=
    congrFun (Store.parseStored_congr s.parseRef_plain) token
  exact (hL.liftStore hparse).bind fun v => (hL.countValue v).bind fun _ => .pure v

theorem parseFieldsCounted (tokens : List (String × Json)) :
    Couples failed same same (Op.parseFieldsCounted tokens) (Op.parseFieldsCounted tokens) := by
  induction tokens with
  | nil => exact .pure []
  | cons first rest ih =>
    exact (hL.parseCounted first.2).bind fun _ => ih.bind fun _ => .pure _

theorem parseValuesCounted (tokens : List Json) :
    Couples failed same same (Op.parseValuesCounted tokens) (Op.parseValuesCounted tokens) := by
  induction tokens with
  | nil => exact .pure []
  | cons first rest ih =>
    exact (hL.parseCounted first).bind fun _ => ih.bind fun _ => .pure _

theorem releaseAll (rid : String) :
    Couples failed same same (Op.releaseAll rid) (Op.releaseAll rid) := by
  refine hL.of_entry fun e e' hplain => ?_
  have hrefs : e.hardRefs = e'.hardRefs := by
    rw [← Entry.hardRefs_plain e, hplain, Entry.hardRefs_plain]
  rw [hrefs]
  exact .forM fun t _ => hL.removeIndirect t

theorem need (rid name : String) (flaw : EventFlaw) (part : Option α) :
    Couples failed same same (Op.need rid name flaw part) (Op.need rid name flaw part) := by
  cases part with
  | none => exact hL.throw _
  | some a => exact .pure a

end Lockstep

section

variable {r r' : Registry} {start : Store} {rid : String} {id turn : Nat}

def Held (r r' : Registry) (start : Store) (rid : String) (id turn : Nat) (w w' : Work) : Prop :=
  Work.Twin r r' start w w' ∧ w.store.AtTurn rid id turn

theorem lockstep_twin : Lockstep (Work.Twin r r' start) (Work.Twin r r' start) where
  fails := id
  plain := fun ⟨_, h⟩ => h.plain
  recount rid count := fun ⟨calls, h⟩ => ⟨calls, h.write (Work.neutral_recount rid count)⟩
  orphan rid := fun ⟨calls, h⟩ => ⟨calls, h.orphan [rid]⟩

theorem lockstep_held : Lockstep (Work.Twin r r' start) (Held r r' start rid id turn) where
  fails h := h.1
  plain h := lockstep_twin.plain h.1
  recount := fun {w w'} rid' count h => by
    refine ⟨lockstep_twin.recount rid' count h.1, ?_⟩
    obtain ⟨replica, hreplica, hrest⟩ := h.2
    have hhas := Store.has_modify (f := fun e => { e with indirect := count e.indirect })
      (fun _ => rfl) w.store rid'
    exact ⟨replica, (congrFun (congrFun hhas (some rid)) replica).mpr hreplica, hrest⟩
  orphan rid' h := ⟨lockstep_twin.orphan rid' h.1, h.2⟩

theorem replica_present {replica : Replica} {w : Work}
    (h : w.store.replicaOf? rid = some replica) : Op.replica rid w = .ok replica w :=
  liftStore_of_ok (by rw [← Store.replicaOf?, h])

theorem replica_missing {w : Work} (h : w.store.replicaOf? rid = none) :
    Op.replica rid w = .error (.notFound rid) w :=
  liftStore_of_error (by rw [← Store.replicaOf?, h])

theorem of_replica {α : Type} {after : Work → Work → Prop} {f f' : Replica → Op α}
    (hf : ∀ id content turn, Couples (Work.Twin r r' start) (Held r r' start rid id turn) after
      (f ⟨id, content, r.hooks rid content.kind, turn⟩)
      (f' ⟨id, content, r'.hooks rid content.kind, turn⟩)) :
    Couples (Work.Twin r r' start) (Work.Twin r r' start) after
      (Op.replica rid >>= f) (Op.replica rid >>= f') := by
  intro w w' hw
  obtain ⟨calls, h⟩ := hw
  have hboth := congrArg (·.replicaOf? rid) h.plain
  simp only [Store.replicaOf?_plain] at hboth
  cases hreplica : w.store.replicaOf? rid with
  | none =>
    rw [hreplica, Option.map_none] at hboth
    have hreplica' := Option.map_eq_none_iff.mp hboth.symm
    rw [bind_of_error f (replica_missing hreplica), bind_of_error f' (replica_missing hreplica')]
    exact ⟨rfl, calls, h⟩
  | some replica =>
    rw [hreplica, Option.map_some] at hboth
    obtain ⟨replica', hreplica', hplain⟩ := Option.map_eq_some_iff.mp hboth.symm
    rw [bind_of_ok f (replica_present hreplica), bind_of_ok f' (replica_present hreplica')]
    have hhooks := h.served.hooks hreplica
    have hhooks' := h.served'.hooks hreplica'
    obtain ⟨id, content, hooks, turn⟩ := replica
    obtain ⟨id', content', hooks', turn'⟩ := replica'
    cases hplain
    dsimp only at hhooks hhooks'
    rw [hhooks, hhooks']
    exact hf id content turn w w' ⟨⟨calls, h⟩, _, hreplica, rfl, rfl⟩

theorem other_replica {calls : List HookCall} {w w' : Work} {replica : Replica}
    (h : Work.Twins r r' start calls w w') (hreplica : w.store.replicaOf? rid = some replica) :
    ∃ replica', w'.store.replicaOf? rid = some replica' ∧ replica'.id = replica.id ∧
      replica'.turn = replica.turn := by
  have hboth := congrArg (·.replicaOf? rid) h.plain
  simp only [Store.replicaOf?_plain, hreplica, Option.map_some] at hboth
  obtain ⟨replica', hreplica', hplain⟩ := Option.map_eq_some_iff.mp hboth.symm
  exact ⟨replica', hreplica', (congrArg Replica.id hplain :), (congrArg Replica.turn hplain :)⟩

theorem setReplica_held {content : Content} {kind : Kind} (hkind : content.kind = kind) :
    Couples (Work.Twin r r' start) (Held r r' start rid id turn) (Held r r' start rid id turn)
      (setReplica rid ⟨id, content, r.hooks rid kind, turn⟩)
      (setReplica rid ⟨id, content, r'.hooks rid kind, turn⟩) := by
  rintro w w' ⟨⟨calls, h⟩, replica, hreplica, rfl, rfl⟩
  obtain ⟨replica', hreplica', hid, hturn⟩ := other_replica h hreplica
  rw [setReplica_run, setReplica_run]
  refine ⟨rfl, ⟨calls, h.of_stores ⟨?_, ?_, ?_⟩⟩, _, Store.has_rewrite hreplica _, rfl, rfl⟩
  · rw [Store.plain_rewrite, Store.plain_rewrite, h.plain]
    rfl
  · exact h.served.rewrite hreplica rfl rfl (by rw [hkind])
  · exact h.served'.rewrite hreplica' hid.symm hturn.symm (by rw [hkind])

theorem asked {kind : Kind} {op op' : Op Unit} (question : Question) (content : Content)
    (hkind : content.kind = kind)
    (hrun : ∀ w, op w = .ok () ((⟨w.store.rewrite rid ⟨id, content, r.hooks rid kind, turn + 1⟩,
      w.out⟩ : Work).noted rid (r.answer ⟨rid, id, turn, question⟩)))
    (hrun' : ∀ w, op' w = .ok () ((⟨w.store.rewrite rid ⟨id, content, r'.hooks rid kind, turn + 1⟩,
      w.out⟩ : Work).noted rid (r'.answer ⟨rid, id, turn, question⟩))) :
    Couples (Work.Twin r r' start) (Held r r' start rid id turn) (Work.Twin r r' start) op op' := by
  rintro w w' ⟨⟨calls, h⟩, replica, hreplica, rfl, rfl⟩
  obtain ⟨replica', hreplica', hid, hturn⟩ := other_replica h hreplica
  rw [hrun, hrun']
  refine ⟨rfl, calls ++ [⟨rid, replica.id, replica.turn, question⟩], ?_⟩
  refine h.noted ⟨?_, ?_, ?_⟩
  · rw [Store.plain_rewrite, Store.plain_rewrite, h.plain]
    rfl
  · exact h.served.called hreplica (by rfl) (by rfl) (by rw [hkind]) question
  · rw [← hid, ← hturn]
    exact h.served'.called hreplica' (by rfl) (by rfl) (by rw [hkind]) question

theorem changed_run {hooks : Hooks} (hquiet : hooks.Quiet) {fields : Fields} {change : Change}
    {replica : Replica} (w : Work) :
    (do
      setReplica rid (replica.hooked (.model (hooks.change turn fields change).1))
      match (hooks.change turn fields change).2 with
      | .ok (some change) => emit (.change rid change)
      | .ok .none => pure ()
      | .error fault => report (.handler rid fault) : Op Unit) w =
        .ok () ((⟨w.store.rewrite rid (replica.hooked (.model fields)), w.out⟩ : Work).noted rid
          (hooks.answer rid turn (.change fields change))) := by
  rw [bind_of_ok _ (setReplica_run _), hquiet.change, Hooks.answer]
  cases (hooks.change turn fields change).2 with
  | error fault => rfl
  | ok passed => cases passed <;> rfl

theorem judging_run {replica : Replica} {content content' : Content} (hsame : content = content')
    (outcome : Outcome Bool) (event : ResourceEvent) (w : Work) :
    (do
      setReplica rid (replica.hooked content)
      if ← judged rid outcome then emit event : Op Unit) w =
        .ok () ((⟨w.store.rewrite rid (replica.hooked content'), w.out⟩ : Work).noted rid
          (outcome.map fun passed => if passed then some event else none)) := by
  rw [bind_of_ok _ (setReplica_run _), judged_run, hsame]

theorem initializing_run {replica : Replica} {content content' : Content} (hsame : content = content')
    (outcome : Outcome Unit) (w : Work) :
    (do
      setReplica rid (replica.hooked content)
      let _ ← judged rid (outcome.map fun _ => true) : Op Unit) w =
        .ok () ((⟨w.store.rewrite rid (replica.hooked content'), w.out⟩ : Work).noted rid
          (outcome.map fun _ => none)) := by
  rw [bind_of_ok _ (setReplica_run _), judged_run_discard, hsame]

theorem Couples.of_held {α : Type} {after : Work → Work → Prop} {op op' : Op α}
    (h : Couples (Work.Twin r r' start) (Work.Twin r r' start) after op op') :
    Couples (Work.Twin r r' start) (Held r r' start rid id turn) after op op' :=
  fun w w' hw => h w w' hw.1

variable (hquiet : r.Quiet) (hquiet' : r'.Quiet)

include hquiet hquiet'

theorem twin_applyChange (rid : String) (changes : Fields) :
    Couples (Work.Twin r r' start) (Work.Twin r r' start) (Work.Twin r r' start)
      (applyChange rid changes) (applyChange rid changes) := by
  refine of_replica fun id content turn => ?_
  have hL := @lockstep_held r r' start rid id turn
  cases content with
  | model fields =>
    dsimp only
    generalize Change.writeAll fields .none changes.entries = written
    obtain ⟨fields', change⟩ := written
    dsimp only
    split
    · exact fun _ _ hw => ⟨rfl, hw.1⟩
    · refine (setReplica_held rfl).bind fun _ => ?_
      refine (Couples.forM fun v _ => hL.countValue v).bind fun _ => ?_
      refine (Couples.forM fun v _ => hL.releaseValue v).bind fun _ => ?_
      refine asked (.change fields' change) (.model fields') rfl (fun w => ?_) fun w => ?_
      · exact changed_run (hquiet.hooks rid .model) w
      · exact changed_run (hquiet'.hooks rid .model) w
  | _ => exact hL.throw _

theorem twin_applyAdd (rid : String) (index : Nat) (value : Value) :
    Couples (Work.Twin r r' start) (Work.Twin r r' start) (Work.Twin r r' start)
      (applyAdd rid index value) (applyAdd rid index value) := by
  refine of_replica fun id content turn => ?_
  have hL := @lockstep_held r r' start rid id turn
  cases content with
  | collection values =>
    dsimp only
    split
    · exact hL.throw _
    · refine (setReplica_held rfl).bind fun _ => (hL.countValue value).bind fun _ => ?_
      refine asked (.add (values.insertIdx index value) index value)
        (.collection (values.insertIdx index value)) rfl (fun w => ?_) fun w => ?_
      · exact judging_run (congrArg Content.collection ((hquiet.hooks rid .collection).add _ _ _ _))
          _ _ w
      · exact judging_run
          (congrArg Content.collection ((hquiet'.hooks rid .collection).add _ _ _ _)) _ _ w
  | _ => exact hL.throw _

theorem twin_applyRemove (rid : String) (index : Nat) :
    Couples (Work.Twin r r' start) (Work.Twin r r' start) (Work.Twin r r' start)
      (applyRemove rid index) (applyRemove rid index) := by
  refine of_replica fun id content turn => ?_
  have hL := @lockstep_held r r' start rid id turn
  cases content with
  | collection values =>
    dsimp only
    split
    · exact hL.throw _
    · rename_i value _
      refine (setReplica_held rfl).bind fun _ => (hL.releaseValue value).bind fun _ => ?_
      refine asked (.remove (values.eraseIdx index) index value)
        (.collection (values.eraseIdx index)) rfl (fun w => ?_) fun w => ?_
      · exact judging_run
          (congrArg Content.collection ((hquiet.hooks rid .collection).remove _ _ _ _)) _ _ w
      · exact judging_run
          (congrArg Content.collection ((hquiet'.hooks rid .collection).remove _ _ _ _)) _ _ w
  | _ => exact hL.throw _

theorem twin_applyCustom (rid name : String) (data : Option Json) :
    Couples (Work.Twin r r' start) (Work.Twin r r' start) (Work.Twin r r' start)
      (applyCustom rid name data) (applyCustom rid name data) := by
  refine of_replica fun id content turn => ?_
  cases content with
  | model fields =>
    refine asked (.customModel fields name data) (.model fields) rfl (fun w => ?_) fun w => ?_
    · exact judging_run (congrArg Content.model ((hquiet.hooks rid .model).customModel _ _ _ _)) _ _ w
    · exact judging_run
        (congrArg Content.model ((hquiet'.hooks rid .model).customModel _ _ _ _)) _ _ w
  | collection values =>
    refine asked (.customCollection values name data) (.collection values) rfl (fun w => ?_)
      fun w => ?_
    · exact judging_run (congrArg Content.collection
        ((hquiet.hooks rid .collection).customCollection _ _ _ _)) _ _ w
    · exact judging_run (congrArg Content.collection
        ((hquiet'.hooks rid .collection).customCollection _ _ _ _)) _ _ w
  | error fault => exact fun _ _ hw => ⟨rfl, hw.1⟩

theorem twin_initContent (batch : Batch) (rid : String) :
    Couples (Work.Twin r r' start) (Work.Twin r r' start) (Work.Twin r r' start)
      (initContent batch rid) (initContent batch rid) := by
  refine of_replica fun id content turn => ?_
  have hL := @lockstep_held r r' start rid id turn
  have hdone : Couples (Work.Twin r r' start) (Held r r' start rid id turn) (Work.Twin r r' start)
      (pure () : Op Unit) (pure ()) := fun _ _ hw => ⟨rfl, hw.1⟩
  dsimp only
  cases batch.models.get? rid with
  | some tokens =>
    refine (hL.parseFieldsCounted tokens.entries).bind fun fields => ?_
    cases content with
    | model _ =>
      refine asked (.initModel (Dict.ofList fields)) (.model (Dict.ofList fields)) rfl
        (fun w => ?_) fun w => ?_
      · exact initializing_run (congrArg Content.model ((hquiet.hooks rid .model).initModel _ _)) _ w
      · exact initializing_run (congrArg Content.model ((hquiet'.hooks rid .model).initModel _ _)) _ w
    | _ => exact hdone
  | none =>
    cases batch.collections.get? rid with
    | some tokens =>
      refine (hL.parseValuesCounted tokens).bind fun values => ?_
      cases content with
      | collection _ =>
        refine asked (.initCollection values) (.collection values) rfl (fun w => ?_) fun w => ?_
        · exact initializing_run
            (congrArg Content.collection ((hquiet.hooks rid .collection).initCollection _ _)) _ w
        · exact initializing_run
            (congrArg Content.collection ((hquiet'.hooks rid .collection).initCollection _ _)) _ w
      | _ => exact hdone
    | none => exact hdone

theorem twin_initResource (batch : Batch) (rid : String) :
    Couples (Work.Twin r r' start) (Work.Twin r r' start) (Work.Twin r r' start)
      (initResource batch rid) (initResource batch rid) := by
  refine (twin_initContent hquiet hquiet' batch rid).bind fun _ => lockstep_twin.of_entry ?_
  rintro _ _ _ w w' ⟨calls, h⟩
  exact ⟨rfl, calls, h.write (.modify (f := fun e => { e with loaded := true }) (fun _ => rfl)
    (fun _ => rfl) rid)⟩

theorem twin_applyEdit (rid : String) (edit : Edit) :
    Couples (Work.Twin r r' start) (Work.Twin r r' start) (Work.Twin r r' start)
      (applyEdit rid edit) (applyEdit rid edit) := by
  cases edit with
  | add index value => exact twin_applyAdd hquiet hquiet' rid index value
  | remove index => exact twin_applyRemove hquiet hquiet' rid index

theorem twin_synchronize (batch : Batch) (rid : String) (kind : Kind) :
    Couples (Work.Twin r r' start) (Work.Twin r r' start) (Work.Twin r r' start)
      (synchronize batch rid kind) (synchronize batch rid kind) := by
  have hL := @lockstep_twin r r' start
  refine of_replica fun id content turn => ?_
  cases kind with
  | model =>
    have hparse (s : Store) : s.plain.parseFields ((batch.models.get? rid).getD ∅) =
        s.parseFields ((batch.models.get? rid).getD ∅) :=
      congrFun (Store.parseFields_congr s.parseRef_plain) _
    refine (Couples.bind (hL.liftStore hparse) fun fields => ?_).of_held
    cases content with
    | model old =>
      dsimp only
      split
      · exact .pure ()
      · exact twin_applyChange hquiet hquiet' rid _
    | _ => exact .pure ()
  | collection =>
    have hparse (s : Store) : s.plain.parseValues ((batch.collections.get? rid).getD []) =
        s.parseValues ((batch.collections.get? rid).getD []) :=
      congrFun (Store.parseValues_congr s.parseRef_plain) _
    refine (Couples.bind (hL.liftStore hparse) fun values => ?_).of_held
    cases content with
    | collection old => exact .forM fun edit _ => twin_applyEdit hquiet hquiet' rid edit
    | _ => exact .pure ()
  | error =>
    have hset := @setReplica_held r r' start rid id turn
      (.error ((batch.errors.get? rid).getD default)) .error rfl
    exact hset.mono (fun h => h) (fun h => h) And.left

/-- A merge is the first thing that an operation does: no hook has been called before. -/
theorem twin_addResources (htwins : r.Twins r') (batch : Batch) :
    Couples (Work.Twin r r' start) (Work.Twins r r' start []) (Work.Twin r r' start)
      (addResources r batch) (addResources r' batch) := by
  have hL : Lockstep (Work.Twin r r' start) (Work.Twins r r' start []) :=
    ⟨fun h => ⟨[], h⟩, fun h => h.plain, fun rid count h => h.write (Work.neutral_recount rid count),
      fun rid h => h.orphan [rid]⟩
  have hkinds (s : Store) := s.checkKinds_plain batch.incoming
  have hvalid (s : Store) := s.validate_plain batch
  refine (hL.liftStore hkinds).bind fun _ => (hL.liftStore hvalid).bind fun _ => ?_
  intro w w' h
  obtain ⟨created, synced, s₁, s₁', hrun, hrun', htwin⟩ :=
    h.toTwins.createAll htwins batch batch.incoming
  have hrest : Couples (Work.Twin r r' start) (Work.Twin r r' start) (Work.Twin r r' start)
      (do
        created.forM (initResource batch)
        synced.forM fun i => synchronize batch i.1 i.2
        pure created : Op (List String))
      (do
        created.forM (initResource batch)
        synced.forM fun i => synchronize batch i.1 i.2
        pure created : Op (List String)) := by
    refine (Couples.forM fun x _ => twin_initResource hquiet hquiet' batch x).bind fun _ => ?_
    refine (Couples.forM fun i _ => twin_synchronize hquiet hquiet' batch i.1 i.2).bind fun _ => ?_
    exact .pure created
  have hget (w : Work) : (get : Op Work) w = .ok w w := rfl
  rw [bind_of_ok _ (hget w), bind_of_ok _ (hget w'), hrun, hrun']
  exact hrest ⟨s₁, w.out⟩ ⟨s₁', w'.out⟩ ⟨[], h.of_stores htwin⟩

end

section

variable {r r' : Registry} {start : Store} {calls : List HookCall}

theorem lockstep_even :
    Lockstep (Work.Even r r' start calls) (Work.Even r r' start calls) where
  fails := id
  plain h := h.plain
  recount rid count h := ⟨h.toTwins.write (Work.neutral_recount rid count), h.out⟩
  orphan rid h := ⟨h.toTwins, by rw [h.out]⟩

theorem even_tryDelete (rid : String) : Couples (Work.Even r r' start calls)
    (Work.Even r r' start calls) (Work.Even r r' start calls) (tryDelete rid) (tryDelete rid) := by
  have hL := @lockstep_even r r' start calls
  intro w w' h
  have hget (w : Work) : (get : Op Work) w = .ok w w := rfl
  rw [tryDelete, bind_of_ok _ (hget w), bind_of_ok _ (hget w')]
  cases he : w.store.get? rid with
  | none =>
    have he' := Store.get?_none_of_plain h.plain he
    simp only [he']
    exact ⟨rfl, h⟩
  | some e =>
    obtain ⟨e', he', hplain⟩ := Store.get?_of_plain h.plain he
    have hdirect : e.direct = e'.direct := (congrArg Entry.direct hplain :)
    have hloaded : e.loaded = e'.loaded := (congrArg Entry.loaded hplain :)
    have hdoomed := Store.congr_plain (·.doomed rid) (fun s => s.doomed_plain rid) h.plain
    simp only [he', hdirect, hloaded, hdoomed]
    split
    · exact ⟨rfl, h⟩
    · refine Couples.bind (Couples.forM fun x _ => hL.releaseAll x) (fun _ => ?_) w w' h
      have hremoved (gone : List String) : Couples (Work.Even r r' start calls)
          (Work.Even r r' start calls) (Work.Even r r' start calls)
            (modifyStore fun s => gone.foldl Store.remove s)
            (modifyStore fun s => gone.foldl Store.remove s) :=
        fun v v' hv => ⟨rfl, hv.toTwins.foldl_remove gone, hv.out⟩
      exact (hremoved _).bind fun _ => .pure _

theorem even_collect (candidates : List String) : Couples (Work.Even r r' start calls)
    (Work.Even r r' start calls) (Work.Even r r' start calls)
      (collect candidates) (collect candidates) := by
  induction candidates with
  | nil => exact .pure ()
  | cons rid rest ih =>
    intro w w' h
    rw [collect_cons, collect_cons]
    cases he : w.store.get? rid with
    | none =>
      rw [Store.get?_none_of_plain h.plain he]
      exact ih w w' h
    | some e =>
      obtain ⟨e', he', hplain⟩ := Store.get?_of_plain h.plain he
      have hdirect : e.direct = e'.direct := (congrArg Entry.direct hplain :)
      simp only [he', hdirect]
      split
      · exact (even_tryDelete rid).bind (fun _ => ih) w w' h
      · exact ih w w' h

theorem even_endSubscription (rid : String) (reason : Fault) :
    Couples (Work.Even r r' start calls) (Work.Even r r' start calls)
      (Work.Even r r' start calls) (endSubscription rid reason) (endSubscription rid reason) := by
  have hdropped : Couples (Work.Even r r' start calls) (Work.Even r r' start calls)
      (Work.Even r r' start calls)
      (modifyStore (·.modify rid fun e => { e with direct := 0, stale := false }))
      (modifyStore (·.modify rid fun e => { e with direct := 0, stale := false })) :=
    fun w w' h => ⟨rfl, h.toTwins.write (.modify
      (f := fun e => { e with direct := 0, stale := false }) (fun _ => rfl) (fun _ => rfl) rid), h.out⟩
  refine hdropped.bind fun _ => (even_tryDelete rid).bind fun _ => ?_
  exact fun w w' h => ⟨rfl, h.toTwins, congrArg (fun out : Output =>
    { out with events := out.events ++ [ResourceEvent.unsubscribe rid reason] }) h.out⟩

end

section

variable {r r' : Registry} {start : Store} (hquiet : r.Quiet) (hquiet' : r'.Quiet)
  (htwins : r.Twins r')

include hquiet hquiet'

theorem twin_applyNamed (rid : String) (kind : Option Kind) (name : String) (data : Option Json) :
    Couples (Work.Twin r r' start) (Work.Twin r r' start) (Work.Twin r r' start)
      (applyNamed rid kind name data) (applyNamed rid kind name data) := by
  have hL := @lockstep_twin r r' start
  have hcustom := @twin_applyCustom r r' start hquiet hquiet' rid name data
  unfold applyNamed
  cases kind with
  | none => exact hcustom
  | some kind =>
    cases kind with
    | model =>
      dsimp only
      split
      · refine (hL.need rid name _ _).bind fun tokens => ?_
        have hparse (s : Store) : s.plain.parseChanges tokens = s.parseChanges tokens := by
          rw [Store.parseChanges, Store.parse_congr s.parseRef_plain, ← Store.parseChanges]
        exact (hL.liftStore hparse).bind fun changes =>
          twin_applyChange hquiet hquiet' rid changes
      · exact hcustom
    | collection =>
      dsimp only
      split
      · refine (hL.need rid name _ _).bind fun index => (hL.need rid name _ _).bind fun token => ?_
        have hparse (s : Store) : s.plain.parseStored token = s.parseStored token :=
          congrFun (Store.parseStored_congr s.parseRef_plain) token
        exact (hL.liftStore hparse).bind fun value => twin_applyAdd hquiet hquiet' rid index value
      · split
        · exact (hL.need rid name _ _).bind fun index => twin_applyRemove hquiet hquiet' rid index
        · exact hcustom
    | error => exact .pure ()

include htwins

theorem twin_mergeEmbedded (rid name : String) (data : Json) :
    Couples (Work.Twin r r' start) (Work.Twins r r' start []) (Work.Twin r r' start)
      (mergeEmbedded r rid name data) (mergeEmbedded r' rid name data) := by
  have hL := @lockstep_twin r r' start
  unfold mergeEmbedded
  split
  · exact fun _ _ h => ⟨rfl, [], h⟩
  · rename_i batch _
    have htold (created : List String) : Couples (Work.Twin r r' start) (Work.Twin r r' start)
        (Work.Twin r r' start) (modifyStore fun s => created.foldl Store.settlePresent s)
          (modifyStore fun s => created.foldl Store.settlePresent s) := by
      rintro w w' ⟨calls, h⟩
      exact ⟨rfl, calls, h.write (.foldl Store.Neutral.settlePresent created)⟩
    exact (twin_addResources hquiet hquiet' htwins batch).bind fun created =>
      (htold created).bind fun _ => .forM fun x _ => hL.orphaned x

theorem twin_applyEvent (rid : String) (kind : Option Kind) (name : String) (data : Option Json) :
    Couples (Work.Twin r r' start) (Work.Twins r r' start []) (Work.Twin r r' start)
      (applyEvent r rid kind name data) (applyEvent r' rid kind name data) := by
  cases hbatch : hasBatch (membersOf data) with
  | false =>
    rw [applyEvent_of_not_hasBatch hbatch, applyEvent_of_not_hasBatch hbatch]
    exact (twin_applyNamed hquiet hquiet' rid kind name data).mono id (fun h => ⟨[], h⟩) id
  | true =>
    rw [applyEvent_of_hasBatch hbatch, applyEvent_of_hasBatch hbatch]
    exact (twin_mergeEmbedded hquiet hquiet' htwins rid name _).bind fun _ =>
      twin_applyNamed hquiet hquiet' rid kind name data

end

end Op

end LiveResource
