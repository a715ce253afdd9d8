import LiveResource.Proofs.Operations
import LiveResource.Proofs.Plain

set_option autoImplicit false

/-!
# Hook calls

A hook is asked about the contents of a replica and about the event for it. Its answer is noted: an
event to deliver, nothing, or an error to report. A list of calls is what has been called since some
moment if it has every call of every replica that there is now, from the first one after that moment
to the last, and no other.
-/

namespace LiveResource

inductive Question
  | initModel (fields : Fields)
  | initCollection (values : List Value)
  | change (fields : Fields) (change : Change)
  | add (values : List Value) (index : Nat) (value : Value)
  | remove (values : List Value) (index : Nat) (value : Value)
  | customModel (fields : Fields) (name : String) (data : Option Json)
  | customCollection (values : List Value) (name : String) (data : Option Json)

/-- A call of a hook, of a replica that has had `turn` calls before. -/
structure HookCall where
  rid : String
  replica : Nat
  turn : Nat
  question : Question

def Question.kind : Question → Kind
  | initModel _ | change _ _ | customModel _ _ _ => .model
  | initCollection _ | add _ _ _ | remove _ _ _ | customCollection _ _ _ => .collection

def Question.event? (rid : String) : Question → Option ResourceEvent
  | initModel _ | initCollection _ => none
  | change _ changed => some (.change rid changed)
  | add _ index value => some (.add rid index value)
  | remove _ index value => some (.remove rid index value)
  | customModel _ name data | customCollection _ name data => some (.custom rid name data)

/-- What a hook makes of the event that it is asked about. -/
def Hooks.answer (h : Hooks) (rid : String) (turn : Nat) : Question → Outcome (Option ResourceEvent)
  | .initModel fields => (h.initModel turn fields).2.map fun _ => none
  | .initCollection values => (h.initCollection turn values).2.map fun _ => none
  | .change fields change => (h.change turn fields change).2.map (·.map (.change rid))
  | .add values index value => (h.add turn values index value).2.map fun passed =>
    if passed then some (.add rid index value) else none
  | .remove values index value => (h.remove turn values index value).2.map fun passed =>
    if passed then some (.remove rid index value) else none
  | .customModel fields name data => (h.customModel turn fields name data).2.map fun passed =>
    if passed then some (.custom rid name data) else none
  | .customCollection values name data =>
    (h.customCollection turn values name data).2.map fun passed =>
      if passed then some (.custom rid name data) else none

/-- The hooks of every replica that is made for a resource as one of a kind. -/
def Registry.hooks (registry : Registry) (rid : String) : Kind → Hooks
  | .model => (registry.createModel rid).2
  | .collection => (registry.createCollection rid).2
  | .error => .pass

def Registry.answer (registry : Registry) (call : HookCall) : Outcome (Option ResourceEvent) :=
  (registry.hooks call.rid call.question.kind).answer call.rid call.turn call.question

/-- Factories that differ in the hooks of their replicas only. -/
structure Registry.Twins (r r' : Registry) : Prop where
  model : ∀ rid, (r.createModel rid).1 = (r'.createModel rid).1
  collection : ∀ rid, (r.createCollection rid).1 = (r'.createCollection rid).1

def ResourceEvent.isEnd : ResourceEvent → Bool
  | .unsubscribe _ _ => true
  | _ => false

theorem Hooks.not_isEnd_of_answer {h : Hooks} {rid : String} {turn : Nat} {question : Question}
    {event : ResourceEvent} (hanswer : event ∈ Work.passed (h.answer rid turn question)) :
    event.isEnd = false := by
  cases question with
  | initModel fields =>
    rw [answer, Work.passed_map_none] at hanswer
    cases hanswer
  | initCollection values =>
    rw [answer, Work.passed_map_none] at hanswer
    cases hanswer
  | change fields change =>
    rw [answer] at hanswer
    obtain ⟨_, rfl⟩ := Work.mem_passed_change hanswer
    rfl
  | _ =>
    rw [answer] at hanswer
    rw [Work.mem_passed hanswer]
    rfl

namespace HookCall

def failed (registry : Registry) (call : HookCall) : List CacheError :=
  match registry.answer call with
  | .ok _ => []
  | .error fault => [.handler call.rid fault]

def passed (registry : Registry) (call : HookCall) : List ResourceEvent :=
  Work.passed (registry.answer call)

def turns (calls : List HookCall) (replica : Nat) : List Nat :=
  (calls.filter (·.replica = replica)).map (·.turn)

variable {calls : List HookCall} {registry : Registry}

theorem turns_append (calls more : List HookCall) (replica : Nat) :
    turns (calls ++ more) replica = turns calls replica ++ turns more replica := by
  unfold turns
  rw [List.filter_append, List.map_append]

theorem turns_eq_nil {replica : Nat} (h : ∀ call ∈ calls, call.replica ≠ replica) :
    turns calls replica = [] := by
  unfold turns
  rw [List.filter_eq_nil_iff.mpr fun call hcall => by simpa using h call hcall]
  rfl

theorem not_isEnd_of_passed {call : HookCall} {event : ResourceEvent}
    (h : event ∈ call.passed registry) : event.isEnd = false :=
  Hooks.not_isEnd_of_answer h

end HookCall

namespace Registry

variable {registry registry' : Registry} {batch : Batch} {rid : String} {kind : Kind}

theorem create_eq (registry : Registry) (batch : Batch) (rid : String) (kind : Kind) :
    (registry.create batch rid kind).2 = registry.hooks rid kind := by
  cases kind <;> rfl

theorem Twins.create (h : registry.Twins registry') (batch : Batch) (rid : String) (kind : Kind) :
    (registry.create batch rid kind).1 = (registry'.create batch rid kind).1 := by
  cases kind with
  | model => exact congrArg Content.model (h.model rid)
  | collection => exact congrArg Content.collection (h.collection rid)
  | error => rfl

theorem Quiet.hooks (h : registry.Quiet) (rid : String) (kind : Kind) :
    (registry.hooks rid kind).Quiet := by
  cases kind with
  | model => exact h.model rid
  | collection => exact h.collection rid
  | error => exact Hooks.quiet_pass

end Registry

/-- Factories whose hooks let everything pass. -/
structure Registry.Passing (registry : Registry) : Prop extends registry.Quiet where
  pass : ∀ rid kind turn question,
    (registry.hooks rid kind).answer rid turn question = .ok (question.event? rid)

namespace Store

def replicaOf? (s : Store) (rid : String) : Option Replica := (s.get? rid).bind (·.replica)

def Has (s : Store) : Option String → Replica → Prop
  | some rid, r => s.replicaOf? rid = some r
  | none, r => r ∈ s.retired

def Called (s : Store) (replica turns : Nat) : Prop :=
  (∃ place r, s.Has place r ∧ r.id = replica ∧ r.turn = turns) ∨
    s.nextReplica ≤ replica ∧ turns = 0

/-- Every cached replica has the hooks that its resource is given, and replicas can be told apart by
their numbers. -/
structure Dressed (s : Store) (registry : Registry) : Prop where
  hooks : ∀ {x r}, s.replicaOf? x = some r → r.hooks = registry.hooks x r.content.kind
  numbered : ∀ {place r}, s.Has place r → r.id < s.nextReplica
  distinct : ∀ {place place' r r'}, s.Has place r → s.Has place' r' → r.id = r'.id →
    place = place' ∧ r = r'

/-- The calls are those that have been made since the start: all calls of each replica that there
is, in their order, and no others. -/
structure Served (s : Store) (registry : Registry) (start : Store) (calls : List HookCall) :
    Prop extends s.Dressed registry where
  next : start.nextReplica ≤ s.nextReplica
  turns : ∀ {place r}, s.Has place r → ∃ before, start.Called r.id before ∧
    List.range before ++ HookCall.turns calls r.id = List.range r.turn
  made : ∀ {call}, call ∈ calls → ∃ r, (s.Has (some call.rid) r ∨ s.Has none r) ∧
    r.id = call.replica

variable {s s' start : Store} {registry registry' : Registry} {calls : List HookCall}
  {batch : Batch} {rid x : String} {e : Entry} {r : Replica} {kind : Kind} {place : Option String}

theorem replicaOf?_of_get? (he : s.get? x = some e) : s.replicaOf? x = e.replica := by
  rw [replicaOf?, he, Option.bind_some]

theorem replicaOf?_of_none (he : s.get? x = none) : s.replicaOf? x = none := by
  rw [replicaOf?, he, Option.bind_none]

theorem replicaOf?_congr (h : s'.get? x = s.get? x) : s'.replicaOf? x = s.replicaOf? x := by
  rw [replicaOf?, replicaOf?, h]

theorem replicaOf?_plain (s : Store) (x : String) :
    s.plain.replicaOf? x = (s.replicaOf? x).map Replica.plain := by
  unfold replicaOf?
  rw [get?_plain]
  cases s.get? x <;> rfl

theorem has_congr (hsame : s'.replicaOf? = s.replicaOf?) (hretired : s'.retired = s.retired) :
    s'.Has = s.Has := by
  funext place r
  cases place with
  | some x => exact congrArg (· = some r) (congrFun hsame x)
  | none => exact congrArg (r ∈ ·) hretired

theorem has_modify {f : Entry → Entry} (hf : ∀ e, (f e).replica = e.replica) (s : Store)
    (rid : String) : (s.modify rid f).Has = s.Has := by
  refine has_congr (funext fun x => ?_) rfl
  unfold replicaOf?
  rw [get?_modify]
  split
  · cases s.get? x with
    | none => rfl
    | some e => exact hf e
  · rfl

theorem has_put {e' : Entry} (hreplica : e'.replica = s.replicaOf? rid) :
    (s.put rid e').Has = s.Has := by
  refine has_congr (funext fun x => ?_) rfl
  by_cases hx : rid = x
  · have he : (s.put rid e').get? x = some e' := by rw [get?_put, if_pos hx]
    rw [replicaOf?_of_get? he, hreplica, hx]
  · refine replicaOf?_congr ?_
    rw [get?_put, if_neg hx]

theorem has_obtain (s : Store) (rid : String) :
    (s.obtain rid).2.Has = s.Has ∧ (s.obtain rid).2.nextReplica = s.nextReplica := by
  cases he : s.get? rid with
  | some e =>
    rw [obtain_of_get? he]
    exact ⟨rfl, rfl⟩
  | none =>
    rw [obtain_of_none he]
    exact ⟨has_put (replicaOf?_of_none he).symm, rfl⟩

theorem has_rewrite (hr : s.replicaOf? rid = some r) (r' : Replica) :
    (s.rewrite rid r').Has (some rid) r' := by
  obtain ⟨e, he, _⟩ := Option.bind_eq_some_iff.mp hr
  change (s.rewrite rid r').replicaOf? rid = some r'
  rw [replicaOf?, get?_rewrite, if_pos rfl, he]
  rfl

theorem has_rewrite_of_ne (hne : place ≠ some rid) (r' : Replica) :
    (s.rewrite rid r').Has place r ↔ s.Has place r := by
  cases place with
  | none => exact .rfl
  | some x =>
    have hx : rid ≠ x := fun heq => hne (congrArg some heq.symm)
    change (s.rewrite rid r').replicaOf? x = some r ↔ s.replicaOf? x = some r
    rw [replicaOf?_congr]
    rw [get?_rewrite, if_neg hx]

theorem of_has_rewrite {r' : Replica} (h : (s.rewrite rid r').Has place r) :
    place = some rid ∧ r = r' ∨ place ≠ some rid ∧ s.Has place r := by
  by_cases hplace : place = some rid
  · subst hplace
    have hsome : (s.rewrite rid r').replicaOf? rid = some r := h
    refine .inl ⟨rfl, ?_⟩
    rw [replicaOf?, get?_rewrite, if_pos rfl] at hsome
    cases hget : s.get? rid with
    | none =>
      rw [hget] at hsome
      cases hsome
    | some e =>
      rw [hget] at hsome
      exact (Option.some.inj hsome).symm
  · exact .inr ⟨hplace, (has_rewrite_of_ne hplace r').mp h⟩

theorem of_has_create (he : s.get? rid = some e)
    (h : (s.create registry batch rid kind).Has place r) :
    place = some rid ∧ r = ⟨s.nextReplica, (registry.create batch rid kind).1,
      (registry.create batch rid kind).2, 0⟩ ∨ s.Has place r := by
  cases place with
  | none => exact .inr h
  | some x =>
    have hsome : (s.create registry batch rid kind).replicaOf? x = some r := h
    unfold replicaOf? at hsome
    rw [get?_create he] at hsome
    split at hsome
    · rename_i heq
      exact .inl ⟨congrArg some heq.symm, (Option.some.inj hsome).symm⟩
    · exact .inr hsome

theorem replicaOf?_remove_of_ne (hx : rid ≠ x) : (s.remove rid).replicaOf? x = s.replicaOf? x := by
  refine replicaOf?_congr ?_
  rw [get?_remove, if_neg hx]

theorem of_has_remove (h : (s.remove rid).Has place r) :
    place ≠ some rid ∧ s.Has place r ∨ place = none ∧ s.Has (some rid) r := by
  cases place with
  | none =>
    rcases List.mem_append.mp h with hold | hgone
    · exact .inl ⟨nofun, hold⟩
    · exact .inr ⟨rfl, Option.mem_toList.mp hgone⟩
  | some x =>
    have hsome : (s.remove rid).replicaOf? x = some r := h
    by_cases hx : rid = x
    · rw [replicaOf?, get?_remove, if_pos hx] at hsome
      cases hsome
    · rw [replicaOf?_remove_of_ne hx] at hsome
      exact .inl ⟨fun heq => hx (Option.some.inj heq).symm, hsome⟩

theorem has_none_remove (h : s.Has none r ∨ s.Has (some rid) r) : (s.remove rid).Has none r :=
  List.mem_append.mpr (h.imp_right Option.mem_toList.mpr)

theorem called_of_plain {replica turns : Nat} (h : s.plain = s'.plain)
    (hcalled : s.Called replica turns) : s'.Called replica turns := by
  rcases hcalled with ⟨place, r, hr, hid, hturn⟩ | ⟨hnext, hzero⟩
  · have hthere : ∃ r', s'.Has place r' ∧ r'.plain = r.plain := by
      cases place with
      | some x =>
        have hboth := congrArg (·.replicaOf? x) h
        have hsome : s.replicaOf? x = some r := hr
        simp only [replicaOf?_plain, hsome, Option.map_some] at hboth
        exact Option.map_eq_some_iff.mp hboth.symm
      | none =>
        have hretired : s.retired.map Replica.plain = s'.retired.map Replica.plain :=
          congrArg Store.retired h
        exact List.mem_map.mp (hretired ▸ List.mem_map_of_mem hr)
    obtain ⟨r', hr', hplain⟩ := hthere
    refine .inl ⟨place, r', hr', ?_, ?_⟩
    · exact Eq.trans (congrArg Replica.id hplain :) hid
    · exact Eq.trans (congrArg Replica.turn hplain :) hturn
  · have hsame : s.nextReplica = s'.nextReplica := (congrArg Store.nextReplica h :)
    exact .inr ⟨hsame ▸ hnext, hzero⟩

namespace Dressed

theorem of_has (h : s.Dressed registry) (hhas : s'.Has = s.Has)
    (hnext : s'.nextReplica = s.nextReplica) : s'.Dressed registry := by
  have hback {place : Option String} {r : Replica} (hr : s'.Has place r) : s.Has place r :=
    congrFun (congrFun hhas place) r ▸ hr
  exact ⟨fun {x r} hr => h.hooks (@hback (some x) r hr), fun hr => hnext ▸ h.numbered (hback hr),
    fun hr hr' => h.distinct (hback hr) (hback hr')⟩

theorem served (h : s.Dressed registry) : s.Served registry s [] := by
  refine ⟨h, Nat.le_refl _, fun {place r} hr => ⟨r.turn, .inl ⟨place, r, hr, rfl, rfl⟩, ?_⟩, nofun⟩
  exact List.append_nil _

end Dressed

namespace Served

theorem of_has (h : s.Served registry start calls) (hhas : s'.Has = s.Has)
    (hnext : s'.nextReplica = s.nextReplica) : s'.Served registry start calls := by
  refine ⟨h.toDressed.of_has hhas hnext, hnext ▸ h.next, fun {place r} hr => ?_, fun hcall => ?_⟩
  · rw [hhas] at hr
    exact h.turns hr
  · rw [hhas]
    exact h.made hcall

theorem revised (h : s.Served registry start calls) (hr : s.replicaOf? rid = some r)
    {r' : Replica} {more : List HookCall} (hid : r'.id = r.id)
    (hhooks : r'.hooks = registry.hooks rid r'.content.kind)
    (hmore : ∀ call ∈ more, call.rid = rid ∧ call.replica = r.id)
    (hturn : List.range r.turn ++ HookCall.turns more r.id = List.range r'.turn) :
    (s.rewrite rid r').Served registry start (calls ++ more) := by
  have hhas : s.Has (some rid) r := hr
  have hother {place : Option String} {q : Replica} (hq : s.Has place q)
      (hplace : place ≠ some rid) : q.id ≠ r.id := fun heq => hplace (h.distinct hq hhas heq).1
  refine ⟨⟨fun {x q} hq => ?_, fun {place q} hq => ?_, fun {place place' q q'} hq hq' heq => ?_⟩,
    h.next, fun {place q} hq => ?_, fun {call} hcall => ?_⟩
  · have hhas' : (s.rewrite rid r').Has (some x) q := hq
    rcases of_has_rewrite hhas' with ⟨hplace, rfl⟩ | ⟨_, hold⟩
    · cases hplace
      exact hhooks
    · exact h.hooks hold
  · rcases of_has_rewrite hq with ⟨_, rfl⟩ | ⟨_, hold⟩
    · exact hid ▸ h.numbered hhas
    · exact h.numbered hold
  · rcases of_has_rewrite hq with ⟨rfl, rfl⟩ | ⟨hne, hold⟩
    · rcases of_has_rewrite hq' with ⟨rfl, rfl⟩ | ⟨hne', hold'⟩
      · exact ⟨rfl, rfl⟩
      · exact absurd (heq.symm.trans hid) (hother hold' hne')
    · rcases of_has_rewrite hq' with ⟨rfl, rfl⟩ | ⟨_, hold'⟩
      · exact absurd (heq.trans hid) (hother hold hne)
      · exact h.distinct hold hold' heq
  · rw [HookCall.turns_append]
    rcases of_has_rewrite hq with ⟨_, rfl⟩ | ⟨hne, hold⟩
    · obtain ⟨before, hbefore, hrange⟩ := h.turns hhas
      refine ⟨before, hid ▸ hbefore, ?_⟩
      rw [hid, ← List.append_assoc, hrange, hturn]
    · rw [HookCall.turns_eq_nil fun call hcall heq =>
        hother hold hne (heq.symm.trans (hmore call hcall).2), List.append_nil]
      exact h.turns hold
  · rcases List.mem_append.mp hcall with hold | hnew
    · obtain ⟨q, hq, hnumber⟩ := h.made hold
      by_cases hrid : call.rid = rid
      · rcases hq with hq | hq
        · have hsame := hr.symm.trans (show s.replicaOf? rid = some q from hrid ▸ hq)
          cases hsame
          exact ⟨r', .inl (hrid ▸ has_rewrite hr r'), hid.trans hnumber⟩
        · exact ⟨q, .inr hq, hnumber⟩
      · refine ⟨q, hq.imp_left fun hq => ?_, hnumber⟩
        exact (has_rewrite_of_ne (fun heq => hrid (Option.some.inj heq)) r').mpr hq
    · obtain ⟨hrid, hnumber⟩ := hmore call hnew
      exact ⟨r', .inl (hrid ▸ has_rewrite hr r'), hid.trans hnumber.symm⟩

theorem rewrite (h : s.Served registry start calls) (hr : s.replicaOf? rid = some r)
    {r' : Replica} (hid : r'.id = r.id) (hturn : r'.turn = r.turn)
    (hhooks : r'.hooks = registry.hooks rid r'.content.kind) :
    (s.rewrite rid r').Served registry start calls := by
  have hrevised : (s.rewrite rid r').Served registry start (calls ++ []) :=
    h.revised hr hid hhooks nofun (by rw [hturn]; exact List.append_nil _)
  rwa [List.append_nil] at hrevised

theorem called (h : s.Served registry start calls) (hr : s.replicaOf? rid = some r)
    {r' : Replica} (hid : r'.id = r.id) (hturn : r'.turn = r.turn + 1)
    (hhooks : r'.hooks = registry.hooks rid r'.content.kind) (question : Question) :
    (s.rewrite rid r').Served registry start (calls ++ [⟨rid, r.id, r.turn, question⟩]) := by
  refine h.revised hr hid hhooks (fun call hcall => ?_) ?_
  · rw [List.mem_singleton.mp hcall]
    exact ⟨rfl, rfl⟩
  · rw [hturn, List.range_succ]
    simp [HookCall.turns]

theorem create (h : s.Served registry start []) (he : s.get? rid = some e) (batch : Batch)
    (kind : Kind) : (s.create registry batch rid kind).Served registry start [] := by
  have hnext : (s.create registry batch rid kind).nextReplica = s.nextReplica + 1 := rfl
  have hle := h.next
  refine ⟨⟨fun {x q} hq => ?_, fun {place q} hq => ?_, fun {place place' q q'} hq hq' heq => ?_⟩,
    by omega, fun {place q} hq => ?_, nofun⟩
  · have hhas : (s.create registry batch rid kind).Has (some x) q := hq
    rcases of_has_create he hhas with ⟨hplace, rfl⟩ | hold
    · cases hplace
      dsimp only
      rw [Registry.create_eq, Registry.kind_create]
    · exact h.hooks hold
  · rcases of_has_create he hq with ⟨_, rfl⟩ | hold
    · exact Nat.lt_succ_self _
    · exact Nat.lt_succ_of_lt (h.numbered hold)
  · rcases of_has_create he hq with ⟨rfl, rfl⟩ | hold
    · rcases of_has_create he hq' with ⟨rfl, rfl⟩ | hold'
      · exact ⟨rfl, rfl⟩
      · exact absurd heq.symm (Nat.ne_of_lt (h.numbered hold'))
    · rcases of_has_create he hq' with ⟨rfl, rfl⟩ | hold'
      · exact absurd heq (Nat.ne_of_lt (h.numbered hold))
      · exact h.distinct hold hold' heq
  · rcases of_has_create he hq with ⟨_, rfl⟩ | hold
    · exact ⟨0, .inr ⟨h.next, rfl⟩, rfl⟩
    · exact h.turns hold

theorem remove (h : s.Served registry start calls) (rid : String) :
    (s.remove rid).Served registry start calls := by
  have hback {place : Option String} {q : Replica} (hq : (s.remove rid).Has place q) :
      ∃ place', s.Has place' q :=
    (of_has_remove hq).elim (fun hkept => ⟨place, hkept.2⟩) fun hgone => ⟨some rid, hgone.2⟩
  refine ⟨⟨fun {x q} hq => ?_, fun hq => ?_, fun {place place' q q'} hq hq' heq => ?_⟩, h.next,
    fun hq => ?_, fun {call} hcall => ?_⟩
  · have hhas : (s.remove rid).Has (some x) q := hq
    rcases of_has_remove hhas with ⟨_, hold⟩ | ⟨hplace, _⟩
    · exact h.hooks hold
    · cases hplace
  · obtain ⟨_, hold⟩ := hback hq
    exact h.numbered hold
  · -- what is removed was in one place only
    rcases of_has_remove hq with ⟨hne, hold⟩ | ⟨rfl, hold⟩
    · rcases of_has_remove hq' with ⟨_, hold'⟩ | ⟨_, hold'⟩
      · exact h.distinct hold hold' heq
      · exact absurd (h.distinct hold hold' heq).1 hne
    · rcases of_has_remove hq' with ⟨hne', hold'⟩ | ⟨rfl, hold'⟩
      · exact absurd (h.distinct hold hold' heq).1.symm hne'
      · exact ⟨rfl, (h.distinct hold hold' heq).2⟩
  · obtain ⟨_, hold⟩ := hback hq
    exact h.turns hold
  · obtain ⟨q, hq, hnumber⟩ := h.made hcall
    refine ⟨q, ?_, hnumber⟩
    rcases hq with hq | hq
    · by_cases hrid : call.rid = rid
      · exact .inr (has_none_remove (.inr (hrid ▸ hq)))
      · have hkept : (s.remove rid).replicaOf? call.rid = s.replicaOf? call.rid :=
          replicaOf?_remove_of_ne (Ne.symm hrid)
        exact .inl (hkept.trans hq)
    · exact .inr (has_none_remove (.inl hq))

theorem of_start {start' : Store} (h : s.Served registry start calls)
    (hplain : start.plain = start'.plain) : s.Served registry start' calls := by
  have hnext : start.nextReplica = start'.nextReplica := (congrArg Store.nextReplica hplain :)
  refine ⟨h.toDressed, hnext ▸ h.next, fun {place r} hr => ?_, h.made⟩
  obtain ⟨before, hbefore, hrange⟩ := h.turns hr
  exact ⟨before, called_of_plain hplain hbefore, hrange⟩

end Served

structure Neutral (f : Store → Store) : Prop where
  plain : ∀ s, (f s).plain = f s.plain
  has : ∀ s, (f s).Has = s.Has
  next : ∀ s, (f s).nextReplica = s.nextReplica

namespace Neutral

theorem modify {f : Entry → Entry} (hcomm : ∀ e, (f e).plain = f e.plain)
    (hreplica : ∀ e, (f e).replica = e.replica) (rid : String) : Neutral (·.modify rid f) :=
  ⟨fun s => plain_modify hcomm s rid, fun s => has_modify hreplica s rid, fun _ => rfl⟩

theorem settle (t : Ticket) (outcome : Outcome Unit) : Neutral (·.settle t outcome) :=
  ⟨fun _ => rfl, fun _ => rfl, fun _ => rfl⟩

theorem obtain (rid : String) : Neutral fun s => (s.obtain rid).2 :=
  ⟨fun s => s.plain_ensure rid, fun s => (s.has_obtain rid).1, fun s => (s.has_obtain rid).2⟩

theorem settlePresent (rid : String) : Neutral (·.settlePresent rid) := by
  refine ⟨fun s => ?_, fun s => ?_, fun s => ?_⟩
  · simp only [Store.settlePresent, get?_plain]
    cases s.get? rid <;> rfl
  · unfold Store.settlePresent
    split <;> rfl
  · unfold Store.settlePresent
    split <;> rfl

theorem settleLoaded (rid : String) : Neutral (·.settleLoaded rid) := by
  refine ⟨fun s => ?_, fun s => ?_, fun s => ?_⟩
  · simp only [Store.settleLoaded, get?_plain]
    cases s.get? rid with
    | none => rfl
    | some e =>
      simp only [Option.map_some, Entry.fault?_plain]
      rfl
  · unfold Store.settleLoaded
    split <;> rfl
  · unfold Store.settleLoaded
    split <;> rfl

theorem foldl {tell : Store → String → Store} (h : ∀ x, Neutral (tell · x)) (rids : List String) :
    Neutral fun s => rids.foldl tell s := by
  induction rids with
  | nil => exact ⟨fun _ => rfl, fun _ => rfl, fun _ => rfl⟩
  | cons x rest ih =>
    refine ⟨fun s => ?_, fun s => ?_, fun s => ?_⟩
    · rw [List.foldl_cons, List.foldl_cons, ih.plain, (h x).plain]
    · rw [List.foldl_cons, ih.has, (h x).has]
    · rw [List.foldl_cons, ih.next, (h x).next]

end Neutral

/-- Two stores that differ in their hooks only, and have made the same calls since the start. -/
structure Twins (r r' : Registry) (start : Store) (calls : List HookCall) (s s' : Store) :
    Prop where
  plain : s.plain = s'.plain
  served : s.Served r start calls
  served' : s'.Served r' start calls

namespace Twins

variable {r r' : Registry}

theorem write {f : Store → Store} (h : Twins r r' start calls s s') (hf : Neutral f) :
    Twins r r' start calls (f s) (f s') :=
  ⟨by rw [hf.plain, hf.plain, h.plain], h.served.of_has (hf.has s) (hf.next s),
    h.served'.of_has (hf.has s') (hf.next s')⟩

theorem remove (h : Twins r r' start calls s s') (rid : String) :
    Twins r r' start calls (s.remove rid) (s'.remove rid) :=
  ⟨by rw [plain_remove, plain_remove, h.plain], h.served.remove rid, h.served'.remove rid⟩

theorem foldl_remove (h : Twins r r' start calls s s') (gone : List String) :
    Twins r r' start calls (gone.foldl Store.remove s) (gone.foldl Store.remove s') := by
  induction gone generalizing s s' with
  | nil => exact h
  | cons rid rest ih => exact ih (h.remove rid)

theorem create (h : Twins r r' start [] s s') (htwins : r.Twins r') (hrid : s.get? rid = some e)
    (batch : Batch) (kind : Kind) :
    Twins r r' start [] (s.create r batch rid kind) (s'.create r' batch rid kind) := by
  obtain ⟨e', he', _⟩ := get?_of_plain h.plain hrid
  have hmade (s : Store) (registry : Registry) : (s.create registry batch rid kind).plain =
      { s.plain with nextReplica := s.nextReplica + 1 }.modify rid fun e => { e with
        kind := some kind
        replica := some ⟨s.nextReplica, (registry.create batch rid kind).1, .pass, 0⟩ } :=
    plain_modify (f := fun e => { e with
      kind := some kind
      replica := some ⟨s.nextReplica, (registry.create batch rid kind).1,
        (registry.create batch rid kind).2, 0⟩ }) (fun _ => rfl) _ rid
  have hnext : s.nextReplica = s'.nextReplica := (congrArg Store.nextReplica h.plain :)
  refine ⟨?_, h.served.create hrid batch kind, h.served'.create he' batch kind⟩
  rw [hmade, hmade, h.plain, hnext, htwins.create]

theorem createAll (h : Twins r r' start [] s s') (htwins : r.Twins r') (batch : Batch)
    (incoming : List (String × Kind)) :
    ∃ created synced s₁ s₁', s.createAll r batch incoming = (s₁, created, synced) ∧
      s'.createAll r' batch incoming = (s₁', created, synced) ∧ Twins r r' start [] s₁ s₁' := by
  induction incoming generalizing s s' with
  | nil => exact ⟨[], [], s, s', rfl, rfl, h⟩
  | cons first rest ih =>
    obtain ⟨rid, kind⟩ := first
    have hensured : Twins r r' start [] (s.ensure rid) (s'.ensure rid) := h.write (.obtain rid)
    have hloaded := congr_plain (·.isLoaded rid) (fun s => s.isLoaded_plain rid) hensured.plain
    simp only [Store.createAll, hloaded]
    split
    · obtain ⟨created, synced, s₁, s₁', hrun, hrun', htwin⟩ := ih hensured
      exact ⟨created, (rid, kind) :: synced, s₁, s₁', by rw [hrun], by rw [hrun'], htwin⟩
    · obtain ⟨_, e, he⟩ := grown_ensure s rid
      obtain ⟨created, synced, s₁, s₁', hrun, hrun', htwin⟩ :=
        ih (hensured.create htwins he batch kind)
      exact ⟨rid :: created, synced, s₁, s₁', by rw [hrun], by rw [hrun'], htwin⟩

end Twins

end Store

end LiveResource
