import LiveResource.Proofs.Frames
import LiveResource.Proofs.HookCalls

set_option autoImplicit false

/-!
# What operations tell

An operation that succeeds adds to the events that are to be sent. Edits add what the hook of the
replica makes of them, and only the end of a subscription is told as one: a batch ends none, however
many replicas it brings up to date.
-/

namespace LiveResource

def Content.custom? (name : String) (data : Option Json) : Content → Option Question
  | .model fields => some (.customModel fields name data)
  | .collection values => some (.customCollection values name data)
  | .error _ => none

def Replica.answers (r : Replica) (rid : String) : Option Question → List ResourceEvent
  | none => []
  | some question => Work.passed (r.hooks.answer rid r.turn question)

theorem Replica.not_isEnd_of_answers {r : Replica} {rid : String} {question? : Option Question}
    {event : ResourceEvent} (h : event ∈ r.answers rid question?) : event.isEnd = false := by
  cases question? with
  | none => cases h
  | some question => exact Hooks.not_isEnd_of_answer h

namespace Op

variable {α β γ : Type} {w w' : Work} {rid name : String} {data : Option Json}
  {more later : List ResourceEvent}

def Tells (more : List ResourceEvent) (op : Op α) : Prop :=
  ∀ (w w' : Work) (a : α), op w = .ok a w' → w'.out.events = w.out.events ++ more

namespace Tells

theorem bind {op : Op α} {f : α → Op β} (hop : op.Tells more) (hf : ∀ a, (f a).Tells later) :
    (op >>= f).Tells (more ++ later) := by
  rintro w w' b hrun
  obtain ⟨a, w₁, hfirst, hrest⟩ := bind_eq_ok hrun
  rw [hf a _ _ _ hrest, hop _ _ _ hfirst, List.append_assoc]

theorem pure (a : α) : (Pure.pure a : Op α).Tells [] := by
  rintro w w' b hrun
  cases hrun
  exact (List.append_nil _).symm

theorem throw (err : CacheError) (more : List ResourceEvent) :
    (MonadExcept.throw err : Op α).Tells more := by
  rintro w w' b hrun
  cases hrun

theorem get : (MonadState.get : Op Work).Tells [] := by
  rintro w w' b hrun
  cases hrun
  exact (List.append_nil _).symm

theorem modifyStore (f : Store → Store) : (Op.modifyStore f).Tells [] := by
  rintro w w' b hrun
  cases hrun
  exact (List.append_nil _).symm

theorem orphan (rid : String) : (Op.orphan rid).Tells [] := by
  rintro w w' b hrun
  cases hrun
  exact (List.append_nil _).symm

theorem report (err : CacheError) : (Op.report err).Tells [] := by
  rintro w w' b hrun
  cases hrun
  exact (List.append_nil _).symm

theorem emit (event : ResourceEvent) : (Op.emit event).Tells [event] := by
  rintro w w' b hrun
  cases hrun
  rfl

theorem liftStore (f : Store → Except CacheError α) : (Op.liftStore f).Tells [] := by
  rintro w w' b hrun
  unfold Op.liftStore at hrun
  split at hrun
  · cases hrun
    exact (List.append_nil _).symm
  · cases hrun

theorem forM {l : List γ} {f : γ → Op Unit} (h : ∀ x, (f x).Tells []) : (l.forM f).Tells [] := by
  induction l with
  | nil => exact .pure ()
  | cons x rest ih => exact (h x).bind fun _ => ih

theorem addIndirect (rid : String) : (Op.addIndirect rid).Tells [] :=
  (Tells.liftStore _).bind fun _ => .modifyStore _

theorem removeIndirect (rid : String) : (Op.removeIndirect rid).Tells [] := by
  refine (Tells.liftStore _).bind fun e => ?_
  split
  · exact (Tells.throw _ []).bind fun _ => .modifyStore _
  · exact .modifyStore _

theorem countValue (value : Value) : (Op.countValue value).Tells [] := by
  unfold Op.countValue
  split
  · exact .addIndirect _
  · exact .pure ()

theorem releaseReference (rid : String) : (Op.releaseReference rid).Tells [] := by
  refine (Tells.removeIndirect rid).bind fun _ => (Tells.liftStore _).bind fun e => ?_
  split
  · exact .orphan rid
  · exact .pure ()

theorem releaseValue (value : Value) : (Op.releaseValue value).Tells [] := by
  unfold Op.releaseValue
  split
  · exact .releaseReference _
  · exact .pure ()

theorem releaseAll (rid : String) : (Op.releaseAll rid).Tells [] :=
  (Tells.liftStore _).bind fun _ => .forM fun x => .removeIndirect x

theorem tryDelete (rid : String) : (Op.tryDelete rid).Tells [] := by
  refine Tells.get.bind fun w => ?_
  dsimp only
  split
  · exact .pure []
  · split
    · exact .pure []
    · exact (Tells.forM fun x => .releaseAll x).bind fun _ =>
        (Tells.modifyStore _).bind fun _ => .pure _

theorem verdict (rid : String) (outcome : Outcome Bool) : (Op.judged rid outcome).Tells [] := by
  rcases outcome with fault | passed
  · exact (Tells.report _).bind fun _ => .pure _
  · exact .pure passed

theorem judged (rid : String) (outcome : Outcome Bool) (event : ResourceEvent) :
    (do if ← Op.judged rid outcome then Op.emit event : Op Unit).Tells
      (Work.passed (outcome.map fun passed => if passed then some event else none)) := by
  rintro w w' b hrun
  rw [judged_run] at hrun
  cases hrun
  exact Work.events_noted _

theorem changed (rid : String) (outcome : Outcome (Option Change)) :
    (match outcome with
      | .ok (some change) => Op.emit (.change rid change)
      | .ok none => Pure.pure ()
      | .error fault => Op.report (.handler rid fault) : Op Unit).Tells
      (Work.passed (outcome.map (·.map (.change rid)))) := by
  rcases outcome with fault | _ | change
  · exact .report _
  · exact .pure ()
  · exact .emit _

end Tells

theorem liftStore_eq_ok {f : Store → Except CacheError α} {a : α}
    (h : liftStore f w = .ok a w') : f w.store = .ok a ∧ w' = w := by
  unfold liftStore at h
  split at h
  · rename_i hread
    cases h
    exact ⟨hread, rfl⟩
  · cases h

theorem replica_eq_ok {r : Replica} (h : replica rid w = .ok r w') :
    w.store.replicaOf? rid = some r ∧ w' = w := by
  obtain ⟨hread, rfl⟩ := liftStore_eq_ok h
  refine ⟨?_, rfl⟩
  split at hread
  · rename_i hr
    cases hread
    exact hr
  · cases hread

theorem told_of_applyChange {changes : Fields} (h : applyChange rid changes w = .ok () w') :
    ∃ r fields, w.store.replicaOf? rid = some r ∧ r.content = .model fields ∧
      w'.out.events = w.out.events ++ r.answers rid
        (if (Change.writeAll fields .none changes.entries).2.new.isEmpty then none
        else some (.change (Change.writeAll fields .none changes.entries).1
          (Change.writeAll fields .none changes.entries).2)) := by
  obtain ⟨r, w₁, hread, hrest⟩ := bind_eq_ok h
  obtain ⟨hr, rfl⟩ := replica_eq_ok hread
  cases hcontent : r.content with
  | model fields =>
    refine ⟨r, fields, hr, hcontent, ?_⟩
    simp only [hcontent] at hrest
    split at hrest
    · rename_i hempty
      rw [if_pos hempty]
      exact Tells.pure () _ _ _ hrest
    · rename_i hdiffers
      rw [if_neg hdiffers]
      exact ((Tells.modifyStore _).bind fun _ => (Tells.forM fun v => .countValue v).bind fun _ =>
        (Tells.forM fun v => .releaseValue v).bind fun _ => (Tells.modifyStore _).bind fun _ =>
          .changed rid _) _ _ _ hrest
  | collection values =>
    simp only [hcontent] at hrest
    cases hrest
  | error fault =>
    simp only [hcontent] at hrest
    cases hrest

theorem told_of_applyAdd {index : Nat} {value : Value}
    (h : applyAdd rid index value w = .ok () w') :
    ∃ r values, w.store.replicaOf? rid = some r ∧ r.content = .collection values ∧
      w'.out.events = w.out.events ++
        r.answers rid (some (.add (values.insertIdx index value) index value)) := by
  obtain ⟨r, w₁, hread, hrest⟩ := bind_eq_ok h
  obtain ⟨hr, rfl⟩ := replica_eq_ok hread
  cases hcontent : r.content with
  | collection values =>
    refine ⟨r, values, hr, hcontent, ?_⟩
    simp only [hcontent] at hrest
    split at hrest
    · cases hrest
    · exact ((Tells.modifyStore _).bind fun _ => (Tells.countValue value).bind fun _ =>
        (Tells.modifyStore _).bind fun _ => .judged rid _ _) _ _ _ hrest
  | model fields =>
    simp only [hcontent] at hrest
    cases hrest
  | error fault =>
    simp only [hcontent] at hrest
    cases hrest

theorem told_of_applyRemove {index : Nat} (h : applyRemove rid index w = .ok () w') :
    ∃ r values value, w.store.replicaOf? rid = some r ∧ r.content = .collection values ∧
      values[index]? = some value ∧ w'.out.events = w.out.events ++
        r.answers rid (some (.remove (values.eraseIdx index) index value)) := by
  obtain ⟨r, w₁, hread, hrest⟩ := bind_eq_ok h
  obtain ⟨hr, rfl⟩ := replica_eq_ok hread
  cases hcontent : r.content with
  | collection values =>
    cases hvalue : values[index]? with
    | none =>
      simp only [hcontent, hvalue] at hrest
      cases hrest
    | some value =>
      simp only [hcontent, hvalue] at hrest
      refine ⟨r, values, value, hr, hcontent, hvalue, ?_⟩
      exact ((Tells.modifyStore _).bind fun _ => (Tells.releaseValue value).bind fun _ =>
        (Tells.modifyStore _).bind fun _ => .judged rid _ _) _ _ _ hrest
  | model fields =>
    simp only [hcontent] at hrest
    cases hrest
  | error fault =>
    simp only [hcontent] at hrest
    cases hrest

theorem told_of_applyCustom (h : applyCustom rid name data w = .ok () w') :
    ∃ r, w.store.replicaOf? rid = some r ∧
      w'.out.events = w.out.events ++ r.answers rid (r.content.custom? name data) := by
  obtain ⟨r, w₁, hread, hrest⟩ := bind_eq_ok h
  obtain ⟨hr, rfl⟩ := replica_eq_ok hread
  refine ⟨r, hr, ?_⟩
  cases hcontent : r.content with
  | model fields =>
    simp only [hcontent] at hrest
    exact ((Tells.modifyStore _).bind fun _ => .judged rid _ _) _ _ _ hrest
  | collection values =>
    simp only [hcontent] at hrest
    exact ((Tells.modifyStore _).bind fun _ => .judged rid _ _) _ _ _ hrest
  | error fault =>
    simp only [hcontent] at hrest
    exact Tells.pure () _ _ _ hrest

theorem told_of_endSubscription {reason : Fault} (h : endSubscription rid reason w = .ok () w') :
    w'.out.events = w.out.events ++ [.unsubscribe rid reason] :=
  ((Tells.modifyStore _).bind fun _ => (Tells.tryDelete rid).bind fun _ => .emit _) _ _ _ h

namespace Tells

theorem parseCounted (token : Json) : (Op.parseCounted token).Tells [] :=
  (Tells.liftStore _).bind fun value => (Tells.countValue value).bind fun _ => .pure value

theorem parseFieldsCounted (tokens : List (String × Json)) :
    (Op.parseFieldsCounted tokens).Tells [] := by
  induction tokens with
  | nil => exact .pure []
  | cons entry rest ih =>
    exact (Tells.parseCounted entry.2).bind fun _ => Tells.bind ih fun _ => .pure _

theorem parseValuesCounted (tokens : List Json) : (Op.parseValuesCounted tokens).Tells [] := by
  induction tokens with
  | nil => exact .pure []
  | cons token rest ih =>
    exact (Tells.parseCounted token).bind fun _ => Tells.bind ih fun _ => .pure _

theorem initContent (batch : Batch) (rid : String) : (Op.initContent batch rid).Tells [] := by
  refine (Tells.liftStore _).bind fun r => ?_
  split
  · refine (Tells.parseFieldsCounted _).bind fun fields => ?_
    split
    · exact (Tells.modifyStore _).bind fun _ => (Tells.verdict rid _).bind fun _ => .pure ()
    · exact .pure ()
  · refine (Tells.parseValuesCounted _).bind fun values => ?_
    split
    · exact (Tells.modifyStore _).bind fun _ => (Tells.verdict rid _).bind fun _ => .pure ()
    · exact .pure ()
  · exact .pure ()

theorem initResource (batch : Batch) (rid : String) : (Op.initResource batch rid).Tells [] :=
  (Tells.initContent batch rid).bind fun _ => (Tells.liftStore _).bind fun _ => .modifyStore _

end Tells

def Endless (op : Op α) : Prop :=
  ∀ (w w' : Work) (a : α), op w = .ok a w' →
    w'.out.events.filter (·.isEnd) = w.out.events.filter (·.isEnd)

theorem filter_isEnd_of_told {r : Replica} {question? : Option Question}
    (h : w'.out.events = w.out.events ++ r.answers rid question?) :
    w'.out.events.filter (·.isEnd) = w.out.events.filter (·.isEnd) := by
  have hnone : (r.answers rid question?).filter (·.isEnd) = [] :=
    List.filter_eq_nil_iff.mpr fun event hevent => by
      rw [Replica.not_isEnd_of_answers hevent]
      exact Bool.false_ne_true
  rw [h, List.filter_append, hnone, List.append_nil]

theorem Tells.endless {op : Op α} (h : op.Tells []) : op.Endless := by
  intro w w' a hrun
  rw [h w w' a hrun, List.append_nil]

namespace Endless

theorem bind {op : Op α} {f : α → Op β} (hop : op.Endless) (hf : ∀ a, (f a).Endless) :
    (op >>= f).Endless := by
  intro w w' b hrun
  obtain ⟨a, w₁, hfirst, hrest⟩ := bind_eq_ok hrun
  exact (hf a _ _ _ hrest).trans (hop _ _ _ hfirst)

theorem pure (a : α) : (Pure.pure a : Op α).Endless := (Tells.pure a).endless

theorem forM {l : List γ} {f : γ → Op Unit} (h : ∀ x, (f x).Endless) : (l.forM f).Endless := by
  induction l with
  | nil => exact .pure ()
  | cons x rest ih => exact (h x).bind fun _ => ih

theorem applyChange (rid : String) (changes : Fields) : (Op.applyChange rid changes).Endless := by
  intro w w' _ hrun
  obtain ⟨_, _, _, _, htold⟩ := told_of_applyChange hrun
  exact filter_isEnd_of_told htold

theorem applyEdit (rid : String) (edit : Edit) : (Op.applyEdit rid edit).Endless := by
  intro w w' _ hrun
  cases edit with
  | add index value =>
    obtain ⟨_, _, _, _, htold⟩ := told_of_applyAdd hrun
    exact filter_isEnd_of_told htold
  | remove index =>
    obtain ⟨_, _, _, _, _, _, htold⟩ := told_of_applyRemove hrun
    exact filter_isEnd_of_told htold

theorem synchronize (batch : Batch) (rid : String) (kind : Kind) :
    (Op.synchronize batch rid kind).Endless := by
  refine (Tells.liftStore _).endless.bind fun r => ?_
  split
  · refine (Tells.liftStore _).endless.bind fun fields => ?_
    split
    · dsimp only
      split
      · exact .pure ()
      · exact .applyChange rid _
    · exact .pure ()
  · refine (Tells.liftStore _).endless.bind fun values => ?_
    split
    · exact .forM fun edit => .applyEdit rid edit
    · exact .pure ()
  · exact (Tells.modifyStore _).endless

theorem addResources (registry : Registry) (batch : Batch) :
    (Op.addResources registry batch).Endless := by
  refine (Tells.liftStore _).endless.bind fun _ => (Tells.liftStore _).endless.bind fun _ =>
    Tells.get.endless.bind fun w => ?_
  dsimp only
  exact (Tells.modifyStore _).endless.bind fun _ =>
    (Tells.forM fun x => .initResource batch x).endless.bind fun _ =>
      (Endless.forM fun (rid, kind) => .synchronize batch rid kind).bind fun _ => .pure _

end Endless

end Op

end LiveResource
