import LiveResource.Proofs.Garbage
import LiveResource.Proofs.Operations

set_option autoImplicit false

/-!
# What a change event tells

A change of a model, asked for by a server or found against a snapshot, is told as the difference
that it makes: the fields by which the model differs from what it was, with their values before and
after. So it can be undone as well as repeated. The reference counts move by the same difference.
-/

namespace LiveResource

namespace Change

/-- A change tells two states of a model apart: for just the keys on which they differ it has the
value before and the value after, or the mark of a deletion where there is none. -/
structure Between (change : Change) (f g : Fields) : Prop where
  new : ∀ k, change.new.get? k =
    if f.get? k == g.get? k then Option.none else some ((g.get? k).getD .delete)
  old : ∀ k, change.old.get? k =
    if f.get? k == g.get? k then Option.none else some ((f.get? k).getD .delete)

def inverse (change : Change) : Change := ⟨change.old, change.new⟩

variable {fields changes : Fields} {change : Change} {k : String} {value : Value}

theorem overwritten_of_same {old : Option Value} (h : (old.getD .delete == value) = true) :
    overwritten old value = old :=
  if_pos h

theorem overwritten_of_differs {old : Option Value} (h : (old.getD .delete == value) = false) :
    overwritten old value = if value.isDelete then Option.none else some value := by
  rw [overwritten, h]
  exact if_neg Bool.false_ne_true

theorem getD_overwritten {old : Option Value} (h : (old.getD .delete == value) = false) :
    (overwritten old value).getD .delete = value := by
  rw [overwritten_of_differs h]
  cases hdelete : value.isDelete with
  | true => exact (Value.eq_delete_of_isDelete hdelete).symm
  | false => rfl

/-- Just a value that differs from what was there makes a difference. -/
theorem beq_overwritten (old : Option Value) (value : Value) :
    (old == overwritten old value) = (old.getD .delete == value) := by
  cases hsame : (old.getD .delete == value) with
  | true =>
    rw [overwritten_of_same hsame]
    exact BEq.rfl
  | false =>
    rw [overwritten_of_differs hsame]
    cases hdelete : value.isDelete with
    | true =>
      cases old with
      | none =>
        rw [Value.eq_delete_of_isDelete hdelete] at hsame
        cases hsame
      | some u => rfl
    | false =>
      cases old with
      | none => rfl
      | some u => exact hsame

theorem get?_writeAll_changes (fields changes : Fields) (k : String) :
    (writeAll fields .none changes.entries).1.get? k = match changes.get? k with
      | some value => overwritten (fields.get? k) value
      | Option.none => fields.get? k :=
  get?_writeAll changes.sorted k

theorem get?_writeAll_of_none (h : changes.get? k = Option.none) :
    (writeAll fields .none changes.entries).1.get? k = fields.get? k := by
  rw [get?_writeAll_changes, h]

theorem getD_writeAll (h : changes.get? k = some value) :
    (((writeAll fields .none changes.entries).1.get? k).getD .delete == value) = true := by
  rw [get?_writeAll_changes, h]
  cases hsame : ((fields.get? k).getD .delete == value) with
  | true =>
    dsimp only
    rw [overwritten_of_same hsame, hsame]
  | false =>
    dsimp only
    rw [getD_overwritten hsame]
    exact BEq.rfl

theorem get?_writeAll_of_beq
    (h : (fields.get? k == (writeAll fields .none changes.entries).1.get? k) = true) :
    (writeAll fields .none changes.entries).1.get? k = fields.get? k := by
  rw [get?_writeAll_changes] at h ⊢
  cases hvalue : changes.get? k with
  | none => rfl
  | some value =>
    simp only [hvalue, beq_overwritten] at h
    exact overwritten_of_same h

theorem notes_writeAll (fields changes : Fields) (k : String) :
    ((writeAll fields .none changes.entries).2.new.get? k,
      (writeAll fields .none changes.entries).2.old.get? k) =
    if fields.get? k == (writeAll fields .none changes.entries).1.get? k then
      (Option.none, Option.none)
    else (some (((writeAll fields .none changes.entries).1.get? k).getD .delete),
      some ((fields.get? k).getD .delete)) := by
  have hnotes : _ = match changes.get? k with
      | some value =>
        if (fields.get? k).getD .delete == value then (Option.none, Option.none)
        else (some value, some ((fields.get? k).getD .delete))
      | Option.none => (Option.none, Option.none) := get?_notes changes.sorted fields .none k
  rw [hnotes, get?_writeAll_changes]
  cases hvalue : changes.get? k with
  | none => exact (if_pos BEq.rfl).symm
  | some value =>
    simp only [beq_overwritten]
    cases hsame : ((fields.get? k).getD .delete == value) with
    | true => rfl
    | false => simp only [getD_overwritten hsame]

theorem between_writeAll (fields changes : Fields) :
    (writeAll fields .none changes.entries).2.Between fields
      (writeAll fields .none changes.entries).1 := by
  refine ⟨fun k => ?_, fun k => ?_⟩
  · exact (congrArg Prod.fst (notes_writeAll fields changes k)).trans (apply_ite Prod.fst _ _ _)
  · exact (congrArg Prod.snd (notes_writeAll fields changes k)).trans (apply_ite Prod.snd _ _ _)

/-- Setting what a change has noted as old gives back the fields that were there. -/
theorem inverse_onto_writeAll (hclean : (Content.model fields).Clean) :
    (writeAll fields .none changes.entries).2.inverse.onto
      (writeAll fields .none changes.entries).1 = fields := by
  apply Dict.ext_get?
  intro k
  have hold : Dict.lookup k (writeAll fields .none changes.entries).2.inverse.new.entries = _ :=
    (between_writeAll fields changes).old k
  unfold onto
  rw [get?_foldl_onto (Dict.sorted _), hold]
  cases hsame : (fields.get? k == (writeAll fields .none changes.entries).1.get? k) with
  | true => exact get?_writeAll_of_beq hsame
  | false =>
    cases hk : fields.get? k with
    | none => rfl
    | some u =>
      have hu : u ≠ .delete := fun heq => hclean k (heq ▸ hk)
      simp [Value.isDelete_of_ne hu]

/-- Nothing is noted just if the fields are equal to those that were there. -/
theorem isEmpty_new_writeAll (fields changes : Fields) :
    (writeAll fields .none changes.entries).2.new.isEmpty =
      (fields == (writeAll fields .none changes.entries).1) := by
  cases hempty : (writeAll fields .none changes.entries).2.new.isEmpty with
  | true =>
    rw [fields_writeAll_of_isEmpty hempty]
    exact ((Dict.beq_iff_map Value.beq_iff_normal fields fields).mpr rfl).symm
  | false =>
    symm
    apply Bool.eq_false_iff.mpr
    intro hsame
    have hnone (k : String) :
        (writeAll fields .none changes.entries).2.new.get? k = Option.none := by
      rw [(between_writeAll fields changes).new k, Dict.get?_beq_get? Value.beq_iff_normal hsame k]
      rfl
    have hnil : (writeAll fields .none changes.entries).2.new = ∅ := Dict.ext_get? hnone
    rw [hnil] at hempty
    cases hempty

end Change

namespace Store

variable {s : Store} {rid : String} {e : Entry}

theorem Exact.covers (h : s.Exact) (he : s.get? rid = some e) : s.Covers e.hardRefs := by
  intro t ht
  obtain ⟨et, het, _⟩ := isLoaded_iff.mp (h.closed he ht)
  refine ⟨et, het, ?_⟩
  rw [h.exact het]
  exact Dict.weight_le_total (fun _ e => e.hardRefs.count t) he

end Store

theorem Work.indirect_edited {w : Work} {rid x : String} {e ex : Entry} (r : Replica)
    (content : Content) {gained lost : List String} (hcovers : (w.store.gain gained).Covers lost)
    (he : w.store.get? rid = some e) (hx : w.store.get? x = some ex) :
    ∃ ex', (w.edited rid r content gained lost).store.get? x = some ex' ∧
      ex'.indirect + lost.count x = ex.indirect + gained.count x := by
  have hle : lost.count x ≤ ex.indirect + gained.count x := by
    by_cases hmem : x ∈ lost
    · obtain ⟨ec, hec, hle⟩ := hcovers x hmem
      rw [Store.get?_gain, hx, Option.map_some, Option.some.injEq] at hec
      rwa [← hec] at hle
    · rw [List.count_eq_zero.mpr hmem]
      exact Nat.zero_le _
  rw [store_edited he, Store.get?_exchange]
  by_cases hrid : rid = x
  · subst hrid
    cases he.symm.trans hx
    refine ⟨_, if_pos rfl, ?_⟩
    dsimp only
    omega
  · rw [if_neg hrid, hx]
    refine ⟨_, rfl, ?_⟩
    dsimp only
    omega

namespace Op

open Store

/-- Changes of a model: a change event, once what it embeds is merged, writes the values that it
carries, and a snapshot writes what differs. -/
inductive Changes (s : Store) (rid : String) (f : Fields) : Op Unit → Fields → Prop
  | event {data : Option Json} {tokens : List (String × Json)} {changes : Fields}
      (htokens : (Dict.lookup "values" (membersOf data)).bind Json.members? = some tokens)
      (hparse : s.parseChanges tokens = .ok changes) :
      Changes s rid f (applyNamed rid (some .model) "change" data) changes
  | snapshot {batch : Batch} {snapshot : Fields}
      (hparse : s.parseFields ((batch.models.get? rid).getD ∅) = .ok snapshot) :
      Changes s rid f (synchronize batch rid .model) (diffModel f snapshot)

variable {s : Store} {rid : String} {e : Entry} {r : Replica} {f changes : Fields} {op : Op Unit}

theorem Changes.reads (h : Changes s rid f op changes) : ∀ v ∈ changes.values, s.Reads v := by
  cases h with
  | event _ hparse => exact reads_of_parseChanges hparse
  | snapshot hparse =>
    intro v hv
    rcases mem_values_diffModel hv with hmem | rfl
    · exact reads_of_parseFields hparse v hmem
    · exact nofun

theorem applyChange_empty {w : Work} (he : w.store.get? rid = some e) (hr : e.replica = some r)
    (hmodel : r.content = .model f) (hempty : changes.isEmpty = true) :
    applyChange rid changes w = .ok () w := by
  apply applyChange_run_of_isEmpty he hr hmodel
  rw [List.isEmpty_iff.mp hempty]
  rfl

theorem Changes.run (h : Changes s rid f op changes) (he : s.get? rid = some e)
    (hr : e.replica = some r) (hmodel : r.content = .model f) (out : Output) :
    op ⟨s, out⟩ = applyChange rid changes ⟨s, out⟩ := by
  cases h with
  | @event data tokens changes htokens hparse =>
    have hneed : need rid "change" .missingValues
        ((Dict.lookup "values" (membersOf data)).bind Json.members?) ⟨s, out⟩ =
          .ok tokens ⟨s, out⟩ := by
      rw [htokens]
      rfl
    have hlift : liftStore (·.parseChanges tokens) ⟨s, out⟩ = .ok changes ⟨s, out⟩ :=
      liftStore_of_ok hparse
    unfold applyNamed
    simp only [if_true]
    rw [bind_of_ok _ hneed, bind_of_ok _ hlift]
  | @snapshot batch snapshot hparse =>
    have hlift : liftStore (·.parseFields ((batch.models.get? rid).getD ∅)) ⟨s, out⟩ =
        .ok snapshot ⟨s, out⟩ := liftStore_of_ok hparse
    rw [synchronize, bind_of_ok _ (replica_of_get? he hr)]
    simp only
    rw [bind_of_ok _ hlift]
    simp only [hmodel]
    cases hempty : (diffModel f snapshot).isEmpty with
    | true => exact (applyChange_empty he hr hmodel hempty).symm
    | false => rfl

theorem applyChange_told (h : s.Exact) (he : s.get? rid = some e) (hr : e.replica = some r)
    (hmodel : r.content = .model f) (hhooks : r.hooks.Transparent)
    (hreads : ∀ v ∈ changes.values, s.Reads v)
    {g : Fields} {change : Change} (hwrite : Change.writeAll f .none changes.entries = (g, change))
    (out : Output) :
    ∃ s' out', applyChange rid changes ⟨s, out⟩ = .ok () ⟨s', out'⟩ ∧
      s'.content? rid = some (.model g) ∧ out'.errors = out.errors ∧
      ((f == g) = true ∧ out'.events = out.events ∨
        (f == g) = false ∧ out'.events = out.events ++ [.change rid change]) ∧
      ∀ x ex, s.get? x = some ex → ∃ ex', s'.get? x = some ex' ∧
        ex'.indirect + (hardRefs f.values).count x = ex.indirect + (hardRefs g.values).count x := by
  have hempty : change.new.isEmpty = (f == g) := by
    have hnone := Change.isEmpty_new_writeAll f changes
    rwa [hwrite] at hnone
  have hbalanced (t : String) : (hardRefs g.values).count t + (hardRefs change.old.values).count t =
      (hardRefs f.values).count t + (hardRefs change.new.values).count t := by
    have hcount := Change.balanced_writeAll f changes t
    rwa [hwrite] at hcount
  have hnew (t : String) (ht : t ∈ hardRefs change.new.values) : ∃ et, s.get? t = some et := by
    have hwritten : t ∈ hardRefs (Change.writeAll f .none changes.entries).2.new.values := by
      rwa [hwrite]
    obtain ⟨et, het, _⟩ := hasReplica_iff.mp
      (hasReplica_of_reads hreads t (Change.mem_hardRefs_new hwritten))
    exact ⟨et, het⟩
  cases hsame : (f == g) with
  | true =>
    have hnone : (Change.writeAll f .none changes.entries).2.new.isEmpty = true := by
      rw [hwrite]
      exact hempty.trans hsame
    have hunchanged : g = f := by rw [← Change.fields_writeAll_of_isEmpty hnone, hwrite]
    subst hunchanged
    refine ⟨s, out, applyChange_run_of_isEmpty he hr hmodel hnone, ?_, rfl, .inl ⟨rfl, rfl⟩,
      fun x ex hx => ⟨ex, hx, rfl⟩⟩
    rw [content?_of_get? he hr, hmodel]
  | false =>
    have hheld : e.hardRefs = hardRefs f.values := by
      rw [Entry.hardRefs_of_replica hr, Replica.hardRefs, hmodel]
      rfl
    have hcovers : (s.gain (hardRefs change.new.values)).Covers (hardRefs change.old.values) :=
      (Exact.covers h he).gain hnew fun t => by
        have hcount := hbalanced t
        rw [hheld]
        omega
    have hrun := applyChange_run (w := ⟨s, out⟩) he hr hmodel hhooks.toQuiet hwrite
      (hempty.trans hsame) hnew hcovers
    rw [hhooks.passChange] at hrun
    refine ⟨_, _, hrun, Work.content?_edited r _ _ _ he, rfl, .inr ⟨rfl, rfl⟩, fun x ex hx => ?_⟩
    obtain ⟨ex', hex', hindirect⟩ :=
      Work.indirect_edited (w := ⟨s, out⟩) r (.model g) hcovers he hx
    refine ⟨ex', hex', ?_⟩
    have hcount := hbalanced x
    omega

/-- A change of a model is told by just one event, which has the values before and after for just
the fields that it makes a difference to, or by none. Either way the fields are as it says, and
the counts have moved by the references that came and went. -/
theorem change_tells_difference (h : s.Exact) (he : s.get? rid = some e)
    (hr : e.replica = some r) (hmodel : r.content = .model f) (hclean : (Content.model f).Clean)
    (hhooks : r.hooks.Transparent) (hop : Changes s rid f op changes) (out : Output) :
    ∃ g s' out', op ⟨s, out⟩ = .ok () ⟨s', out'⟩ ∧
      applyChange rid changes ⟨s, out⟩ = .ok () ⟨s', out'⟩ ∧
      s'.content? rid = some (.model g) ∧ (Content.model g).Clean ∧ out'.errors = out.errors ∧
      ((f == g) = true ∧ out'.events = out.events ∨
        (f == g) = false ∧ ∃ change, out'.events = out.events ++ [.change rid change] ∧
          change.Between f g ∧ change.onto f = g ∧ change.inverse.onto g = f) ∧
      (∀ k v, changes.get? k = some v → ((g.get? k).getD .delete == v) = true) ∧
      (∀ k, changes.get? k = none → g.get? k = f.get? k) ∧
      (∀ tokens snapshot, s.parseFields tokens = .ok snapshot → changes = diffModel f snapshot →
        (g == snapshot) = true) ∧
      ∀ x ex, s.get? x = some ex → ∃ ex', s'.get? x = some ex' ∧
        ex'.indirect + (hardRefs f.values).count x = ex.indirect + (hardRefs g.values).count x := by
  rw [hop.run he hr hmodel out]
  obtain ⟨s', out', hrun, hcontent, herrors, htold, hcounts⟩ :=
    applyChange_told h he hr hmodel hhooks hop.reads rfl out
  refine ⟨_, s', out', hrun, hrun, hcontent, Change.writeAll_clean hclean, herrors, ?_,
    fun k v => Change.getD_writeAll, fun k => Change.get?_writeAll_of_none,
    fun tokens snapshot hparse hdiff => ?_, hcounts⟩
  · exact htold.imp_right fun ⟨hdiffers, hevents⟩ => ⟨hdiffers, _, hevents,
      Change.between_writeAll f changes, Change.onto_writeAll f changes,
      Change.inverse_onto_writeAll hclean⟩
  · subst hdiff
    exact Change.writeAll_diffModel hclean (clean_of_parseFields hparse)

def looped : Fields := ⟨[("lost", .hard ⟨"x", .collection, 0⟩), ("n", .number (.int 1)),
  ("own", .hard ⟨"m", .model, 1⟩)], by decide⟩

def loopedStore : Store := ⟨⟨[
    ("m", ⟨some .model, some ⟨1, .model looped, .pass, 0⟩, true, 1, 1, 0, none, false⟩),
    ("x", collectionOf 0 1 true [])], by decide⟩, [], .empty, 2⟩

def rewiring : List (String × Json) :=
  [("lost", .obj [("action", .str "delete")]), ("n", .num (.int 1)),
    ("own", .obj [("rid", .str "x")]), ("there", .obj [("rid", .str "m")])]

def rewired : Fields := ⟨[("lost", .delete), ("n", .number (.int 1)),
  ("own", .hard ⟨"x", .collection, 0⟩), ("there", .hard ⟨"m", .model, 1⟩)], by decide⟩

theorem change_tells_difference_looped : loopedStore.Exact ∧ ∃ s' out' change,
    applyNamed "m" (some .model) "change" (some (.obj [("values", .obj rewiring)]))
      ⟨loopedStore, {}⟩ = .ok () ⟨s', out'⟩ ∧ out'.events = [.change "m" change] ∧
    change.new.get? "lost" = some .delete ∧
    change.old.get? "lost" = some (.hard ⟨"x", .collection, 0⟩) := by
  have hexact : loopedStore.Exact := exact_of_forall (by decide)
  have hclean : (Content.model looped).Clean := fun k hk =>
    absurd (Dict.mem_values_of_get? hk) (by simp [looped, Dict.values])
  have hparse : loopedStore.parseChanges rewiring = .ok rewired := by rfl
  have hop : Changes loopedStore "m" looped (applyNamed "m" (some .model) "change"
      (some (.obj [("values", .obj rewiring)]))) rewired := .event rfl hparse
  obtain ⟨g, s', out', hrun, _, _, hclean', _, htold, hset, _⟩ :=
    change_tells_difference hexact rfl rfl rfl hclean Hooks.transparent_pass hop {}
  -- the field is gone, for it is deleted and no field holds a deletion mark
  have hgone : g.get? "lost" = none := by
    have hlost := hset "lost" .delete rfl
    cases hg : g.get? "lost" with
    | none => rfl
    | some v =>
      rw [hg, Option.getD_some, Value.beq_delete fun heq => hclean' "lost" (heq ▸ hg)] at hlost
      cases hlost
  have hdiffers : (looped.get? "lost" == g.get? "lost") = false := by rw [hgone]; rfl
  rcases htold with ⟨hsame, _⟩ | ⟨_, change, hevents, hbetween, _⟩
  · rw [Dict.get?_beq_get? Value.beq_iff_normal hsame "lost"] at hdiffers
    cases hdiffers
  · refine ⟨hexact, s', out', change, hrun, hevents, ?_, ?_⟩
    · rw [hbetween.new, hdiffers, hgone]
      rfl
    · rw [hbetween.old, hdiffers]
      rfl

end Op

end LiveResource
