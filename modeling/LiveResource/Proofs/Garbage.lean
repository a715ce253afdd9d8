import LiveResource.Proofs.Eviction
import Mathlib.Data.List.Basic

set_option autoImplicit false

/-!
# Garbage

In a store that counts its references exactly, to delete a candidate removes those of the
unsubscribed resources it leads to that nothing else leads to. To collect several candidates one
after the other removes just what would go if they were one candidate, so their order does not
matter: what an early one has to leave to a later one, the later one takes along.
-/

namespace LiveResource

theorem Within.of_leads {next : String → List String} {inside : String → Prop} {a b : String}
    (h : Leads next a b) (hinside : ∀ y, Leads next a y → Leads next y b → inside y) :
    Within next inside a b := by
  induction h with
  | refl => exact .start (hinside a .refl .refl)
  | @tail b c hab hbc ih =>
    have hpath : Within next inside a b := ih fun y hay hyb => hinside y hay (hyb.tail hbc)
    exact .step hpath hbc (hinside c (hab.tail hbc) .refl)

namespace Store

/-- Every entry counts exactly the hard references to its resource, and all of these point to loaded
resources. -/
abbrev Exact (s : Store) : Prop := s.Accounted fun _ => 0

/-- Hard references lead from a loaded candidate to a resource, through unsubscribed ones only. -/
def Exposed (s : Store) (candidates : List String) (x : String) : Prop :=
  ∃ c ∈ candidates, s.isLoaded c = true ∧ s.Suspect c x

/-- A resource of a region to which no cached resource outside of the region leads. -/
def Confined (s : Store) (region : String → Prop) (x : String) : Prop :=
  region x ∧ ∀ z e, s.get? z = some e → ¬ region z → ¬ s.Reaches z x

variable {s : Store} {rid c x z t : String} {e : Entry} {candidates rest gone more : List String}

theorem exists_of_reaches (hx : ∃ e, s.get? x = some e) (h : s.Reaches z x) :
    ∃ e, s.get? z = some e := by
  rcases Relation.ReflTransGen.cases_head h with rfl | ⟨y, hzy, _⟩
  · exact hx
  · obtain ⟨e, he, _⟩ := get?_of_mem_refs hzy
    exact ⟨e, he⟩

theorem mem_of_reaches (region : List String)
    (h : ∀ p ∈ s.entries.entries, ∀ t ∈ p.2.hardRefs, t ∈ region → p.1 ∈ region)
    (hzx : s.Reaches z x) (hx : x ∈ region) : z ∈ region := by
  induction hzx using Relation.ReflTransGen.head_induction_on with
  | refl => exact hx
  | head hab _ ih =>
    obtain ⟨e, he, hmem⟩ := get?_of_mem_refs hab
    exact h _ (Dict.mem_entries_iff.mpr he) _ hmem ih

theorem confined_iff {region : String → Prop} (hregion : ∀ y, region y → s.Idle y) :
    s.Confined region x ↔ region x ∧ ∀ z, s.Reaches z x → region z := by
  refine and_congr_right fun hx => ?_
  constructor
  · intro h z hzx
    obtain ⟨ex, hex, _⟩ := hregion x hx
    obtain ⟨e, he⟩ := exists_of_reaches ⟨ex, hex⟩ hzx
    exact Classical.byContradiction fun hz => h z e he hz hzx
  · intro h z _ _ hz hzx
    exact hz (h z hzx)

theorem Exposed.idle (h : s.Exposed candidates x) : s.Idle x := by
  obtain ⟨_, _, _, hsuspect⟩ := h
  exact hsuspect.idle

theorem mem_doomed_iff_confined (h : s.Exact) : x ∈ s.doomed rid ↔ s.Confined (s.Suspect rid) x := by
  rw [mem_doomed_iff h, confined_iff fun y hy => Suspect.idle hy]
  refine and_congr_right fun _ => forall_congr' fun z => ?_
  constructor
  · intro hout hzx
    exact Classical.byContradiction fun hz => hout (.inl hz) hzx
  · intro hin hz hzx
    exact hz.elim (fun hnot => hnot (hin hzx)) (Nat.lt_irrefl 0)

theorem mem_refs_evict (h : t ∈ (s.evict c).refs z) : z ∉ s.doomed c ∧ t ∈ s.refs z := by
  have hz : z ∉ s.doomed c := fun hmem => by
    obtain ⟨e, he, _⟩ := get?_of_mem_refs h
    rw [get?_evict, if_pos hmem] at he
    cases he
  exact ⟨hz, refs_evict hz ▸ h⟩

theorem idle_evict_iff : (s.evict c).Idle x ↔ x ∉ s.doomed c ∧ s.Idle x := by
  unfold Idle
  rw [get?_evict]
  by_cases hx : x ∈ s.doomed c
  · simp [hx]
  · simp [hx]

theorem isLoaded_evict_iff :
    (s.evict c).isLoaded x = true ↔ x ∉ s.doomed c ∧ s.isLoaded x = true := by
  rw [isLoaded_iff, isLoaded_iff, get?_evict]
  by_cases hx : x ∈ s.doomed c
  · simp [hx]
  · simp [hx]

theorem reaches_of_evict (h : (s.evict c).Reaches z x) : s.Reaches z x := by
  induction h with
  | refl => exact .refl
  | tail _ hab ih => exact ih.tail (mem_refs_evict hab).2

theorem suspect_of_evict (h : (s.evict c).Suspect z x) : s.Suspect z x := by
  induction h with
  | start hz => exact .start (idle_evict_iff.mp hz).2
  | step _ hab hb ih => exact .step ih (mem_refs_evict hab).2 (idle_evict_iff.mp hb).2

theorem suspect_evict (hbacked : s.Backed) (hz : z ∉ s.doomed c) (h : s.Suspect z x) :
    (s.evict c).Suspect z x := by
  induction h with
  | start hidle => exact .start (idle_evict_iff.mpr ⟨hz, hidle⟩)
  | @step a b hza hab hb ih =>
    have ha : a ∉ s.doomed c := not_doomed_of_reaches hbacked hz (Within.leads hza)
    have hb' : b ∉ s.doomed c := not_doomed_of_mem_refs hbacked ha hab
    exact .step ih (refs_evict ha ▸ hab) (idle_evict_iff.mpr ⟨hb', hb⟩)

theorem Exposed.of_evict (h : (s.evict c).Exposed rest x) : s.Exposed (c :: rest) x := by
  obtain ⟨a, ha, hloaded, hsuspect⟩ := h
  exact ⟨a, List.mem_cons_of_mem _ ha, (isLoaded_evict_iff.mp hloaded).2, suspect_of_evict hsuspect⟩

theorem exposed_cons_of_held (h : 0 < s.direct c ∨ s.isLoaded c = false) :
    s.Exposed (c :: rest) x ↔ s.Exposed rest x := by
  constructor
  · rintro ⟨a, ha, hloaded, hsuspect⟩
    rcases List.mem_cons.mp ha with rfl | ha
    · rcases h with hpos | hfalse
      · obtain ⟨e, he, hzero⟩ := Within.inside_start hsuspect
        rw [direct_of_get? he] at hpos
        omega
      · rw [hfalse] at hloaded
        cases hloaded
    · exact ⟨a, ha, hloaded, hsuspect⟩
  · rintro ⟨a, ha, hloaded, hsuspect⟩
    exact ⟨a, List.mem_cons_of_mem _ ha, hloaded, hsuspect⟩

/-- What leads to garbage and survives the first candidate is exposed by a later one. -/
theorem exposed_of_survives (h : s.Exact) (hx : ∀ z, s.Reaches z x → s.Exposed (c :: rest) z)
    (hzx : s.Reaches z x) (hz : z ∉ s.doomed c) : (s.evict c).Exposed rest z := by
  -- something that the first candidate does not lead to keeps what has survived
  obtain ⟨y, hy, hyz⟩ : ∃ y, ¬ s.Suspect c y ∧ s.Reaches y z := by
    by_cases hsuspect : s.Suspect c z
    · apply Classical.byContradiction
      intro hnone
      apply hz
      rw [mem_doomed_iff_confined h, confined_iff fun y hy => Suspect.idle hy]
      exact ⟨hsuspect, fun y hyz => Classical.byContradiction fun hy => hnone ⟨y, hy, hyz⟩⟩
    · exact ⟨z, hsuspect, .refl⟩
  obtain ⟨a, ha, hloaded, hay⟩ := hx y (hyz.trans hzx)
  have ha' : a ∉ s.doomed c := fun hmem => hy (Within.trans (mem_doomed.mp hmem).1 hay)
  have hrest : a ∈ rest := by
    rcases List.mem_cons.mp ha with rfl | hrest
    · exact absurd hay hy
    · exact hrest
  have haz : s.Suspect a z := Within.trans hay (.of_leads hyz fun u _ huz =>
    (hx u (huz.trans hzx)).idle)
  exact ⟨a, hrest, isLoaded_evict_iff.mpr ⟨ha', hloaded⟩, suspect_evict h.backed ha' haz⟩

/-- The garbage of some candidates is what goes with the first one, and the garbage of the others in
what this leaves. -/
theorem confined_cons_iff (h : s.Exact) (hloaded : s.isLoaded c = true) :
    s.Confined (s.Exposed (c :: rest)) x ↔
      x ∈ s.doomed c ∨ (s.evict c).Confined ((s.evict c).Exposed rest) x := by
  rw [confined_iff fun y hy => Exposed.idle hy, confined_iff fun y hy => Exposed.idle hy]
  constructor
  · rintro ⟨_, hreach⟩
    by_cases hx : x ∈ s.doomed c
    · exact .inl hx
    · have hsurvives (z : String) (hzx : (s.evict c).Reaches z x) :
          (s.evict c).Exposed rest z := by
        refine exposed_of_survives h hreach (reaches_of_evict hzx) fun hz => ?_
        rcases Relation.ReflTransGen.cases_head hzx with rfl | ⟨y, hzy, _⟩
        · exact hx hz
        · exact (mem_refs_evict hzy).1 hz
      exact .inr ⟨hsurvives x .refl, hsurvives⟩
  · rintro (hx | ⟨hx, hreach⟩)
    · rw [mem_doomed_iff_confined h, confined_iff fun y hy => Suspect.idle hy] at hx
      have hexposed (z : String) (hz : s.Suspect c z) : s.Exposed (c :: rest) z :=
        ⟨c, List.mem_cons_self, hloaded, hz⟩
      exact ⟨hexposed x hx.1, fun z hzx => hexposed z (hx.2 z hzx)⟩
    · refine ⟨hx.of_evict, fun z hzx => ?_⟩
      by_cases hz : z ∈ s.doomed c
      · exact ⟨c, List.mem_cons_self, hloaded, (mem_doomed.mp hz).1⟩
      · exact (hreach z (reaches_evict h.backed hz hzx)).of_evict

theorem next_foldl_remove (s : Store) (gone : List String) :
    (gone.foldl remove s).nextReplica = s.nextReplica := by
  induction gone generalizing s with
  | nil => rfl
  | cons g gone ih => exact ih (s.remove g)

theorem next_without (s : Store) (gone : List String) :
    (s.without gone).nextReplica = s.nextReplica :=
  next_foldl_remove _ _

theorem retired_foldl_remove (s : Store) (hnodup : gone.Nodup) : (gone.foldl remove s).retired =
    s.retired ++ gone.flatMap fun g => ((s.get? g).bind (·.replica)).toList := by
  induction gone generalizing s with
  | nil => simp
  | cons g gone ih =>
    rw [List.nodup_cons] at hnodup
    have hother : (gone.flatMap fun x => (((s.remove g).get? x).bind (·.replica)).toList) =
        gone.flatMap fun x => ((s.get? x).bind (·.replica)).toList := by
      apply List.flatMap_congr
      intro x hx
      have hne : g ≠ x := fun heq => hnodup.1 (heq ▸ hx)
      rw [get?_remove, if_neg hne]
    rw [List.foldl_cons, ih (s.remove g) hnodup.2, hother, List.flatMap_cons, ← List.append_assoc]
    rfl

theorem retired_without (hnodup : gone.Nodup) : (s.without gone).retired =
    s.retired ++ gone.flatMap fun g => ((s.get? g).bind (·.replica)).toList := by
  rw [without, retired_foldl_remove _ hnodup]
  congr 1
  apply List.flatMap_congr
  intro x _
  rw [get?_lose]
  cases s.get? x <;> rfl

theorem without_without (hnodup : (gone ++ more).Nodup) :
    (s.without gone).without more = s.without (gone ++ more) := by
  obtain ⟨hgone, hmore, hdisjoint⟩ := List.nodup_append.mp hnodup
  have hkept (y : String) (hy : y ∈ more) : y ∉ gone := fun hmem => hdisjoint y hmem y hy rfl
  have hrefs : more.flatMap (s.without gone).refs = more.flatMap s.refs :=
    List.flatMap_congr fun y hy => refs_without (hkept y hy)
  refine ext_get? (fun x => ?_) ?_ ?_ ?_
  · rw [get?_without, get?_without, get?_without, hrefs, List.flatMap_append, List.count_append]
    by_cases hx : x ∈ gone
    · simp [hx]
    · by_cases hx' : x ∈ more
      · simp [hx']
      · simp only [hx, hx', List.mem_append, or_self, if_false, Option.map_map]
        congr 1
        funext e
        simp only [Function.comp_apply, Nat.sub_sub]
  · have hreplicas : (more.flatMap fun g => (((s.without gone).get? g).bind (·.replica)).toList) =
        more.flatMap fun g => ((s.get? g).bind (·.replica)).toList := by
      apply List.flatMap_congr
      intro y hy
      rw [get?_without, if_neg (hkept y hy)]
      cases s.get? y <;> rfl
    rw [retired_without hmore, retired_without hgone, retired_without hnodup, hreplicas,
      List.flatMap_append, List.append_assoc]
  · rw [ledger_without, ledger_without, ledger_without]
  · rw [next_without, next_without, next_without]

/-- In what order resources are left out makes no difference to what is cached. -/
theorem entries_without_of_perm (h : gone.Perm more) :
    (s.without gone).entries = (s.without more).entries := by
  apply Dict.ext_get?
  intro x
  change (s.without gone).get? x = (s.without more).get? x
  have hcount : (gone.flatMap s.refs).count x = (more.flatMap s.refs).count x :=
    (h.flatMap_right s.refs).count_eq x
  rw [get?_without, get?_without, hcount]
  simp only [h.mem_iff]

/-- What stays counts as many references less as are gone with what held them. -/
theorem exists_evict (h : s.Exact) (hnot : x ∉ s.doomed rid) (he : s.get? x = some e) :
    ∃ n, (s.evict rid).get? x = some { e with indirect := n } ∧
      n + ((s.doomed rid).flatMap s.refs).count x = e.indirect := by
  have hreferences := references_evict s rid x
  have hexact := h.exact he
  refine ⟨(s.evict rid).references x, ?_, by omega⟩
  rw [get?_evict, if_neg hnot, he, Option.map_some, hexact]
  congr 2
  omega

theorem exact_of_forall (h : ∀ p ∈ s.entries.entries,
    p.2.indirect = s.references p.1 ∧ ∀ t ∈ p.2.hardRefs, s.isLoaded t = true) : s.Exact := by
  refine ⟨fun he => ?_, fun hpos => absurd hpos (Nat.lt_irrefl 0), fun he ht => ?_⟩
  · exact (h _ (Dict.mem_entries_iff.mpr he)).1
  · exact (h _ (Dict.mem_entries_iff.mpr he)).2 _ ht

def collectionOf (direct indirect : Nat) (loaded : Bool) (targets : List String) : Entry :=
  ⟨some .collection,
    some ⟨0, .collection (targets.map fun t => .hard ⟨t, .collection, 0⟩), .pass, 0⟩,
    loaded, direct, indirect, 0, none, false⟩

/-- Two resources that refer to each other, and to others to which one more candidate and a
subscribed resource refer as well. -/
def knot : Store := ⟨⟨[
    ("a", collectionOf 0 1 true ["b", "m", "n"]),
    ("b", collectionOf 0 1 true ["a"]),
    ("c", collectionOf 0 0 true ["m"]),
    ("d", collectionOf 1 0 true ["n"]),
    ("l", collectionOf 0 0 false []),
    ("m", collectionOf 0 2 true []),
    ("n", collectionOf 0 2 true [])], by decide⟩, [], .empty, 7⟩

theorem exact_knot : knot.Exact := exact_of_forall (by decide)

end Store

namespace Op

open Store

variable {s : Store} {rid : String} {candidates order : List String}

/-- To delete a candidate removes, of the unsubscribed resources that it leads to, those to which
nothing else leads, in whatever order the two passes follow the references of a replica. The other
entries stay as they are, but for the references that are gone. -/
theorem tryDelete_removes_confined (h : s.Exact) (hloaded : s.isLoaded rid = true)
    (hdirect : s.direct rid = 0) (out : Output) :
    ∃ gone s', tryDelete rid ⟨s, out⟩ = .ok gone ⟨s', out⟩ ∧ gone.Pairwise (· < ·) ∧
      (∀ next, (∀ x, (next x).Perm (s.refs x)) → s.doomedAlong next rid = gone) ∧
      (∀ x, x ∈ gone ↔ s.Confined (s.Suspect rid) x) ∧
      (∀ x ∈ gone, s'.get? x = none) ∧ (∀ x, s.get? x = none → s'.get? x = none) ∧
      (∀ x e, x ∉ gone → s.get? x = some e → ∃ n, s'.get? x = some { e with indirect := n } ∧
        n + (gone.flatMap s.refs).count x = e.indirect) ∧
      s'.ledger = s.ledger ∧ s'.Exact := by
  obtain ⟨e, he, hl⟩ := isLoaded_iff.mp hloaded
  have hzero : e.direct = 0 := by rw [← direct_of_get? he, hdirect]
  refine ⟨s.doomed rid, s.evict rid, tryDelete_run h.backed he hzero hl, sorted_doomed s rid,
    fun next hnext => doomedAlong_eq hnext, fun x => mem_doomed_iff_confined h, fun x hx => ?_,
    fun x hnone => ?_, fun x ex hnot hex => exists_evict h hnot hex, ledger_evict s rid,
    accounted_evict h rid⟩
  · rw [get?_evict, if_pos hx]
  · rw [get?_evict, hnone, Option.map_none, ite_self]

/-- Of two that keep each other only the cycle goes, not what another candidate or a subscribed
resource refers to as well. -/
theorem tryDelete_knot : knot.isLoaded "a" = true ∧ knot.direct "a" = 0 ∧
    ∃ gone s', tryDelete "a" ⟨knot, {}⟩ = .ok gone ⟨s', {}⟩ ∧ "a" ∈ gone ∧ "b" ∈ gone ∧
      "m" ∉ gone ∧ "n" ∉ gone := by
  have hloaded : knot.isLoaded "a" = true := by decide
  have hdirect : knot.direct "a" = 0 := by decide
  obtain ⟨gone, s', hrun, _, _, hgone, _⟩ :=
    tryDelete_removes_confined exact_knot hloaded hdirect {}
  have ha : knot.Suspect "a" "a" := .start (by decide)
  have hb : knot.Suspect "a" "b" := .step ha (by decide) (by decide)
  have hcycle (x : String) (hx : x ∈ ["a", "b"]) : knot.Suspect "a" x := by
    simp only [List.mem_cons, List.not_mem_nil, or_false] at hx
    rcases hx with rfl | rfl
    · exact ha
    · exact hb
  have hgoes (x : String) (hx : x ∈ ["a", "b"]) : x ∈ gone :=
    (hgone x).mpr ⟨hcycle x hx, fun z _ _ hz hzx =>
      hz (hcycle z (mem_of_reaches _ (by decide) hzx hx))⟩
  have hc : ¬ knot.Suspect "a" "c" := fun h =>
    absurd (mem_of_reaches ["c"] (by decide) (Within.leads h) (by decide)) (by decide)
  have hd : ¬ knot.Suspect "a" "d" := fun h =>
    absurd (Suspect.idle h) (by decide)
  refine ⟨hloaded, hdirect, gone, s', hrun, hgoes "a" (by decide), hgoes "b" (by decide), ?_, ?_⟩
  · exact fun hm => ((hgone "m").mp hm).2 "c" _ rfl hc (Relation.ReflTransGen.single (by decide))
  · exact fun hn => ((hgone "n").mp hn).2 "d" _ rfl hd (Relation.ReflTransGen.single (by decide))

/-- To collect candidates one after the other is to leave out what only they lead to. -/
theorem collect_run (h : s.Exact) (candidates : List String) (out : Output) :
    ∃ gone, collect candidates ⟨s, out⟩ = .ok () ⟨s.without gone, out⟩ ∧ gone.Nodup ∧
      (∀ x, x ∈ gone ↔ s.Confined (s.Exposed candidates) x) ∧ (s.without gone).Exact := by
  induction candidates generalizing s with
  | nil =>
    have hwithout : s.without [] = s := s.lose_nil
    refine ⟨[], by rw [hwithout]; rfl, .nil, fun x => ?_, by rwa [hwithout]⟩
    constructor
    · intro hx
      cases hx
    · rintro ⟨⟨c, hc, _⟩, _⟩
      cases hc
  | cons c rest ih =>
    rw [collect_cons]
    by_cases hheld : 0 < s.direct c ∨ s.isLoaded c = false
    · -- the candidate stays, so the garbage is that of the others
      have hexposed : s.Exposed (c :: rest) = s.Exposed rest :=
        funext fun x => propext (exposed_cons_of_held hheld)
      have hskip : (tryDelete c >>= fun _ => collect rest) ⟨s, out⟩ = collect rest ⟨s, out⟩ :=
        bind_of_ok _ (tryDelete_of_held hheld)
      obtain ⟨gone, hrun, hgone⟩ := ih h
      rw [hexposed]
      refine ⟨gone, Eq.trans ?_ hrun, hgone⟩
      cases he : s.get? c with
      | none => rfl
      | some e =>
        by_cases hzero : e.direct = 0
        · simp only [hzero, if_true]
          exact hskip
        · simp only [hzero, if_false]
    · rw [not_or, Bool.not_eq_false] at hheld
      obtain ⟨hdirect, hloaded⟩ := hheld
      obtain ⟨e, he, hl⟩ := isLoaded_iff.mp hloaded
      have hzero : e.direct = 0 := by
        rw [direct_of_get? he] at hdirect
        omega
      obtain ⟨gone, hrun, hnodup, hgone, hexact⟩ := ih (accounted_evict h c)
      have hdisjoint (x : String) (hx : x ∈ gone) : x ∉ s.doomed c :=
        (idle_evict_iff.mp ((hgone x).mp hx).1.idle).1
      have hboth : (s.doomed c ++ gone).Nodup :=
        List.nodup_append.mpr ⟨nodup_doomed s c, hnodup, fun x hx y hy heq =>
          hdisjoint y hy (heq ▸ hx)⟩
      have hleft : (s.evict c).without gone = s.without (s.doomed c ++ gone) :=
        without_without hboth
      refine ⟨s.doomed c ++ gone, ?_, hboth, fun x => ?_, hleft ▸ hexact⟩
      · simp only [he, hzero, if_true]
        rw [bind_of_ok _ (tryDelete_run h.backed he hzero hl), hrun, hleft]
      · rw [List.mem_append, hgone, confined_cons_iff h hloaded]

/-- To collect candidates removes what only they lead to, whether they come in this or in another
order, once or repeatedly. -/
theorem collect_removes_confined (h : s.Exact) (candidates : List String) (out : Output) :
    ∃ s', collect candidates ⟨s, out⟩ = .ok () ⟨s', out⟩ ∧
      (∀ x, s.Confined (s.Exposed candidates) x → s'.get? x = none) ∧
      (∀ x, s.get? x = none → s'.get? x = none) ∧
      (∀ x e, s.get? x = some e → ¬ s.Confined (s.Exposed candidates) x →
        ∃ n, s'.get? x = some { e with indirect := n }) ∧
      s'.ledger = s.ledger ∧ s'.Exact ∧
      ∀ order : List String, (∀ x, x ∈ order ↔ x ∈ candidates) →
        ∃ s'', collect order ⟨s, out⟩ = .ok () ⟨s'', out⟩ ∧ s''.entries = s'.entries ∧
          s''.ledger = s'.ledger ∧ s''.nextReplica = s'.nextReplica ∧
          s''.retired.Perm s'.retired := by
  obtain ⟨gone, hrun, hnodup, hgone, hexact⟩ := collect_run h candidates out
  refine ⟨s.without gone, hrun, fun x hx => ?_, fun x hnone => ?_, fun x e he hx => ?_,
    ledger_without s gone, hexact, fun order horder => ?_⟩
  · rw [get?_without, if_pos ((hgone x).mpr hx)]
  · rw [get?_without, hnone, Option.map_none, ite_self]
  · refine ⟨e.indirect - (gone.flatMap s.refs).count x, ?_⟩
    rw [get?_without, if_neg fun hmem => hx ((hgone x).mp hmem), he, Option.map_some]
  · obtain ⟨gone', hrun', hnodup', hgone', _⟩ := collect_run h order out
    have hexposed : s.Exposed order = s.Exposed candidates := by
      funext x
      simp only [Exposed, horder]
    have hperm : gone'.Perm gone :=
      (List.perm_ext_iff_of_nodup hnodup' hnodup).mpr fun x => by rw [hgone', hgone, hexposed]
    refine ⟨s.without gone', hrun', entries_without_of_perm hperm, ?_, ?_, ?_⟩
    · rw [ledger_without, ledger_without]
    · rw [next_without, next_without]
    · rw [retired_without hnodup', retired_without hnodup]
      exact (hperm.flatMap_right _).append_left _

/-- What two candidates refer to goes with the second of them, but not what a subscribed resource
refers to. -/
theorem collect_knot : knot.Exact ∧
    ∃ s', collect ["a", "c", "a", "x", "l", "d"] ⟨knot, {}⟩ = .ok () ⟨s', {}⟩ ∧
      s'.get? "m" = none ∧ s'.get? "n" ≠ none ∧
      ∃ s'', collect ["d", "c", "l", "x", "a"] ⟨knot, {}⟩ = .ok () ⟨s'', {}⟩ ∧
        s''.entries = s'.entries := by
  obtain ⟨s', hrun, hgone, _, hkept, _, _, horder⟩ :=
    collect_removes_confined exact_knot ["a", "c", "a", "x", "l", "d"] {}
  have ha : knot.Suspect "a" "a" := .start (by decide)
  have hc : knot.Suspect "c" "c" := .start (by decide)
  have hexposed (x : String) (hx : x ∈ ["a", "b", "c", "m"]) :
      knot.Exposed ["a", "c", "a", "x", "l", "d"] x := by
    simp only [List.mem_cons, List.not_mem_nil, or_false] at hx
    rcases hx with rfl | rfl | rfl | rfl
    · exact ⟨"a", by decide, by decide, ha⟩
    · exact ⟨"a", by decide, by decide, .step ha (by decide) (by decide)⟩
    · exact ⟨"c", by decide, by decide, hc⟩
    · exact ⟨"c", by decide, by decide, .step hc (by decide) (by decide)⟩
  have hd : ¬ knot.Exposed ["a", "c", "a", "x", "l", "d"] "d" := fun h =>
    absurd h.idle (by decide)
  obtain ⟨s'', hrun', hentries, _⟩ := horder ["d", "c", "l", "x", "a"] (by grind)
  refine ⟨exact_knot, s', hrun, hgone "m" ⟨hexposed "m" (by decide), fun z _ _ hz hzm =>
    hz (hexposed z (mem_of_reaches _ (by decide) hzm (by decide)))⟩, ?_, s'', hrun', hentries⟩
  obtain ⟨n, hn⟩ := hkept "n" _ rfl fun h =>
    h.2 "d" _ rfl hd (Relation.ReflTransGen.single (by decide))
  rw [hn]
  simp

end Op

end LiveResource
