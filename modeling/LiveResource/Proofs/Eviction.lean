import LiveResource.Proofs.Passes
import LiveResource.Proofs.References
import Mathlib.Data.List.Perm.Basic

set_option autoImplicit false

/-!
# What eviction removes

A candidate without subscriptions takes along whatever only it keeps: of the unsubscribed resources
it leads to, those that nothing else leads to. What is left counts its references exactly again,
and is still kept by the same roots, without the candidate. A store that counts too many references
keeps more, but what stays never refers to anything that goes.
-/

namespace LiveResource

namespace Store

/-- Every entry counts the references to its resource and `extra` more, and what is referenced or
counted too much is loaded. -/
structure Accounted (extra : String → Nat) (s : Store) : Prop where
  balance : ∀ {rid e}, s.get? rid = some e → e.indirect = s.references rid + extra rid
  resident : ∀ {rid}, 0 < extra rid → s.isLoaded rid = true
  closed : ∀ {rid e t}, s.get? rid = some e → t ∈ e.hardRefs → s.isLoaded t = true

/-- Every entry counts the references to its resource at least, and what is referenced is loaded. -/
structure Backed (s : Store) : Prop where
  enough : ∀ {rid e}, s.get? rid = some e → s.references rid ≤ e.indirect
  closed : ∀ {rid e t}, s.get? rid = some e → t ∈ e.hardRefs → s.isLoaded t = true

def Idle (s : Store) (rid : String) : Prop := ∃ e, s.get? rid = some e ∧ e.direct = 0

/-- Hard references lead from a candidate to a resource through unsubscribed ones only. -/
def Suspect (s : Store) (rid : String) : String → Prop := Within s.refs s.Idle rid

open Classical in
noncomputable def suspects (s : Store) (rid : String) : List String :=
  s.entries.keys.filter fun x => s.Suspect rid x

/-- Suspects lead here from one with a reference that no suspect holds. -/
def Rescued (s : Store) (rid x : String) : Prop :=
  ∃ y e, s.get? y = some e ∧ ((s.suspects rid).flatMap s.refs).count y < e.indirect ∧
    Within s.refs (s.Suspect rid) y x

def without (s : Store) (gone : List String) : Store :=
  gone.foldl remove (s.lose (gone.flatMap s.refs))

def evict (s : Store) (rid : String) : Store :=
  (s.doomed rid).foldl remove (s.lose ((s.doomed rid).flatMap s.refs))

variable {s s' : Store} {rid x y z t : String} {e : Entry} {extra : String → Nat}

theorem Accounted.backed (h : s.Accounted extra) : s.Backed :=
  ⟨fun he => Nat.le.intro (h.balance he).symm, h.closed⟩

theorem Accounted.exact (h : s.Accounted fun _ => 0) (he : s.get? rid = some e) :
    e.indirect = s.references rid := h.balance he

theorem refsOf_index (s : Store) : refsOf s.entries.index = s.refs := by
  funext rid
  cases he : s.entries.get? rid <;> simp only [refsOf, refs, Dict.getElem?_index, get?, he]

theorem idle?_index (s : Store) (rid : String) :
    idle? s.entries.index rid = (s.get? rid).filter fun e => e.direct = 0 := by
  rw [idle?, Dict.getElem?_index]
  rfl

theorem idle?_eq_some_iff :
    idle? s.entries.index x = some e ↔ s.get? x = some e ∧ e.direct = 0 := by
  rw [idle?_index, Option.filter_eq_some_iff, decide_eq_true_eq]

theorem idle?_ne_none_iff : idle? s.entries.index x ≠ none ↔ s.Idle x := by
  rw [Option.ne_none_iff_exists']
  exact exists_congr fun e => idle?_eq_some_iff

theorem any_direct_iff_idle : (s.get? x).any (fun e => e.direct = 0) = true ↔ s.Idle x := by
  rw [Option.any_eq_true]
  simp only [decide_eq_true_eq]
  rfl

instance : Decidable (s.Idle x) := decidable_of_iff _ any_direct_iff_idle

theorem Suspect.idle (h : s.Suspect rid x) : s.Idle x := Within.inside_end h

theorem Suspect.mem_keys (h : s.Suspect rid x) : x ∈ s.entries.keys := by
  obtain ⟨e, he, _⟩ := h.idle
  exact Dict.mem_keys_iff.mpr ⟨e, he⟩

theorem mem_suspects_iff : x ∈ s.suspects rid ↔ s.Suspect rid x := by
  simp only [suspects, List.mem_filter, decide_eq_true_eq]
  exact ⟨fun h => h.2, fun h => ⟨h.mem_keys, h⟩⟩

theorem nodup_suspects (s : Store) (rid : String) : (s.suspects rid).Nodup :=
  (Dict.nodup_keys s.entries).filter _

theorem mem_keys_of_mem_suspects (y : String) (hy : y ∈ s.suspects rid) : y ∈ s.entries.keys :=
  (mem_suspects_iff.mp hy).mem_keys

/-- In whatever order the passes follow the references of a replica, they terminate and leave a mark
for deletion on the suspects that are not rescued. -/
theorem mem_doomedAlong {next : String → List String} (hnext : ∀ y, (next y).Perm (s.refs y)) :
    x ∈ s.doomedAlong next rid ↔ s.Suspect rid x ∧ ¬ s.Rescued rid x := by
  have hpath {a b : String} : Within next (idle? s.entries.index · ≠ none) a b ↔
      s.Suspect a b := Within.congr (fun y _ => (hnext y).mem_iff) fun _ => idle?_ne_none_iff
  rw [doomedAlong]
  split
  · rename_i hnone
    refine iff_of_false List.not_mem_nil fun h => ?_
    exact idle?_ne_none_iff.mpr h.1.inside_start hnone
  · rename_i e he
    obtain ⟨met, hnodup, hmet, hmarked⟩ := exists_marked next he
    have hsuspects (y : String) : y ∈ met ↔ s.Suspect rid y := (hmet y).trans hpath
    have hperm : met.Perm (s.suspects rid) :=
      (List.perm_ext_iff_of_nodup hnodup (nodup_suspects s rid)).mpr fun y =>
        (hsuspects y).trans mem_suspects_iff.symm
    have hcount (y : String) :
        (met.flatMap next).count y = ((s.suspects rid).flatMap s.refs).count y :=
      (hperm.flatMap fun z _ => hnext z).count_eq y
    have hwithin {a b : String} : Within next (· ∈ met) a b ↔ Within s.refs (s.Suspect rid) a b :=
      Within.congr (fun y _ => (hnext y).mem_iff) hsuspects
    have hmark (refs : RefStates) : x ∈ (refs.filter fun _ state => state.mark = .delete).keys ↔
        ∃ state, refs[x]? = some state ∧ state.mark = .delete := by
      rw [Std.HashMap.mem_keys, Std.HashMap.mem_iff_isSome_getElem?, Std.HashMap.getElem?_filter',
        Option.isSome_iff_exists]
      simp only [Option.filter_eq_some_iff, decide_eq_true_eq]
    rw [List.mem_mergeSort, hmark, hmarked, hsuspects]
    refine and_congr_right fun _ => not_congr (exists_congr fun y => ?_)
    simp only [idle?_eq_some_iff, hcount, hwithin]
    constructor
    · rintro ⟨ey, ⟨hey, _⟩, hlt, hwithin⟩
      exact ⟨ey, hey, hlt, hwithin⟩
    · rintro ⟨ey, hey, hlt, hwithin⟩
      obtain ⟨e', he', hzero⟩ := Suspect.idle hwithin.inside_start
      cases hey.symm.trans he'
      exact ⟨ey, ⟨hey, hzero⟩, hlt, hwithin⟩

theorem count_flatMap_refs {inner : List String} (hnodup : inner.Nodup)
    (hkeys : ∀ y ∈ inner, y ∈ s.entries.keys) (x : String) :
    (inner.flatMap s.refs).count x =
      s.entries.total fun y e => if y ∈ inner then e.hardRefs.count x else 0 := by
  rw [List.count_flatMap, Dict.sum_map_of_nodup hnodup hkeys]
  apply Dict.total_congr
  intro y e he
  simp only [Function.comp_apply, refs_of_get? (s := s) he]

theorem references_split (inner : List String) (x : String) :
    s.references x = s.entries.total (fun y e => if y ∈ inner then e.hardRefs.count x else 0) +
      s.entries.total (fun y e => if y ∈ inner then 0 else e.hardRefs.count x) := by
  rw [references, ← Dict.total_add]
  apply Dict.total_congr
  intro y e _
  by_cases hy : y ∈ inner <;> simp [hy]

theorem references_outside_eq_zero_iff (inner : List String) (x : String) :
    s.entries.total (fun y e => if y ∈ inner then 0 else e.hardRefs.count x) = 0 ↔
      ∀ z, z ∉ inner → x ∉ s.refs z := by
  rw [Dict.total_eq_zero_iff]
  constructor
  · intro hall z hz hmem
    obtain ⟨ez, hez, hx⟩ := get?_of_mem_refs hmem
    have hcount := hall z ez hez
    rw [if_neg hz, List.count_eq_zero] at hcount
    exact hcount hx
  · intro hall z ez hez
    by_cases hz : z ∈ inner
    · rw [if_pos hz]
    · rw [if_neg hz, List.count_eq_zero, ← refs_of_get? (s := s) hez]
      exact hall z hz

theorem count_lt_of_outside (h : s.Backed) {inner : List String} (hnodup : inner.Nodup)
    (hkeys : ∀ y ∈ inner, y ∈ s.entries.keys) (he : s.get? x = some e) (hz : z ∉ inner)
    (href : x ∈ s.refs z) : (inner.flatMap s.refs).count x < e.indirect := by
  have hne : s.entries.total (fun y e => if y ∈ inner then 0 else e.hardRefs.count x) ≠ 0 :=
    fun heq => (references_outside_eq_zero_iff inner x).mp heq z hz href
  have henough := h.enough he
  rw [references_split inner x] at henough
  rw [count_flatMap_refs hnodup hkeys]
  omega

theorem counted_from_outside_iff (h : s.Accounted extra) {inner : List String}
    (hnodup : inner.Nodup) (hkeys : ∀ y ∈ inner, y ∈ s.entries.keys) (he : s.get? x = some e) :
    (inner.flatMap s.refs).count x < e.indirect ↔
      0 < extra x ∨ ∃ z, z ∉ inner ∧ x ∈ s.refs z := by
  constructor
  · intro hlt
    rw [h.balance he, count_flatMap_refs hnodup hkeys, references_split inner x] at hlt
    apply Classical.byContradiction
    intro hnone
    rw [not_or] at hnone
    have hzero := (references_outside_eq_zero_iff inner x).mpr
      fun z hz hmem => hnone.2 ⟨z, hz, hmem⟩
    omega
  · rintro (hextra | ⟨z, hz, href⟩)
    · rw [h.balance he, count_flatMap_refs hnodup hkeys, references_split inner x]
      omega
    · exact count_lt_of_outside h.backed hnodup hkeys he hz href

theorem rescued_of_outside (h : s.Backed) (hz : ¬ s.Suspect rid z) (hy : y ∈ s.refs z)
    (hpath : Within s.refs (s.Suspect rid) y x) : s.Rescued rid x := by
  obtain ⟨e, he, _⟩ := hpath.inside_start.idle
  refine ⟨y, e, he, ?_, hpath⟩
  exact count_lt_of_outside h (nodup_suspects s rid) mem_keys_of_mem_suspects he
    (fun hmem => hz (mem_suspects_iff.mp hmem)) hy

theorem rescued_iff (h : s.Accounted extra) : s.Rescued rid x ↔
    ∃ y, (0 < extra y ∨ ∃ z, ¬ s.Suspect rid z ∧ y ∈ s.refs z) ∧
      Within s.refs (s.Suspect rid) y x := by
  constructor
  · rintro ⟨y, e, he, hcount, hpath⟩
    rw [counted_from_outside_iff h (nodup_suspects s rid) mem_keys_of_mem_suspects he] at hcount
    refine ⟨y, hcount.imp_right fun ⟨z, hz, href⟩ => ⟨z, fun hsuspect => ?_, href⟩, hpath⟩
    exact hz (mem_suspects_iff.mpr hsuspect)
  · rintro ⟨y, hextra | ⟨z, hz, href⟩, hpath⟩
    · obtain ⟨e, he, _⟩ := hpath.inside_start.idle
      refine ⟨y, e, he, ?_, hpath⟩
      exact (counted_from_outside_iff h (nodup_suspects s rid) mem_keys_of_mem_suspects he).mpr
        (.inl hextra)
    · exact rescued_of_outside h.backed hz href hpath

theorem Within.leads {next : String → List String} {inside : String → Prop} {a b : String}
    (h : Within next inside a b) : Leads next a b := by
  induction h with
  | start _ => exact .refl
  | step _ hnext _ ih => exact ih.tail hnext

theorem mem_doomed : x ∈ s.doomed rid ↔ s.Suspect rid x ∧ ¬ s.Rescued rid x :=
  mem_doomedAlong fun y => by rw [refsOf_index]

theorem sorted_doomedAlong (s : Store) (next : String → List String) (rid : String) :
    (s.doomedAlong next rid).Pairwise (· < ·) := by
  rw [doomedAlong]
  split
  · exact .nil
  · have hsorted := @List.pairwise_mergeSort String (fun a b => decide (a ≤ b))
      (fun a b c hab hbc => by
        simp only [decide_eq_true_eq] at *
        exact String.le_trans hab hbc)
      (fun a b => by simpa using String.le_total a b)
    refine (hsorted _).imp₂ (fun a b hle hne => ?_)
      ((List.mergeSort_perm _ _).nodup_iff.mpr Std.HashMap.nodup_keys)
    exact String.not_le.mp fun hge => hne (String.le_antisymm (of_decide_eq_true hle) hge)

theorem sorted_doomed (s : Store) (rid : String) : (s.doomed rid).Pairwise (· < ·) :=
  sorted_doomedAlong s _ rid

theorem eq_of_sorted {gone gone' : List String} (h : gone.Pairwise (· < ·))
    (h' : gone'.Pairwise (· < ·)) (hmem : ∀ x, x ∈ gone ↔ x ∈ gone') : gone = gone' := by
  have hperm : gone.Perm gone' :=
    (List.perm_ext_iff_of_nodup (h.imp String.ne_of_lt) (h'.imp String.ne_of_lt)).mpr hmem
  exact hperm.eq_of_pairwise (fun _ _ _ _ hab hba => absurd hba (String.lt_asymm hab)) h h'

/-- Passes that follow the references in another order find the same. -/
theorem doomedAlong_eq {next : String → List String} (hnext : ∀ y, (next y).Perm (s.refs y)) :
    s.doomedAlong next rid = s.doomed rid :=
  eq_of_sorted (sorted_doomedAlong s next rid) (sorted_doomed s rid) fun _ =>
    (mem_doomedAlong hnext).trans mem_doomed.symm

theorem not_doomed_of_mem_refs (h : s.Backed) (hz : z ∉ s.doomed rid) (hx : x ∈ s.refs z) :
    x ∉ s.doomed rid := by
  intro hdoomed
  obtain ⟨hsuspect, hlost⟩ := mem_doomed.mp hdoomed
  apply hlost
  by_cases hzsuspect : s.Suspect rid z
  · obtain ⟨y, e, he, hcount, hpath⟩ : s.Rescued rid z :=
      Classical.byContradiction fun hnot => hz (mem_doomed.mpr ⟨hzsuspect, hnot⟩)
    exact ⟨y, e, he, hcount, .step hpath hx hsuspect⟩
  · exact rescued_of_outside h hzsuspect hx (.start hsuspect)

theorem not_doomed_of_reaches (h : s.Backed) (hz : z ∉ s.doomed rid) (hreach : s.Reaches z x) :
    x ∉ s.doomed rid := by
  induction hreach with
  | refl => exact hz
  | tail _ href ih => exact not_doomed_of_mem_refs h ih href

/-- A candidate takes along the suspects that nothing else leads to, neither what is no suspect nor
what is counted too much. -/
theorem mem_doomed_iff (h : s.Accounted extra) : x ∈ s.doomed rid ↔
    s.Suspect rid x ∧ ∀ z, ¬ s.Suspect rid z ∨ 0 < extra z → ¬ s.Reaches z x := by
  constructor
  · intro hx
    refine ⟨(mem_doomed.mp hx).1, fun z hz hreach => not_doomed_of_reaches h.backed ?_ hreach hx⟩
    intro hmem
    obtain ⟨hsuspect, hlost⟩ := mem_doomed.mp hmem
    rcases hz with hz | hextra
    · exact hz hsuspect
    · exact hlost ((rescued_iff h).mpr ⟨z, .inl hextra, .start hsuspect⟩)
  · rintro ⟨hx, hreach⟩
    refine mem_doomed.mpr ⟨hx, fun hrescued => ?_⟩
    obtain ⟨y, hextra | ⟨z, hz, hy⟩, hwithin⟩ := (rescued_iff h).mp hrescued
    · exact hreach y (.inr hextra) (Within.leads hwithin)
    · exact hreach z (.inl hz) (.head hy (Within.leads hwithin))

theorem extra_eq_zero_of_doomed (h : s.Accounted extra) (hx : x ∈ s.doomed rid) : extra x = 0 :=
  Nat.eq_zero_of_not_pos fun hpos => ((mem_doomed_iff h).mp hx).2 x (.inr hpos) .refl

theorem mem_doomed_of_unreferenced (h : s.Accounted extra) (he : s.get? rid = some e)
    (hdirect : e.direct = 0) (hindirect : e.indirect = 0) : rid ∈ s.doomed rid := by
  have hbalance := h.balance he
  have hidle : s.Suspect rid rid := .start ⟨e, he, hdirect⟩
  refine (mem_doomed_iff h).mpr ⟨hidle, fun z hz hreach => ?_⟩
  rcases Relation.ReflTransGen.cases_tail hreach with heq | ⟨y, _, hy⟩
  · subst heq
    rcases hz with hz | hextra
    · exact hz hidle
    · omega
  · obtain ⟨ey, hey, hmem⟩ := get?_of_mem_refs hy
    have hle := Dict.weight_le_total (fun _ e => e.hardRefs.count rid) hey
    have hpos := List.count_pos_iff.mpr hmem
    unfold references at hbalance
    omega

theorem Suspect.loaded (h : s.Backed) (hrid : s.isLoaded rid = true) (hx : s.Suspect rid x) :
    s.isLoaded x = true := by
  cases hx with
  | start _ => exact hrid
  | step _ href _ =>
    obtain ⟨e, he, ht⟩ := get?_of_mem_refs href
    exact h.closed he ht

theorem get?_remove (s : Store) (rid x : String) :
    (s.remove rid).get? x = if rid = x then none else s.get? x :=
  Dict.get?_erase s.entries rid x

theorem get?_foldl_remove (s : Store) (gone : List String) (x : String) :
    (gone.foldl remove s).get? x = if x ∈ gone then none else s.get? x := by
  induction gone generalizing s with
  | nil => simp
  | cons g gone ih =>
    rw [List.foldl_cons, ih, get?_remove]
    by_cases hx : x ∈ gone
    · simp [hx]
    · by_cases hg : g = x
      · subst hg
        simp
      · simp [hx, hg, Ne.symm hg]

theorem ledger_foldl_remove (s : Store) (gone : List String) :
    (gone.foldl remove s).ledger = s.ledger := by
  induction gone generalizing s with
  | nil => rfl
  | cons g gone ih => exact ih (s.remove g)

theorem get?_without (s : Store) (gone : List String) (x : String) : (s.without gone).get? x =
    if x ∈ gone then none else (s.get? x).map fun e =>
      { e with indirect := e.indirect - (gone.flatMap s.refs).count x } := by
  rw [without, get?_foldl_remove, get?_lose]

theorem ledger_without (s : Store) (gone : List String) : (s.without gone).ledger = s.ledger :=
  ledger_foldl_remove _ _

theorem refs_without {gone : List String} (hx : x ∉ gone) : (s.without gone).refs x = s.refs x := by
  unfold refs
  rw [get?_without, if_neg hx]
  cases s.get? x <;> rfl

theorem get?_evict (s : Store) (rid x : String) : (s.evict rid).get? x =
    if x ∈ s.doomed rid then none else (s.get? x).map fun e =>
      { e with indirect := e.indirect - ((s.doomed rid).flatMap s.refs).count x } :=
  s.get?_without (s.doomed rid) x

theorem ledger_evict (s : Store) (rid : String) : (s.evict rid).ledger = s.ledger :=
  s.ledger_without (s.doomed rid)

theorem nodup_doomed (s : Store) (rid : String) : (s.doomed rid).Nodup :=
  (sorted_doomed s rid).imp String.ne_of_lt

theorem mem_keys_of_mem_doomed (h : x ∈ s.doomed rid) : x ∈ s.entries.keys :=
  (mem_doomed.mp h).1.mem_keys

theorem refs_evict (hx : x ∉ s.doomed rid) : (s.evict rid).refs x = s.refs x := refs_without hx

theorem reaches_evict (h : s.Backed) (hz : z ∉ s.doomed rid) (hreach : s.Reaches z x) :
    (s.evict rid).Reaches z x := by
  induction hreach with
  | refl => exact .refl
  | @tail a b hza hab ih =>
    have ha : a ∉ s.doomed rid := not_doomed_of_reaches h hz hza
    exact ih.tail (by rw [refs_evict ha]; exact hab)

theorem references_evict (s : Store) (rid x : String) :
    (s.evict rid).references x + ((s.doomed rid).flatMap s.refs).count x = s.references x := by
  have hentries : (s.evict rid).entries =
      (s.lose ((s.doomed rid).flatMap s.refs)).entries.filter
        fun y _ => !(s.doomed rid).contains y := by
    apply Dict.ext_get?
    intro y
    have hget := get?_foldl_remove (s.lose ((s.doomed rid).flatMap s.refs)) (s.doomed rid) y
    rw [Dict.get?_filter]
    change (s.evict rid).get? y = _
    rw [evict, hget]
    by_cases hy : y ∈ s.doomed rid
    · rw [if_pos hy]
      cases hgot : (s.lose ((s.doomed rid).flatMap s.refs)).entries.get? y <;>
        simp [Option.filter, hy]
    · rw [if_neg hy]
      change (s.lose _).entries.get? y = _
      cases hgot : (s.lose ((s.doomed rid).flatMap s.refs)).entries.get? y <;>
        simp [Option.filter, hy]
  have hleft : (s.evict rid).references x =
      s.entries.total fun y e => if y ∈ s.doomed rid then 0 else e.hardRefs.count x := by
    rw [references, hentries, Dict.total_filter]
    unfold lose recount
    rw [Dict.total_mapWithKey]
    apply Dict.total_congr
    intro y e _
    by_cases hy : y ∈ s.doomed rid
    · simp [hy]
    · simp [hy, Entry.hardRefs]
  rw [hleft, count_flatMap_refs (nodup_doomed s rid) (fun y hy => mem_keys_of_mem_doomed hy),
    references_split (s.doomed rid) x, Nat.add_comm]

theorem backed_evict (h : s.Backed) (rid : String) : (s.evict rid).Backed := by
  refine ⟨fun {x e} he => ?_, fun {x e t} he ht => ?_⟩
  · have hreferences := references_evict s rid x
    rw [get?_evict] at he
    split at he
    · cases he
    · obtain ⟨e₀, he₀, rfl⟩ := Option.map_eq_some_iff.mp he
      have henough := h.enough he₀
      change _ ≤ e₀.indirect - _
      omega
  · rw [get?_evict] at he
    split at he
    · cases he
    · rename_i hx
      obtain ⟨e₀, he₀, rfl⟩ := Option.map_eq_some_iff.mp he
      have href : t ∈ s.refs x := by
        rw [refs_of_get? he₀]
        exact ht
      have ht' : t ∉ s.doomed rid := not_doomed_of_mem_refs h hx href
      obtain ⟨et, het, hloaded⟩ := isLoaded_iff.mp (h.closed he₀ ht)
      rw [isLoaded_iff, get?_evict, if_neg ht', het]
      exact ⟨_, rfl, hloaded⟩

theorem accounted_evict (h : s.Accounted extra) (rid : String) :
    (s.evict rid).Accounted extra := by
  refine ⟨fun {x e} he => ?_, fun {x} hpos => ?_, (backed_evict h.backed rid).closed⟩
  · have hreferences := references_evict s rid x
    rw [get?_evict] at he
    split at he
    · cases he
    · obtain ⟨e₀, he₀, rfl⟩ := Option.map_eq_some_iff.mp he
      have hbalance := h.balance he₀
      change e₀.indirect - _ = _
      omega
  · have hx : x ∉ s.doomed rid := fun hmem => by
      rw [extra_eq_zero_of_doomed h hmem] at hpos
      exact Nat.lt_irrefl 0 hpos
    obtain ⟨e, he, hloaded⟩ := isLoaded_iff.mp (h.resident hpos)
    rw [isLoaded_iff, get?_evict, if_neg hx, he]
    exact ⟨_, rfl, hloaded⟩

/-- A root keeps what it leads to, unless only the candidate leads there. -/
theorem root_or_suspect (h : s.Backed) {root : String → Prop} {r : String}
    (hr : 0 < s.direct r ∨ root r ∨ r = rid) (hidle : s.Idle rid) (hreach : s.Reaches r x) :
    s.Suspect rid x ∨
      ∃ r', (0 < s.direct r' ∨ root r') ∧ r' ∉ s.doomed rid ∧ s.Reaches r' x := by
  have hsubscribed (y : String) (hy : 0 < s.direct y) : y ∉ s.doomed rid := by
    intro hmem
    obtain ⟨e, he, hzero⟩ := (mem_doomed.mp hmem).1.idle
    rw [direct_of_get? he] at hy
    omega
  induction hreach with
  | refl =>
    rcases hr with hr | hr | rfl
    · exact .inr ⟨r, .inl hr, hsubscribed r hr, .refl⟩
    · by_cases hmem : r ∈ s.doomed rid
      · exact .inl (mem_doomed.mp hmem).1
      · exact .inr ⟨r, .inr hr, hmem, .refl⟩
    · exact .inl (.start hidle)
  | @tail a b _ hab ih =>
    rcases ih with ha | ⟨r', hr', hmem, hreach⟩
    · obtain ⟨e, he, ht⟩ := get?_of_mem_refs hab
      obtain ⟨eb, heb, _⟩ := isLoaded_iff.mp (h.closed he ht)
      by_cases hzero : eb.direct = 0
      · exact .inl (.step ha hab ⟨eb, heb, hzero⟩)
      · have hpos : 0 < s.direct b := by
          rw [direct_of_get? heb]
          omega
        exact .inr ⟨b, .inl hpos, hsubscribed b hpos, .refl⟩
    · exact .inr ⟨r', hr', hmem, hreach.tail hab⟩

theorem direct_evict (s : Store) (rid x : String) : (s.evict rid).direct x = s.direct x := by
  by_cases hx : x ∈ s.doomed rid
  · obtain ⟨e, he, hzero⟩ := (mem_doomed.mp hx).1.idle
    rw [direct_of_get? he, direct, get?_evict, if_pos hx, hzero]
  · unfold direct
    rw [get?_evict, if_neg hx]
    cases s.get? x <;> rfl

end Store

namespace Store

/-- A store between two operations: it is balanced, every replica has its first contents, and who
    waits for these has been told. -/
structure Rests (extra : String → Nat) (s : Store) : Prop where
  sound : s.Balanced extra
  settled : s.Settled
  announced : ∀ {rid e}, s.get? rid = some e → e.loaded = true → s.ledger.isSettled e.pending = true

abbrev AtRest (s : Store) : Prop := s.Rests fun _ => 0

/-- A store after evictions: some unsubscribed resources are gone, the others have fewer references
    to count. -/
structure Pruned (s s' : Store) : Prop where
  kept : ∀ {x e'}, s'.get? x = some e' →
    ∃ e n, s.get? x = some e ∧ e' = { e with indirect := n }
  gone : ∀ {x e}, s.get? x = some e → s'.get? x = none → e.direct = 0 ∧ e.loaded = true
  ledger : s'.ledger = s.ledger

variable {s s' s'' : Store} {rid x : String} {e : Entry} {extra : String → Nat}

theorem Pruned.refl (s : Store) : s.Pruned s :=
  ⟨fun he => ⟨_, _, he, rfl⟩, fun he hnone => absurd (he.symm.trans hnone) (by simp), rfl⟩

theorem Pruned.trans (h : s.Pruned s') (h' : s'.Pruned s'') : s.Pruned s'' := by
  refine ⟨fun {x e''} he'' => ?_, fun {x e} he hnone => ?_, h'.ledger.trans h.ledger⟩
  · obtain ⟨e', n', he', rfl⟩ := h'.kept he''
    obtain ⟨e, n, he, rfl⟩ := h.kept he'
    exact ⟨e, n', he, rfl⟩
  · cases he' : s'.get? x with
    | none => exact h.gone he he'
    | some e' =>
      obtain ⟨e₀, n, he₀, rfl⟩ := h.kept he'
      rw [he] at he₀
      cases he₀
      have hgone := h'.gone he' hnone
      exact hgone

theorem Pruned.direct (h : s.Pruned s') (x : String) : s'.direct x = s.direct x := by
  unfold Store.direct
  cases he' : s'.get? x with
  | some e' =>
    obtain ⟨e, n, he, rfl⟩ := h.kept he'
    rw [he]
  | none =>
    cases he : s.get? x with
    | none => rfl
    | some e => exact (h.gone he he').1.symm

theorem Settled.isLoaded_of_mem_refs (h : s.Settled) {a b : String} (hab : b ∈ s.refs a) :
    s.isLoaded a = true := by
  obtain ⟨e, he, hmem⟩ := get?_of_mem_refs hab
  rw [← h.links_eq_hardRefs he] at hmem
  refine isLoaded_iff.mpr ⟨e, he, ?_⟩
  cases hl : e.loaded with
  | true => rfl
  | false =>
    rw [Entry.links_of_not_loaded hl] at hmem
    cases hmem

theorem Sturdy.backed (h : s.Sturdy) (hsettled : s.Settled) : s.Backed := by
  refine ⟨fun he => ?_, fun {rid e t} he ht => ?_⟩
  · rw [← hsettled.linked_eq_references]
    exact h.enough he
  · rw [← hsettled.links_eq_hardRefs he] at ht
    obtain ⟨e', he', hreplica, _⟩ := h.target he ht
    exact isLoaded_iff.mpr ⟨e', he', hsettled t e' he' hreplica⟩

theorem Rests.accounted (h : s.Rests extra) : s.Accounted extra := by
  refine ⟨fun he => ?_, fun {x} hpos => ?_, (h.sound.sturdy.backed h.settled).closed⟩
  · rw [← h.settled.linked_eq_references]
    exact h.sound.balance he
  · obtain ⟨e, he, hreplica⟩ := hasReplica_iff.mp (h.sound.resident hpos)
    exact isLoaded_iff.mpr ⟨e, he, h.settled x e he hreplica⟩

theorem evict_pruned (h : s.Backed) (hrid : s.isLoaded rid = true) : s.Pruned (s.evict rid) := by
  refine ⟨fun {x e'} he => ?_, fun {x e} he hnone => ?_, ledger_evict s rid⟩
  · rw [get?_evict] at he
    split at he
    · cases he
    · obtain ⟨e₀, he₀, rfl⟩ := Option.map_eq_some_iff.mp he
      exact ⟨e₀, _, he₀, rfl⟩
  · rw [get?_evict] at hnone
    split at hnone
    · rename_i hx
      have hsuspect := (mem_doomed.mp hx).1
      obtain ⟨e₁, he₁, hzero⟩ := hsuspect.idle
      obtain ⟨e₂, he₂, hloaded⟩ := isLoaded_iff.mp (hsuspect.loaded h hrid)
      rw [he] at he₁ he₂
      cases he₁
      cases he₂
      exact ⟨hzero, hloaded⟩
    · rw [he] at hnone
      cases hnone

theorem Settled.of_pruned (h : s.Settled) (hpruned : s.Pruned s') : s'.Settled := by
  intro x e' he' hreplica
  obtain ⟨e, n, he, rfl⟩ := hpruned.kept he'
  exact h x e he hreplica

theorem Sturdy.of_pruned (h : s.Sturdy) (hsettled : s.Settled) (hpruned : s.Pruned s')
    (hbacked : s'.Backed) : s'.Sturdy := by
  have hsettled' := hsettled.of_pruned hpruned
  refine ⟨fun {x e'} he' => ?_, fun he' => ?_, fun {x e' t} he' ht => ?_⟩
  · obtain ⟨e, n, he, rfl⟩ := hpruned.kept he'
    exact ⟨(h.entry he).kind, (h.entry he).filled, (h.entry he).quiet, (h.entry he).clean⟩
  · rw [hsettled'.linked_eq_references]
    exact hbacked.enough he'
  · rw [hsettled'.links_eq_hardRefs he'] at ht
    obtain ⟨et, het, hloaded⟩ := isLoaded_iff.mp (hbacked.closed he' ht)
    obtain ⟨e₀, n, he₀, rfl⟩ := hpruned.kept het
    exact hasReplica_iff.mpr ⟨_, het, (h.entry he₀).filled hloaded⟩

/-- Fewer entries with fewer references are at rest if they count what is left. -/
theorem Rests.of_pruned (h : s.Rests extra) (hpruned : s.Pruned s')
    (haccounted : s'.Accounted extra) : s'.Rests extra := by
  have hsettled := h.settled.of_pruned hpruned
  have hsturdy := h.sound.sturdy.of_pruned h.settled hpruned haccounted.backed
  refine ⟨.of_sturdy hsturdy (fun he' => ?_) fun hpos => ?_, hsettled,
    fun {x e'} he' hloaded => ?_⟩
  · rw [hsettled.linked_eq_references]
    exact haccounted.balance he'
  · obtain ⟨e, he, hloaded⟩ := isLoaded_iff.mp (haccounted.resident hpos)
    exact hasReplica_iff.mpr ⟨e, he, (hsturdy.entry he).filled hloaded⟩
  · obtain ⟨e, n, he, rfl⟩ := hpruned.kept he'
    have hannounced := h.announced he hloaded
    rw [hpruned.ledger]
    exact hannounced

theorem Rests.evict (h : s.Rests extra) (hrid : s.isLoaded rid = true) :
    (s.evict rid).Rests extra :=
  h.of_pruned (evict_pruned h.accounted.backed hrid) (accounted_evict h.accounted rid)

/-- After its eviction a candidate is needed as a root no more. -/
theorem Rooted.evict {root : String → Prop} (h : s.Rests extra) (hextra : ∀ r, 0 < extra r → root r)
    (hidle : s.Idle rid) (hrid : s.isLoaded rid = true)
    (hrooted : s.Rooted fun r => root r ∨ r = rid) : (s.evict rid).Rooted root := by
  have hacc := h.accounted
  have hlinks : (s.evict rid).links = (s.evict rid).refs := (h.evict hrid).settled.links_eq_refs
  have hpruned := evict_pruned hacc.backed hrid
  have hreach (x : String) (hx : s.isLoaded x = true) :
      ∃ r, (0 < s.direct r ∨ root r ∨ r = rid) ∧ s.Reaches r x := by
    obtain ⟨r, hr, hlead⟩ := hrooted x hx
    rw [h.settled.links_eq_refs] at hlead
    exact ⟨r, hr, hlead⟩
  have hdone (r x : String) (hr : 0 < s.direct r ∨ root r) (hmem : r ∉ s.doomed rid)
      (hlead : s.Reaches r x) :
      ∃ r', (0 < (s.evict rid).direct r' ∨ root r') ∧ Leads (s.evict rid).links r' x := by
    refine ⟨r, ?_, ?_⟩
    · rw [direct_evict]
      exact hr
    · rw [hlinks]
      exact reaches_evict hacc.backed hmem hlead
  intro x hx
  obtain ⟨e', he', hloaded'⟩ := isLoaded_iff.mp hx
  have hnot : x ∉ s.doomed rid := fun hmem => by
    rw [get?_evict, if_pos hmem] at he'
    cases he'
  obtain ⟨e, n, he, rfl⟩ := hpruned.kept he'
  obtain ⟨r, hr, hlead⟩ := hreach x (isLoaded_iff.mpr ⟨e, he, hloaded'⟩)
  rcases root_or_suspect hacc.backed hr hidle hlead with hsuspect | ⟨r', hr', hmem, hlead'⟩
  · -- a suspect stays because something else leads to it, which is no suspect or a root
    obtain ⟨z, hz, hzx⟩ : ∃ z, (¬ s.Suspect rid z ∨ 0 < extra z) ∧ s.Reaches z x := by
      apply Classical.byContradiction
      intro hnone
      apply hnot
      rw [mem_doomed_iff hacc]
      exact ⟨hsuspect, fun z hz hzx => hnone ⟨z, hz, hzx⟩⟩
    rcases hz with hz | hpos
    · have hzloaded : s.isLoaded z = true := by
        rcases Relation.ReflTransGen.cases_head hzx with rfl | ⟨y, hzy, _⟩
        · exact absurd hsuspect hz
        · exact h.settled.isLoaded_of_mem_refs hzy
      obtain ⟨r₂, hr₂, hlead₂⟩ := hreach z hzloaded
      rcases root_or_suspect hacc.backed hr₂ hidle hlead₂ with hbad | ⟨r', hr', hmem, hlead'⟩
      · exact absurd hbad hz
      · exact hdone r' x hr' hmem (hlead'.trans hzx)
    · refine hdone z x (.inr (hextra z hpos)) (fun hmem => ?_) hzx
      rw [extra_eq_zero_of_doomed hacc hmem] at hpos
      exact Nat.lt_irrefl 0 hpos
  · exact hdone r' x hr' hmem hlead'

/-- A resource that is not loaded leads to nothing, so it is no use as a root. -/
theorem Rooted.drop {root : String → Prop} (hrooted : s.Rooted fun r => root r ∨ r = rid)
    (hrid : 0 < s.direct rid ∨ s.isLoaded rid = false) : s.Rooted root := by
  intro x hx
  obtain ⟨r, hr | hr | rfl, hlead⟩ := hrooted x hx
  · exact ⟨r, .inl hr, hlead⟩
  · exact ⟨r, .inr hr, hlead⟩
  · rcases hrid with hpos | hfalse
    · exact ⟨r, .inl hpos, hlead⟩
    · rcases Relation.ReflTransGen.cases_head hlead with rfl | ⟨y, hry, _⟩
      · rw [hfalse] at hx
        cases hx
      · obtain ⟨e, he, hmem⟩ := get?_of_mem_links hry
        have hloaded : e.loaded = false := by
          unfold isLoaded at hfalse
          simpa only [he] using hfalse
        rw [Entry.links_of_not_loaded hloaded] at hmem
        cases hmem

end Store

namespace Op

open Store

variable {s : Store} {rid : String} {e : Entry} {out : Output} {extra : String → Nat}

theorem releaseAlls_run {gone : List String} {w : Work}
    (hget : ∀ g ∈ gone, ∃ e, w.store.get? g = some e)
    (hcovers : w.store.Covers (gone.flatMap w.store.refs)) :
    gone.forM releaseAll w = .ok () ⟨w.store.lose (gone.flatMap w.store.refs), w.out⟩ := by
  induction gone generalizing w with
  | nil =>
    rw [List.flatMap_nil, lose_nil]
    rfl
  | cons g gone ih =>
    obtain ⟨e, he⟩ := hget g List.mem_cons_self
    have hrefs : w.store.refs g = e.hardRefs := refs_of_get? he
    rw [List.flatMap_cons] at hcovers
    have hrelease : releaseAll g w = .ok () ⟨w.store.lose (w.store.refs g), w.out⟩ := by
      rw [releaseAll, bind_of_ok _ (entry_of_get? he), hrefs]
      rw [hrefs] at hcovers
      exact removeIndirects_run hcovers.left
    have hsame : (w.store.lose (w.store.refs g)).refs = w.store.refs := by
      funext x
      unfold refs
      rw [get?_lose]
      cases w.store.get? x <;> rfl
    change (releaseAll g >>= fun _ => gone.forM releaseAll) w = _
    rw [bind_of_ok _ hrelease, ih]
    · simp only [hsame, lose_lose, List.flatMap_cons]
    · intro x hx
      obtain ⟨ex, hex⟩ := hget x (List.mem_cons_of_mem _ hx)
      exact ⟨_, by rw [get?_lose, hex]; rfl⟩
    · rw [hsame]
      exact hcovers.right

theorem tryDelete_run (h : s.Backed) (he : s.get? rid = some e) (hdirect : e.direct = 0)
    (hloaded : e.loaded = true) :
    tryDelete rid ⟨s, out⟩ = .ok (s.doomed rid) ⟨s.evict rid, out⟩ := by
  have hcovers : s.Covers ((s.doomed rid).flatMap s.refs) := by
    intro t ht
    obtain ⟨g, _, href⟩ := List.mem_flatMap.mp ht
    obtain ⟨eg, heg, hmem⟩ := get?_of_mem_refs href
    obtain ⟨et, het, _⟩ := isLoaded_iff.mp (h.closed heg hmem)
    refine ⟨et, het, ?_⟩
    have henough := h.enough het
    have hreferences := references_evict s rid t
    omega
  have hrelease : (s.doomed rid).forM releaseAll ⟨s, out⟩ =
      .ok () ⟨s.lose ((s.doomed rid).flatMap s.refs), out⟩ :=
    releaseAlls_run (fun g hg => Dict.mem_keys_iff.mp (mem_keys_of_mem_doomed hg)) hcovers
  have hget : (get : Op Work) ⟨s, out⟩ = .ok ⟨s, out⟩ ⟨s, out⟩ := rfl
  unfold tryDelete
  rw [bind_of_ok _ hget]
  simp only [he, hdirect, hloaded, Nat.lt_irrefl, Bool.not_true, Bool.false_eq_true, or_self,
    if_false]
  rw [bind_of_ok _ hrelease, bind_of_ok _ (modifyStore_run _)]
  rfl

theorem tryDelete_of_held (h : 0 < s.direct rid ∨ s.isLoaded rid = false) :
    tryDelete rid ⟨s, out⟩ = .ok [] ⟨s, out⟩ := by
  have hget : (get : Op Work) ⟨s, out⟩ = .ok ⟨s, out⟩ ⟨s, out⟩ := rfl
  unfold tryDelete
  rw [bind_of_ok _ hget]
  cases he : s.get? rid with
  | none => rfl
  | some e =>
    have hcond : 0 < e.direct ∨ (!e.loaded) = true := by
      rcases h with hpos | hfalse
      · rw [direct_of_get? he] at hpos
        exact .inl hpos
      · simp only [isLoaded, he] at hfalse
        exact .inr (by simp [hfalse])
    simp only [hcond, if_true]
    rfl

/-- A candidate that is subscribed or not loaded stays, any other one is evicted. -/
theorem tryDelete_cases (h : s.Backed) (rid : String) (out : Output) :
    (0 < s.direct rid ∨ s.isLoaded rid = false) ∧ tryDelete rid ⟨s, out⟩ = .ok [] ⟨s, out⟩ ∨
    s.Idle rid ∧ s.isLoaded rid = true ∧
      tryDelete rid ⟨s, out⟩ = .ok (s.doomed rid) ⟨s.evict rid, out⟩ := by
  by_cases hheld : 0 < s.direct rid ∨ s.isLoaded rid = false
  · exact .inl ⟨hheld, tryDelete_of_held hheld⟩
  · rw [not_or, Bool.not_eq_false] at hheld
    obtain ⟨hdirect, hloaded⟩ := hheld
    obtain ⟨e, he, hl⟩ := isLoaded_iff.mp hloaded
    have hzero : e.direct = 0 := by
      rw [direct_of_get? he] at hdirect
      omega
    exact .inr ⟨⟨e, he, hzero⟩, hloaded, tryDelete_run h he hzero hl⟩

/-- To delete a candidate takes it off the roots, and removes nothing that is subscribed. -/
theorem tryDelete_spec {root : String → Prop} (h : s.Rests extra)
    (hextra : ∀ r, 0 < extra r → root r) (hrooted : s.Rooted fun r => root r ∨ r = rid) :
    ∃ gone s', tryDelete rid ⟨s, out⟩ = .ok gone ⟨s', out⟩ ∧ s'.Rests extra ∧ s.Pruned s' ∧
      s'.Rooted root := by
  have hbacked := h.accounted.backed
  rcases tryDelete_cases hbacked rid out with ⟨hheld, hrun⟩ | ⟨hidle, hloaded, hrun⟩
  · exact ⟨[], s, hrun, h, .refl s, hrooted.drop hheld⟩
  · exact ⟨s.doomed rid, s.evict rid, hrun, h.evict hloaded, evict_pruned hbacked hloaded,
      hrooted.evict h hextra hidle hloaded⟩

theorem collect_cons (rid : String) (rest : List String) (w : Work) :
    collect (rid :: rest) w = (match w.store.get? rid with
      | some e => if e.direct = 0 then tryDelete rid >>= fun _ => collect rest else collect rest
      | none => collect rest) w := by
  have hget : (get : Op Work) w = .ok w w := rfl
  rw [collect]
  refine (bind_of_ok _ hget).trans ?_
  cases w.store.get? rid with
  | none => rfl
  | some e =>
    by_cases hzero : e.direct = 0
    · simp only [hzero, if_true]
    · simp only [hzero, if_false]

/-- To collect candidates takes them all off the roots. -/
theorem collect_spec {root : String → Prop} {candidates : List String} (h : s.Rests extra)
    (hextra : ∀ r, 0 < extra r → root r) (hrooted : s.Rooted fun r => root r ∨ r ∈ candidates) :
    ∃ s', collect candidates ⟨s, out⟩ = .ok () ⟨s', out⟩ ∧ s'.Rests extra ∧ s.Pruned s' ∧
      s'.Rooted root := by
  induction candidates generalizing s with
  | nil => exact ⟨s, rfl, h, .refl s, hrooted.weaken fun r hr => hr.resolve_right (by simp)⟩
  | cons rid rest ih =>
    have hrooted' : s.Rooted fun r => (root r ∨ r ∈ rest) ∨ r = rid := by
      apply hrooted.weaken
      rintro r (hr | hr)
      · exact .inl (.inl hr)
      · rcases List.mem_cons.mp hr with rfl | hr
        · exact .inr rfl
        · exact .inl (.inr hr)
    have hskip (hheld : 0 < s.direct rid ∨ s.isLoaded rid = false) := ih h (hrooted'.drop hheld)
    rw [collect_cons]
    cases he : s.get? rid with
    | none => exact hskip (.inr (by simp [isLoaded, he]))
    | some e =>
      by_cases hzero : e.direct = 0
      · obtain ⟨gone, s₁, hrun, hrest, hpruned, hroots⟩ :=
          tryDelete_spec h (fun r hr => .inl (hextra r hr)) hrooted'
        obtain ⟨s₂, hrun₂, hrest₂, hpruned₂, hroots₂⟩ := ih hrest hroots
        refine ⟨s₂, ?_, hrest₂, hpruned.trans hpruned₂, hroots₂⟩
        simp only [hzero, if_true]
        rw [bind_of_ok _ hrun]
        exact hrun₂
      · simp only [hzero, if_false]
        exact hskip (.inl (by rw [direct_of_get? he]; omega))

end Op

end LiveResource
