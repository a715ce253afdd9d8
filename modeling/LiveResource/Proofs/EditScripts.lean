import LiveResource.Proofs.Reconcile
import Mathlib.Data.List.Infix
import Mathlib.Order.Bounds.Basic

set_option autoImplicit false

/-!
# Shortest edit scripts

A script that turns one list into another keeps some common subsequence, and removes or inserts all
else. So no script is shorter than what a longest common subsequence leaves over. The table of
lengths holds the lengths of such subsequences for all pairs of suffixes; to walk along it, and to
set equal ends aside before, reaches the bound.
-/

namespace LiveResource

/-- Two lists have a common subsequence of some length, up to equality of values. -/
def Common (old new : List Value) (n : Nat) : Prop :=
  ∃ as bs : List Value, as.Sublist old ∧ bs.Sublist new ∧ (as == bs) = true ∧ as.length = n

def lcsLength : List Value → List Value → Nat
  | [], _ => 0
  | _ :: _, [] => 0
  | a :: as, b :: bs =>
    if a == b then lcsLength as bs + 1 else max (lcsLength as (b :: bs)) (lcsLength (a :: as) bs)
termination_by as bs => as.length + bs.length

variable {as bs cs ds old new result values front back : List Value} {a b value : Value}
  {n position : Nat} {edit : Edit} {script : List Edit}

theorem length_of_beq (h : (as == bs) = true) : as.length = bs.length := by
  rw [beq_list_iff_map Value.beq_iff_normal] at h
  rw [← List.length_map Value.normal, h, List.length_map]

theorem exists_sublist_of_beq (hsub : cs.Sublist as) (h : (as == bs) = true) :
    ∃ ds : List Value, ds.Sublist bs ∧ (cs == ds) = true := by
  rw [beq_list_iff_map Value.beq_iff_normal] at h
  have hmap : (cs.map Value.normal).Sublist (bs.map Value.normal) := h ▸ hsub.map Value.normal
  obtain ⟨ds, hds, heq⟩ := List.sublist_map_iff.mp hmap
  exact ⟨ds, hds, (beq_list_iff_map Value.beq_iff_normal _ _).mpr heq⟩

theorem tail_beq_tail (h : (as == bs) = true) : (as.tail == bs.tail) = true := by
  rw [beq_list_iff_map Value.beq_iff_normal] at h ⊢
  rw [List.map_tail, List.map_tail, h]

theorem common_lcsLength (as bs : List Value) : Common as bs (lcsLength as bs) := by
  induction as, bs using lcsLength.induct with
  | case1 bs =>
    rw [lcsLength]
    exact ⟨[], [], .slnil, List.nil_sublist bs, rfl, rfl⟩
  | case2 a as =>
    rw [lcsLength]
    exact ⟨[], [], List.nil_sublist _, .slnil, rfl, rfl⟩
  | case3 a as b bs hab ih =>
    obtain ⟨cs, ds, hcs, hds, hsame, hlength⟩ := ih
    rw [lcsLength, if_pos hab]
    refine ⟨a :: cs, b :: ds, hcs.cons_cons a, hds.cons_cons b, ?_, congrArg (· + 1) hlength⟩
    rw [List.cons_beq_cons, hab, hsame]
    rfl
  | case4 a as b bs hab ihold ihnew =>
    rw [lcsLength, if_neg hab]
    rcases Nat.le_total (lcsLength as (b :: bs)) (lcsLength (a :: as) bs) with hle | hle
    · obtain ⟨cs, ds, hcs, hds, hsame, hlength⟩ := ihnew
      rw [Nat.max_eq_right hle]
      exact ⟨cs, ds, hcs, hds.cons b, hsame, hlength⟩
    · obtain ⟨cs, ds, hcs, hds, hsame, hlength⟩ := ihold
      rw [Nat.max_eq_left hle]
      exact ⟨cs, ds, hcs.cons a, hds, hsame, hlength⟩

theorem length_le_lcsLength (hcs : cs.Sublist as) (hds : ds.Sublist bs) (h : (cs == ds) = true) :
    cs.length ≤ lcsLength as bs := by
  induction as, bs using lcsLength.induct generalizing cs ds with
  | case1 bs =>
    rw [List.sublist_nil.mp hcs]
    exact Nat.zero_le _
  | case2 a as =>
    rw [length_of_beq h, List.sublist_nil.mp hds]
    exact Nat.zero_le _
  | case3 a as b bs hab ih =>
    have htail := ih hcs.tail hds.tail (tail_beq_tail h)
    rw [List.length_tail] at htail
    rw [lcsLength, if_pos hab]
    omega
  | case4 a as b bs hab ihold ihnew =>
    rw [lcsLength, if_neg hab]
    -- two that both begin with the heads would be equal there
    cases hcs with
    | cons _ hcs => exact (ihold hcs hds h).trans (Nat.le_max_left _ _)
    | cons_cons _ hcs' =>
      cases hds with
      | cons _ hds => exact (ihnew (hcs'.cons_cons a) hds h).trans (Nat.le_max_right _ _)
      | cons_cons _ _ =>
        rw [List.cons_beq_cons, Bool.and_eq_true] at h
        exact absurd h.1 hab

theorem isGreatest_lcsLength (old new : List Value) :
    IsGreatest {n | Common old new n} (lcsLength old new) := by
  refine ⟨common_lcsLength old new, ?_⟩
  rintro n ⟨as, bs, has, hbs, hsame, rfl⟩
  exact length_le_lcsLength has hbs hsame

theorem Common.reverse (h : Common as bs n) : Common as.reverse bs.reverse n := by
  obtain ⟨cs, ds, hcs, hds, hsame, hlength⟩ := h
  exact ⟨cs.reverse, ds.reverse, hcs.reverse, hds.reverse, reverse_beq_reverse hsame,
    List.length_reverse.trans hlength⟩

theorem lcsLength_reverse (as bs : List Value) :
    lcsLength as.reverse bs.reverse = lcsLength as bs := by
  refine (isGreatest_lcsLength _ _).unique ⟨(common_lcsLength as bs).reverse, fun n hn => ?_⟩
  have hback := Common.reverse hn
  rw [List.reverse_reverse, List.reverse_reverse] at hback
  exact (isGreatest_lcsLength as bs).2 hback

/-- What two lists have in common at their front belongs to a longest common subsequence. -/
theorem lcsLength_drop_commonPrefix (as bs : List Value) :
    lcsLength as bs = commonPrefix as bs +
      lcsLength (as.drop (commonPrefix as bs)) (bs.drop (commonPrefix as bs)) := by
  induction as, bs using commonPrefix.induct with
  | case1 a as b bs hab ih =>
    rw [commonPrefix, if_pos hab, lcsLength, if_pos hab, List.drop_succ_cons, List.drop_succ_cons,
      ih]
    omega
  | case2 a as b bs hab =>
    rw [commonPrefix, if_neg hab, Nat.zero_add, List.drop_zero, List.drop_zero]
  | case3 as bs hnot =>
    rw [commonPrefix, Nat.zero_add, List.drop_zero, List.drop_zero]
    exact hnot

theorem commonPrefix_le_right (as bs : List Value) : commonPrefix as bs ≤ bs.length := by
  have hlength := length_of_beq (take_commonPrefix as bs)
  rw [List.length_take, List.length_take, Nat.min_eq_left (commonPrefix_le_left as bs)] at hlength
  omega

theorem lcsLength_take_commonPrefix (as bs : List Value) :
    lcsLength as bs = commonPrefix as.reverse bs.reverse +
      lcsLength (as.take (as.length - commonPrefix as.reverse bs.reverse))
        (bs.take (bs.length - commonPrefix as.reverse bs.reverse)) := by
  have hfront := lcsLength_drop_commonPrefix as.reverse bs.reverse
  rw [List.drop_reverse, List.drop_reverse, lcsLength_reverse, lcsLength_reverse] at hfront
  exact hfront

def lcsGrid (as bs : List Value) : List (List Nat) :=
  as.tails.map fun as => bs.tails.map (lcsLength as)

theorem headD_map_tails {α β : Type} (f : List α → β) (l : List α) (d : β) :
    (l.tails.map f).headD d = f l := by
  cases l <;> rfl

theorem lcsRow_eq (a : Value) (as bs : List Value) :
    lcsRow a bs (bs.tails.map (lcsLength as)) = bs.tails.map (lcsLength (a :: as)) := by
  induction bs with
  | nil => rw [lcsRow, List.tails, List.map_singleton, lcsLength]; exact nofun
  | cons b bs ih =>
    rw [List.tails_cons, List.map_cons, lcsRow, ih, headD_map_tails, headD_map_tails, List.map_cons,
      lcsLength]

theorem lcsTable_eq (as bs : List Value) : lcsTable bs as = lcsGrid as bs := by
  induction as with
  | nil =>
    have hzero : lcsLength [] = fun _ => 0 := funext fun bs => by rw [lcsLength]
    rw [lcsTable, lcsGrid, List.tails, List.map_singleton, hzero, List.map_const',
      List.length_tails]
  | cons a as ih =>
    rw [lcsTable, ih, lcsGrid, headD_map_tails, lcsRow_eq, lcsGrid, List.tails_cons, List.map_cons]

theorem drop_map_tails {α β : Type} (f : List α → β) (x : α) (l : List α) :
    ((x :: l).tails.map f).drop 1 = l.tails.map f := by
  rw [List.tails_cons, List.map_cons, List.drop_succ_cons, List.drop_zero]

theorem drop_lcsGrid (a : Value) (as bs : List Value) :
    (lcsGrid (a :: as) bs).drop 1 = lcsGrid as bs :=
  drop_map_tails _ a as

theorem map_drop_lcsGrid (b : Value) (as bs : List Value) :
    (lcsGrid as (b :: bs)).map (·.drop 1) = lcsGrid as bs := by
  unfold lcsGrid
  rw [List.map_map]
  exact List.map_congr_left fun as _ => drop_map_tails _ b bs

theorem headD_lcsGrid (as bs : List Value) :
    (lcsGrid as bs).headD [] = bs.tails.map (lcsLength as) :=
  headD_map_tails _ as []

theorem length_editsAlong_nil (as : List Value) (table : List (List Nat)) (position : Nat) :
    (editsAlong as [] table position).length = as.length := by
  induction as with
  | nil => simp [editsAlong]
  | cons a as ih => rw [editsAlong, List.length_cons, ih, List.length_cons]

/-- A script along the table keeps a longest common subsequence, and touches all else once. -/
theorem length_editsAlong (as bs : List Value) (position : Nat) :
    (editsAlong as bs (lcsGrid as bs) position).length + 2 * lcsLength as bs =
      as.length + bs.length := by
  generalize htable : lcsGrid as bs = table
  induction as, bs, table, position using editsAlong.induct with
  | case1 bs table position =>
    rw [editsAlong, lcsLength]
    simp
  | case2 a as table position ih =>
    rw [length_editsAlong_nil, lcsLength]
    simp
  | case3 a as b bs table position below hab ih =>
    subst htable
    have hbelow : lcsGrid as bs = below.map (·.drop 1) := by
      rw [← map_drop_lcsGrid b as bs, ← drop_lcsGrid a as (b :: bs)]
    have hlength := ih hbelow
    rw [← hbelow] at hlength
    rw [editsAlong, if_pos hab, lcsLength, if_pos hab, drop_lcsGrid, map_drop_lcsGrid,
      List.length_cons, List.length_cons]
    omega
  | case4 a as b bs table position row below hab hle ih =>
    subst htable
    have hbelow : below = lcsGrid as (b :: bs) := drop_lcsGrid a as (b :: bs)
    have hrow : row = (b :: bs).tails.map (lcsLength (a :: as)) := headD_lcsGrid (a :: as) (b :: bs)
    have hlength := ih hbelow.symm
    rw [hbelow] at hlength
    rw [editsAlong, if_neg hab, if_pos hle, lcsLength, if_neg hab, drop_lcsGrid]
    rw [hbelow, hrow, headD_lcsGrid, headD_map_tails, drop_map_tails, headD_map_tails] at hle
    rw [Nat.max_eq_left hle]
    simp only [List.length_cons] at hlength ⊢
    omega
  | case5 a as b bs table position row below hab hle ih =>
    subst htable
    have hrow : row = (b :: bs).tails.map (lcsLength (a :: as)) := headD_lcsGrid (a :: as) (b :: bs)
    have hbelow : below = lcsGrid as (b :: bs) := drop_lcsGrid a as (b :: bs)
    simp only [List.map_subtype, List.unattach_attach] at ih
    have hlength := ih (map_drop_lcsGrid b (a :: as) bs).symm
    rw [map_drop_lcsGrid] at hlength
    rw [editsAlong, if_neg hab, if_neg hle, lcsLength, if_neg hab, map_drop_lcsGrid]
    rw [hbelow, hrow, headD_lcsGrid, headD_map_tails, drop_map_tails, headD_map_tails] at hle
    rw [Nat.max_eq_right (Nat.le_of_not_le hle)]
    simp only [List.length_cons] at hlength ⊢
    omega

theorem length_diffCollection (old new : List Value) :
    (diffCollection old new).length + 2 * lcsLength old new = old.length + new.length := by
  have hfront := lcsLength_drop_commonPrefix old new
  have hold := commonPrefix_le_left old new
  have hnew := commonPrefix_le_right old new
  dsimp only [diffCollection]
  generalize commonPrefix old new = front at hfront hold hnew ⊢
  have hback := lcsLength_take_commonPrefix (old.drop front) (new.drop front)
  have hold' := commonPrefix_le_left (old.drop front).reverse (new.drop front).reverse
  have hnew' := commonPrefix_le_right (old.drop front).reverse (new.drop front).reverse
  generalize commonPrefix (old.drop front).reverse (new.drop front).reverse = back at *
  have hlength := length_editsAlong ((old.drop front).take ((old.drop front).length - back))
    ((new.drop front).take ((new.drop front).length - back)) front
  rw [lcsTable_eq]
  rw [List.length_reverse, List.length_drop] at hold' hnew'
  rw [List.length_take, List.length_take, List.length_drop, List.length_drop] at hlength
  rw [List.length_drop, List.length_drop] at hback
  rw [List.length_drop, List.length_drop]
  omega

theorem exists_sublist_of_insert (h : cs.Sublist (front ++ value :: back)) :
    ∃ ds : List Value, ds.Sublist cs ∧ ds.Sublist (front ++ back) ∧ cs.length ≤ ds.length + 1 := by
  obtain ⟨l, r, rfl, hl, hr⟩ := List.sublist_append_iff.mp h
  refine ⟨l ++ r.tail, (List.tail_sublist r).append_left l, hl.append hr.tail, ?_⟩
  rw [List.length_append, List.length_append, List.length_tail]
  omega

/-- What a script keeps is in both lists, and each of its steps spares at most one value less. -/
theorem exists_kept (h : replay old script = some result) :
    ∃ cs : List Value, cs.Sublist old ∧ cs.Sublist result ∧
      old.length + result.length ≤ script.length + 2 * cs.length := by
  induction script generalizing old with
  | nil =>
    rw [replay] at h
    rw [← Option.some.inj h]
    refine ⟨old, .refl old, .refl old, ?_⟩
    rw [List.length_nil]
    omega
  | cons edit script ih =>
    rw [replay] at h
    cases edit with
    | add index value =>
      by_cases hindex : index ≤ old.length
      · have happly := apply_add_at (old.take index) (old.drop index) value
        rw [List.length_take_of_le hindex, List.take_append_drop] at happly
        rw [happly] at h
        obtain ⟨cs, hold, hresult, hlength⟩ := ih h
        obtain ⟨ds, hds, hold', hshort⟩ := exists_sublist_of_insert hold
        rw [List.take_append_drop] at hold'
        rw [List.length_append, List.length_cons, List.length_take_of_le hindex, List.length_drop]
          at hlength
        refine ⟨ds, hold', hds.trans hresult, ?_⟩
        rw [List.length_cons]
        omega
      · rw [Edit.apply, if_neg hindex] at h
        cases h
    | remove index =>
      by_cases hindex : index < old.length
      · rw [Edit.apply, if_pos hindex] at h
        obtain ⟨cs, hold, hresult, hlength⟩ := ih h
        rw [List.length_eraseIdx_of_lt hindex] at hlength
        refine ⟨cs, hold.trans (List.eraseIdx_sublist old index), hresult, ?_⟩
        rw [List.length_cons]
        omega
      · rw [Edit.apply, if_neg hindex] at h
        cases h

/-- A script that turns one list into another is no shorter than what no common subsequence has. -/
theorem length_le_of_replay (h : replay old script = some result) (hsame : (result == new) = true) :
    old.length + new.length ≤ script.length + 2 * lcsLength old new := by
  obtain ⟨cs, hold, hresult, hlength⟩ := exists_kept h
  obtain ⟨ds, hnew, hkept⟩ := exists_sublist_of_beq hresult hsame
  have hle := length_le_lcsLength hold hnew hkept
  rw [length_of_beq hsame] at hlength
  omega

/-- The difference of two lists, replayed on the first one, has every index in range at its turn and
ends in a list equal to the second one. It has just as many steps as a longest common subsequence
leaves over, which no other such script falls below, and none if the lists are equal. -/
theorem diffCollection_shortest (old new : List Value) :
    (∃ result, replay old (diffCollection old new) = some result ∧ (result == new) = true) ∧
    (∃ n, IsGreatest {n | Common old new n} n ∧
      (diffCollection old new).length + 2 * n = old.length + new.length) ∧
    (∀ script result, replay old script = some result → (result == new) = true →
      (diffCollection old new).length ≤ script.length) ∧
    (diffCollection old new = [] ↔ (old == new) = true) := by
  have hlength := length_diffCollection old new
  have hleast (script : List Edit) (result : List Value) (hreplay : replay old script = some result)
      (hsame : (result == new) = true) : (diffCollection old new).length ≤ script.length := by
    have hle := length_le_of_replay hreplay hsame
    omega
  refine ⟨replay_diffCollection old new, ⟨_, isGreatest_lcsLength old new, hlength⟩, hleast, ?_⟩
  constructor
  · intro hnil
    obtain ⟨result, hreplay, hsame⟩ := replay_diffCollection old new
    rw [hnil, replay] at hreplay
    cases hreplay
    exact hsame
  · intro hsame
    exact List.length_eq_zero_iff.mp (Nat.le_zero.mp (hleast [] old rfl hsame))

end LiveResource
