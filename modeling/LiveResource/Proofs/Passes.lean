import LiveResource.Store.Eviction

set_option autoImplicit false

/-!
# The two passes of an eviction

The first pass meets what paths through unsubscribed resources lead to, and leaves for each of them
the references that none of them holds. The second pass marks all of these: for keeping what a path
leads to from one with such a reference, and the rest for deletion. Neither depends on the order in
which the references of a replica are followed.
-/

namespace LiveResource

/-- A path along `next` of which every node lies inside a set. -/
inductive Within (next : String → List String) (inside : String → Prop) (a : String) :
    String → Prop
  | start : inside a → Within next inside a a
  | step {b c : String} : Within next inside a b → c ∈ next b → inside c → Within next inside a c

namespace Within

variable {next : String → List String} {inside outside : String → Prop} {a b c : String}

theorem inside_end (h : Within next inside a b) : inside b := by
  cases h with
  | start ha => exact ha
  | step _ _ hb => exact hb

theorem inside_start (h : Within next inside a b) : inside a := by
  induction h with
  | start ha => exact ha
  | step _ _ _ ih => exact ih

theorem trans (hab : Within next inside a b) (hbc : Within next inside b c) :
    Within next inside a c := by
  induction hbc with
  | start _ => exact hab
  | step _ hnext hin ih => exact .step ih hnext hin

theorem mono (h : Within next inside a b) (himp : ∀ x, inside x → outside x) :
    Within next outside a b := by
  induction h with
  | start ha => exact .start (himp _ ha)
  | step _ hnext hin ih => exact .step ih hnext (himp _ hin)

/-- A path avoids a node from its last visit to that node on. -/
theorem avoid (node : String) (h : Within next inside a b) :
    b = node ∨ Within next (fun x => inside x ∧ node ≠ x) a b ∨
      ∃ start ∈ next node, Within next (fun x => inside x ∧ node ≠ x) start b := by
  induction h with
  | start ha =>
    by_cases heq : a = node
    · exact .inl heq
    · exact .inr (.inl (.start ⟨ha, Ne.symm heq⟩))
  | @step b c _ hnext hin ih =>
    by_cases heq : c = node
    · exact .inl heq
    · have hc : inside c ∧ node ≠ c := ⟨hin, Ne.symm heq⟩
      rcases ih with hb | hpath | ⟨start, hstart, hpath⟩
      · subst hb
        exact .inr (.inr ⟨c, hnext, .start hc⟩)
      · exact .inr (.inl (.step hpath hnext hc))
      · exact .inr (.inr ⟨start, hstart, .step hpath hnext hc⟩)

end Within

theorem Within.congr {next next' : String → List String} {inside inside' : String → Prop}
    (hnext : ∀ x y, y ∈ next x ↔ y ∈ next' x) (hinside : ∀ x, inside x ↔ inside' x)
    {a b : String} : Within next inside a b ↔ Within next' inside' a b := by
  constructor
  · intro h
    induction h with
    | start ha => exact .start ((hinside _).mp ha)
    | step _ hmem hin ih => exact .step ih ((hnext _ _).mp hmem) ((hinside _).mp hin)
  · intro h
    induction h with
    | start ha => exact .start ((hinside _).mpr ha)
    | step _ hmem hin ih => exact .step ih ((hnext _ _).mpr hmem) ((hinside _).mpr hin)

variable {index : Std.HashMap String Entry} {next : String → List String} {refs : RefStates}
  {rid x : String}

theorem ne_of_idle? {e : Entry} (he : idle? index rid = some e) (hx : idle? index x = none) :
    rid ≠ x := fun heq => by
  rw [heq, hx] at he
  cases he

def Entry.visited (e : Entry) (noted : Option RefState) : Nat → Option RefState
  | 0 => noted
  | visits + 1 =>
    match noted with
    | some state => some { state with remaining := state.remaining - (visits + 1 : Nat) }
    | none => some ⟨e.indirect - (visits + 1 : Nat), .unset⟩

theorem Entry.visited_visited (e : Entry) (noted : Option RefState) (visits : Nat) :
    e.visited (e.visited noted 1) visits = e.visited noted (visits + 1) := by
  cases visits with
  | zero => rfl
  | succ visits =>
    cases noted with
    | none =>
      simp only [visited, Option.some.injEq, RefState.mk.injEq, and_true]
      omega
    | some state =>
      simp only [visited, Option.some.injEq, RefState.mk.injEq, and_true]
      omega

def Unmet (index : Std.HashMap String Entry) (refs : RefStates) (x : String) : Prop :=
  idle? index x ≠ none ∧ refs[x]? = none

/-- What has been found when the first pass is through with some visits: which resources it has met,
and how often it has come to each of them. -/
structure Sought (index : Std.HashMap String Entry) (next : String → List String)
    (refs : RefStates) (calls : List String) (met : List String) (refs' : RefStates) : Prop where
  nodup : met.Nodup
  reached : ∀ x, x ∈ met ↔ ∃ a ∈ calls, Within next (Unmet index refs) a x
  visited : ∀ x e, idle? index x = some e →
    refs'[x]? = e.visited refs[x]? ((calls ++ met.flatMap next).count x)
  others : ∀ x, idle? index x = none → refs'[x]? = refs[x]?

namespace Sought

variable {calls rest met : List String} {refs' : RefStates} {state : RefState} {e : Entry}

theorem skip (hidle : idle? index rid = none) (h : Sought index next refs rest met refs') :
    Sought index next refs (rid :: rest) met refs' := by
  refine ⟨h.nodup, fun x => (h.reached x).trans ?_, fun x e he => ?_, h.others⟩
  · constructor
    · rintro ⟨a, ha, hpath⟩
      exact ⟨a, List.mem_cons_of_mem _ ha, hpath⟩
    · rintro ⟨a, ha, hpath⟩
      rcases List.mem_cons.mp ha with rfl | ha
      · exact absurd hidle hpath.inside_start.1
      · exact ⟨a, ha, hpath⟩
  · rw [h.visited x e he, List.cons_append, List.count_cons_of_ne (ne_of_idle? he hidle).symm]

theorem again (hidle : idle? index rid = some e) (hmet : refs[rid]? = some state)
    (h : Sought index next
      (refs.insert rid { state with remaining := state.remaining - 1 }) rest met refs') :
    Sought index next refs (rid :: rest) met refs' := by
  have hunmet (y : String) :
      Unmet index (refs.insert rid { state with remaining := state.remaining - 1 }) y ↔
        Unmet index refs y := by
    unfold Unmet
    rw [RefStates.getElem?_insert]
    by_cases hy : rid = y
    · subst hy
      simp [hmet]
    · simp [hy]
  refine ⟨h.nodup, fun x => (h.reached x).trans ?_, fun x ex hex => ?_, fun x hx => ?_⟩
  · constructor
    · rintro ⟨a, ha, hpath⟩
      exact ⟨a, List.mem_cons_of_mem _ ha, (Within.congr (fun _ _ => .rfl) hunmet).mp hpath⟩
    · rintro ⟨a, ha, hpath⟩
      rcases List.mem_cons.mp ha with rfl | ha
      · have hnone := hpath.inside_start.2
        rw [hmet] at hnone
        cases hnone
      · exact ⟨a, ha, (Within.congr (fun _ _ => .rfl) hunmet).mpr hpath⟩
  · rw [h.visited x ex hex, RefStates.getElem?_insert, List.cons_append]
    by_cases hx : rid = x
    · subst hx
      rw [if_pos rfl, List.count_cons_self, hmet]
      exact ex.visited_visited (some state) _
    · rw [if_neg hx, List.count_cons_of_ne hx]
  · rw [h.others x hx, RefStates.getElem?_insert, if_neg (ne_of_idle? hidle hx)]

theorem first (hidle : idle? index rid = some e) (hmet : refs[rid]? = none)
    (h : Sought index next (refs.insert rid ⟨e.indirect - 1, .unset⟩) (next rid ++ rest) met
      refs') :
    Sought index next refs (rid :: rest) (rid :: met) refs' := by
  have hunmet (y : String) : Unmet index (refs.insert rid ⟨e.indirect - 1, .unset⟩) y ↔
      Unmet index refs y ∧ rid ≠ y := by
    unfold Unmet
    rw [RefStates.getElem?_insert]
    by_cases hy : rid = y <;> simp [hy]
  have hrid : Unmet index refs rid := ⟨by simp [hidle], hmet⟩
  have hnot : rid ∉ met := fun hmem => by
    obtain ⟨_, _, hpath⟩ := (h.reached rid).mp hmem
    exact ((hunmet rid).mp hpath.inside_end).2 rfl
  refine ⟨List.nodup_cons.mpr ⟨hnot, h.nodup⟩, fun x => ?_, fun x ex hex => ?_, fun x hx => ?_⟩
  · rw [List.mem_cons, h.reached]
    constructor
    · rintro (rfl | ⟨a, ha, hpath⟩)
      · exact ⟨x, List.mem_cons_self, .start hrid⟩
      · have hpath' := hpath.mono fun y hy => ((hunmet y).mp hy).1
        rcases List.mem_append.mp ha with ha | ha
        · have hstep : Within next (Unmet index refs) rid a :=
            .step (.start hrid) ha hpath'.inside_start
          exact ⟨rid, List.mem_cons_self, hstep.trans hpath'⟩
        · exact ⟨a, List.mem_cons_of_mem _ ha, hpath'⟩
    · rintro ⟨a, ha, hpath⟩
      -- from its last visit to the new resource on a path avoids that
      rcases hpath.avoid rid with hx | hpath' | ⟨start, hstart, hpath'⟩
      · exact .inl hx
      · have ha' : a ∈ rest :=
          (List.mem_cons.mp ha).resolve_left (Ne.symm hpath'.inside_start.2)
        exact .inr ⟨a, List.mem_append.mpr (.inr ha'), hpath'.mono fun y hy => (hunmet y).mpr hy⟩
      · exact .inr ⟨start, List.mem_append.mpr (.inl hstart),
          hpath'.mono fun y hy => (hunmet y).mpr hy⟩
  · have hcount : ((rid :: rest) ++ (rid :: met).flatMap next).count x =
        (if rid = x then 1 else 0) + ((next rid ++ rest) ++ met.flatMap next).count x := by
      rw [List.flatMap_cons, List.cons_append, List.count_cons]
      simp only [List.count_append, beq_iff_eq]
      omega
    rw [h.visited x ex hex, RefStates.getElem?_insert, hcount]
    by_cases hx : rid = x
    · subst hx
      cases hidle.symm.trans hex
      rw [if_pos rfl, if_pos rfl, Nat.add_comm 1, hmet]
      exact e.visited_visited none _
    · rw [if_neg hx, if_neg hx, Nat.zero_add]
  · rw [h.others x hx, RefStates.getElem?_insert, if_neg (ne_of_idle? hidle hx)]

theorem mem_iff_visited (h : Sought index next refs calls met refs') (hx : Unmet index refs x) :
    x ∈ met ↔ x ∈ calls ++ met.flatMap next := by
  constructor
  · intro hmem
    obtain ⟨a, ha, hpath⟩ := (h.reached x).mp hmem
    cases hpath with
    | start _ => exact List.mem_append_left _ ha
    | @step b _ hab hb _ =>
      have hbmet : b ∈ met := (h.reached b).mpr ⟨a, ha, hab⟩
      exact List.mem_append_right _ (List.mem_flatMap.mpr ⟨b, hbmet, hb⟩)
  · intro hmem
    rcases List.mem_append.mp hmem with hmem | hmem
    · exact (h.reached x).mpr ⟨x, hmem, .start hx⟩
    · obtain ⟨b, hb, hbx⟩ := List.mem_flatMap.mp hmem
      obtain ⟨a, ha, hpath⟩ := (h.reached b).mp hb
      exact (h.reached x).mpr ⟨a, ha, .step hpath hbx hx⟩

end Sought

theorem seekRefs_skip (hidle : idle? index rid = none) (rest : List String) :
    seekRefs index next refs (rid :: rest) = seekRefs index next refs rest := by
  rw [seekRefs]
  split
  · rfl
  · rename_i heq _
    cases hidle.symm.trans heq
  · rename_i heq _
    cases hidle.symm.trans heq

theorem seekRefs_again {e : Entry} {state : RefState} (hidle : idle? index rid = some e)
    (hmet : refs[rid]? = some state) (rest : List String) :
    seekRefs index next refs (rid :: rest) = seekRefs index next
      (refs.insert rid { state with remaining := state.remaining - 1 }) rest := by
  rw [seekRefs]
  split
  · rename_i heq
    cases hidle.symm.trans heq
  · rename_i heq
    cases hmet.symm.trans heq
    rfl
  · rename_i heq
    cases hmet.symm.trans heq

theorem seekRefs_first {e : Entry} (hidle : idle? index rid = some e)
    (hmet : refs[rid]? = none) (rest : List String) :
    seekRefs index next refs (rid :: rest) = seekRefs index next
      (refs.insert rid ⟨e.indirect - 1, .unset⟩) (next rid ++ rest) := by
  rw [seekRefs]
  split
  · rename_i heq
    cases hidle.symm.trans heq
  · rename_i heq
    cases hmet.symm.trans heq
  · rename_i heq _
    cases hidle.symm.trans heq
    rfl

/-- The first pass meets what paths through unmet resources lead to, each once. -/
theorem exists_sought (index : Std.HashMap String Entry) (next : String → List String)
    (refs : RefStates) (calls : List String) :
    ∃ met, Sought index next refs calls met (seekRefs index next refs calls) := by
  induction refs, calls using seekRefs.induct index next with
  | case1 refs =>
    rw [seekRefs]
    exact ⟨[], .nil, fun x => by simp, fun x e _ => rfl, fun x _ => rfl⟩
  | case2 refs rid rest hidle ih =>
    rw [seekRefs_skip hidle]
    obtain ⟨met, h⟩ := ih
    exact ⟨met, h.skip hidle⟩
  | case3 refs rid rest e state hidle hmet ih =>
    rw [seekRefs_again hidle hmet]
    obtain ⟨met, h⟩ := ih
    exact ⟨met, h.again hidle hmet⟩
  | case4 refs rid rest e hidle hmet ih =>
    rw [seekRefs_first hidle hmet]
    obtain ⟨met, h⟩ := ih
    exact ⟨rid :: met, h.first hidle hmet⟩

theorem seekRefs_append (refs : RefStates) (first rest : List String) :
    seekRefs index next refs (first ++ rest) =
      seekRefs index next (seekRefs index next refs first) rest := by
  induction refs, first using seekRefs.induct index next with
  | case1 refs => rw [List.nil_append, seekRefs.eq_1]
  | case2 refs rid more hidle ih =>
    rw [List.cons_append, seekRefs_skip hidle, ih, seekRefs_skip hidle]
  | case3 refs rid more e state hidle hmet ih =>
    rw [List.cons_append, seekRefs_again hidle hmet, ih, seekRefs_again hidle hmet]
  | case4 refs rid more e hidle hmet ih =>
    rw [List.cons_append, seekRefs_first hidle hmet, ← List.append_assoc, ih,
      seekRefs_first hidle hmet]

theorem seekRefs_eq_foldl (refs : RefStates) (calls : List String) :
    seekRefs index next refs calls =
      calls.foldl (fun refs rid => seekRefs index next refs [rid]) refs := by
  induction calls generalizing refs with
  | nil => rw [seekRefs, List.foldl_nil]
  | cons rid rest ih =>
    rw [← List.singleton_append, seekRefs_append, ih, List.singleton_append, List.foldl_cons]

/-- The list of the first pass is the stack of a recursion: to visit a resource for the first time
is to note it and then to visit what it refers to, one after the other. -/
theorem seekRefs_recursion {e : Entry} (hidle : idle? index rid = some e)
    (hmet : refs[rid]? = none) : seekRefs index next refs [rid] =
      (next rid).foldl (fun refs child => seekRefs index next refs [child])
        (refs.insert rid ⟨e.indirect - 1, .unset⟩) := by
  rw [seekRefs_first hidle hmet, List.append_nil, seekRefs_eq_foldl]

theorem markRefs_mark {e : Entry} {state : RefState} {incoming mark : Mark}
    (hidle : idle? index rid = some e) (hmet : refs[rid]? = some state)
    (hmark : state.remark? incoming = some mark) (rest : List (String × Mark)) :
    markRefs index next refs ((rid, incoming) :: rest) =
      markRefs index next (refs.insert rid { state with mark := mark })
        ((next rid).map (·, mark) ++ rest) := by
  rw [markRefs]
  split
  · rename_i heq
    cases hmet.symm.trans heq
    split
    · rename_i heq'
      cases hmark.symm.trans heq'
      rfl
    · rename_i heq'
      cases hmark.symm.trans heq'
  · rename_i hnot
    exact absurd hmet (hnot _ _ hidle)

theorem markRefs_skip {incoming : Mark} (h : ∀ e state, idle? index rid = some e →
    refs[rid]? = some state → state.remark? incoming = none) (rest : List (String × Mark)) :
    markRefs index next refs ((rid, incoming) :: rest) = markRefs index next refs rest := by
  rw [markRefs]
  split
  · rename_i e state hidle hmet
    split
    · rename_i heq
      cases (h e state hidle hmet).symm.trans heq
    · rfl
  · rfl

theorem markRefs_append (refs : RefStates) (first rest : List (String × Mark)) :
    markRefs index next refs (first ++ rest) =
      markRefs index next (markRefs index next refs first) rest := by
  induction refs, first using markRefs.induct index next with
  | case1 refs => rw [List.nil_append, markRefs.eq_1]
  | case2 refs rid incoming more e state hidle hmet mark hmark ih =>
    rw [List.cons_append, markRefs_mark hidle hmet hmark, ← List.append_assoc, ih,
      markRefs_mark hidle hmet hmark]
  | case3 refs rid incoming more e state hidle hmet hmark ih =>
    have hnothing : ∀ e' state', idle? index rid = some e' → refs[rid]? = some state' →
        state'.remark? incoming = none := fun _ _ _ hmet' => by
      cases hmet.symm.trans hmet'
      exact hmark
    rw [List.cons_append, markRefs_skip hnothing, ih, markRefs_skip hnothing]
  | case4 refs rid incoming more hnot ih =>
    have hnothing : ∀ e' state', idle? index rid = some e' → refs[rid]? = some state' →
        state'.remark? incoming = none := fun _ _ hidle hmet => (hnot _ _ hidle hmet).elim
    rw [List.cons_append, markRefs_skip hnothing, ih, markRefs_skip hnothing]

theorem markRefs_eq_foldl (refs : RefStates) (calls : List (String × Mark)) :
    markRefs index next refs calls =
      calls.foldl (fun refs call => markRefs index next refs [call]) refs := by
  induction calls generalizing refs with
  | nil => rw [markRefs, List.foldl_nil]
  | cons call rest ih =>
    rw [← List.singleton_append, markRefs_append, ih, List.singleton_append, List.foldl_cons]

/-- So is that of the second pass: to give a resource a mark is to pass it on to what the resource
refers to, one after the other. -/
theorem markRefs_recursion {e : Entry} {state : RefState} {incoming mark : Mark}
    (hidle : idle? index rid = some e) (hmet : refs[rid]? = some state)
    (hmark : state.remark? incoming = some mark) : markRefs index next refs [(rid, incoming)] =
      (next rid).foldl (fun refs child => markRefs index next refs [(child, mark)])
        (refs.insert rid { state with mark := mark }) := by
  rw [markRefs_mark hidle hmet hmark, List.append_nil, markRefs_eq_foldl, List.foldl_map]

def Met (refs : RefStates) (x : String) : Prop := refs[x]? ≠ none

def Spared (next : String → List String) (known : RefStates) (x : String) : Prop :=
  ∃ y state, known[y]? = some state ∧ 0 < state.remaining ∧ Within next (Met known) y x

def Marked (refs : RefStates) (x : String) : Prop :=
  ∃ state, refs[x]? = some state ∧ state.mark ≠ .unset

def Kept (refs : RefStates) (x : String) : Prop :=
  ∃ state, refs[x]? = some state ∧ state.mark = .keep

/-- The second pass on its way, with some calls still to be made: what a mark demands of the
resources that are referred to has been done or is going to be done. -/
structure Marking (next : String → List String) (known : RefStates) (root : String)
    (refs : RefStates) (calls : List (String × Mark)) : Prop where
  remaining : ∀ x : String, refs[x]?.map RefState.remaining = known[x]?.map RefState.remaining
  kept : ∀ {x}, Kept refs x → Spared next known x ∧
    ∀ c ∈ next x, Met known c → Kept refs c ∨ (c, .keep) ∈ calls
  deleted : ∀ {x state}, refs[x]? = some state → state.mark = .delete → ¬ 0 < state.remaining ∧
    ∀ c ∈ next x, Met known c → Marked refs c ∨ ∃ mark, (c, mark) ∈ calls
  called : ∀ {c mark}, (c, mark) ∈ calls →
    mark = .delete ∨ mark = .keep ∧ (Met known c → Spared next known c)
  root : Marked refs root ∨ ∃ mark, (root, mark) ∈ calls

theorem Kept.marked (h : Kept refs x) : Marked refs x := by
  obtain ⟨state, hstate, hkeep⟩ := h
  exact ⟨state, hstate, by simp [hkeep]⟩

theorem Marked.insert (h : Marked refs x) (rid : String) {state : RefState}
    (hmark : state.mark ≠ .unset) : Marked (refs.insert rid state) x := by
  obtain ⟨other, hother, hunset⟩ := h
  by_cases hx : rid = x
  · exact ⟨state, by rw [RefStates.getElem?_insert, if_pos hx], hmark⟩
  · exact ⟨other, by rw [RefStates.getElem?_insert, if_neg hx, hother], hunset⟩

/-- What is kept stays so, whatever else gets a mark. -/
theorem Kept.insert (h : Kept refs x) {old : RefState} (hold : refs[rid]? = some old)
    (hnot : old.mark ≠ .keep) (state : RefState) : Kept (refs.insert rid state) x := by
  obtain ⟨other, hother, hkeep⟩ := h
  have hne : rid ≠ x := fun heq => by
    subst heq
    cases hold.symm.trans hother
    exact hnot hkeep
  exact ⟨other, by rw [RefStates.getElem?_insert, if_neg hne, hother], hkeep⟩

theorem RefState.remark?_eq_none {state : RefState} {incoming : Mark}
    (h : state.remark? incoming = none) :
    state.mark = .keep ∨ incoming = .delete ∧ state.mark = .delete := by
  obtain ⟨remaining, mark⟩ := state
  revert h
  unfold remark?
  cases mark <;> cases incoming <;> by_cases hpos : 0 < remaining <;> simp [hpos]

theorem RefState.remark?_eq_some {state : RefState} {incoming mark : Mark}
    (h : state.remark? incoming = some mark) : state.mark ≠ .keep ∧
      (mark = .keep ∧ (incoming = .delete → 0 < state.remaining) ∨
        mark = .delete ∧ incoming = .delete ∧ ¬ 0 < state.remaining) := by
  obtain ⟨remaining, old⟩ := state
  revert h
  unfold remark?
  cases old <;> cases incoming <;> by_cases hpos : 0 < remaining <;> simp [hpos, eq_comm]

namespace Marking

variable {known : RefStates} {root : String} {calls rest : List (String × Mark)} {incoming : Mark}

theorem met (h : Marking next known root refs calls) {state : RefState}
    (hstate : refs[x]? = some state) :
    ∃ old, known[x]? = some old ∧ old.remaining = state.remaining := by
  have hsame := h.remaining x
  rw [hstate, Option.map_some] at hsame
  exact Option.map_eq_some_iff.mp hsame.symm

theorem skip (h : Marking next known root refs ((rid, incoming) :: rest))
    (hroot : Met known root) (hnothing : Met known rid →
      ∃ state, refs[rid]? = some state ∧ state.remark? incoming = none) :
    Marking next known root refs rest := by
  have hmarked (hmet : Met known rid) : Marked refs rid := by
    obtain ⟨state, hstate, hnone⟩ := hnothing hmet
    rcases RefState.remark?_eq_none hnone with hkeep | ⟨_, hdelete⟩
    · exact ⟨state, hstate, by simp [hkeep]⟩
    · exact ⟨state, hstate, by simp [hdelete]⟩
  have hother {c : String} (hmet : Met known c)
      (hc : Marked refs c ∨ ∃ mark, (c, mark) ∈ (rid, incoming) :: rest) :
      Marked refs c ∨ ∃ mark, (c, mark) ∈ rest := by
    rcases hc with hc | ⟨mark, hmem⟩
    · exact .inl hc
    · rcases List.mem_cons.mp hmem with heq | hmem
      · cases heq
        exact .inl (hmarked hmet)
      · exact .inr ⟨mark, hmem⟩
  refine ⟨h.remaining, fun hx => ⟨(h.kept hx).1, fun c hc hmet => ?_⟩, fun hx hdelete =>
    ⟨(h.deleted hx hdelete).1, fun c hc hmet => hother hmet ((h.deleted hx hdelete).2 c hc hmet)⟩,
    fun hmem => h.called (List.mem_cons_of_mem _ hmem), hother hroot h.root⟩
  rcases (h.kept hx).2 c hc hmet with hkept | hmem
  · exact .inl hkept
  · rcases List.mem_cons.mp hmem with heq | hmem
    · cases heq
      obtain ⟨state, hstate, hnone⟩ := hnothing hmet
      refine .inl ⟨state, hstate, ?_⟩
      rcases RefState.remark?_eq_none hnone with hkeep | ⟨hincoming, _⟩
      · exact hkeep
      · cases hincoming
    · exact .inr hmem

/-- A call marks for keeping only what is spared. -/
theorem spared {state : RefState} (h : Marking next known root refs ((rid, incoming) :: rest))
    (hstate : refs[rid]? = some state) (hpos : incoming = .delete → 0 < state.remaining) :
    Spared next known rid := by
  obtain ⟨old, hold, hremaining⟩ := h.met hstate
  have hmet : Met known rid := by simp [Met, hold]
  rcases h.called List.mem_cons_self with hincoming | ⟨_, hspared⟩
  · exact ⟨rid, old, hold, hremaining ▸ hpos hincoming, .start hmet⟩
  · exact hspared hmet

/-- A call that changes a mark passes the new one on. -/
theorem mark {state : RefState} {mark : Mark}
    (h : Marking next known root refs ((rid, incoming) :: rest))
    (hstate : refs[rid]? = some state) (hmark : state.remark? incoming = some mark) :
    Marking next known root (refs.insert rid { state with mark := mark })
      ((next rid).map (·, mark) ++ rest) := by
  obtain ⟨hnot, hcases⟩ := RefState.remark?_eq_some hmark
  have hrid : (refs.insert rid { state with mark := mark })[rid]? =
      some { state with mark := mark } := by
    rw [RefStates.getElem?_insert, if_pos rfl]
  have hmarks : mark ≠ .unset := by
    rcases hcases with ⟨rfl, _⟩ | ⟨rfl, _⟩
    · simp
    · simp
  have hspared (hkeep : mark = .keep) : Spared next known rid := by
    rcases hcases with ⟨_, hpos⟩ | ⟨hdelete, _⟩
    · exact h.spared hstate hpos
    · cases hkeep.symm.trans hdelete
  have hpassed {c : String} (hc : c ∈ next rid) :
      (c, mark) ∈ (next rid).map (·, mark) ++ rest :=
    List.mem_append_left _ (List.mem_map_of_mem hc)
  have hgrows {c : String}
      (hc : Marked refs c ∨ ∃ mark, (c, mark) ∈ (rid, incoming) :: rest) :
      Marked (refs.insert rid { state with mark := mark }) c ∨
        ∃ mark', (c, mark') ∈ (next rid).map (·, mark) ++ rest := by
    rcases hc with hc | ⟨mark', hmem⟩
    · exact .inl (hc.insert rid hmarks)
    · rcases List.mem_cons.mp hmem with hhead | hmem
      · cases hhead
        exact .inl ⟨_, hrid, hmarks⟩
      · exact .inr ⟨mark', List.mem_append_right _ hmem⟩
  refine ⟨fun y => ?_, fun {y} hy => ?_, fun {y other} hy hdelete => ?_, fun {c mark'} hmem => ?_,
    hgrows h.root⟩
  · rw [RefStates.getElem?_insert]
    split
    · subst y
      rw [← h.remaining, hstate]
      rfl
    · exact h.remaining y
  · by_cases heq : rid = y
    · subst heq
      obtain ⟨other, hother, hkeep⟩ := hy
      cases hrid.symm.trans hother
      exact ⟨hspared hkeep, fun c hc _ => .inr (hkeep ▸ hpassed hc)⟩
    · have hy' : Kept refs y := by
        obtain ⟨other, hother, hkeep⟩ := hy
        rw [RefStates.getElem?_insert, if_neg heq] at hother
        exact ⟨other, hother, hkeep⟩
      refine ⟨(h.kept hy').1, fun c hc hmetc => ?_⟩
      rcases (h.kept hy').2 c hc hmetc with hkept | hmem
      · exact .inl (hkept.insert hstate hnot _)
      · rcases List.mem_cons.mp hmem with hhead | hmem
        · -- the call that is made demands what it brings about
          cases hhead
          rcases hcases with ⟨hkeep, _⟩ | ⟨_, hincoming, _⟩
          · exact .inl ⟨_, hrid, hkeep⟩
          · cases hincoming
        · exact .inr (List.mem_append_right _ hmem)
  · rw [RefStates.getElem?_insert] at hy
    split at hy
    · subst y
      cases hy
      rcases hcases with ⟨hkeep, _⟩ | ⟨_, _, hzero⟩
      · cases hkeep.symm.trans hdelete
      · exact ⟨hzero, fun c hc _ => .inr ⟨_, hpassed hc⟩⟩
    · obtain ⟨hzero, hdone⟩ := h.deleted hy hdelete
      exact ⟨hzero, fun c hc hmetc => hgrows (hdone c hc hmetc)⟩
  · rcases List.mem_append.mp hmem with hmem | hmem
    · obtain ⟨c', hc, heq⟩ := List.mem_map.mp hmem
      cases heq
      rcases hcases with ⟨rfl, _⟩ | ⟨rfl, _⟩
      · refine .inr ⟨rfl, fun hmetc => ?_⟩
        obtain ⟨y, state', hy, hpos, hpath⟩ := hspared rfl
        exact ⟨y, state', hy, hpos, .step hpath hc hmetc⟩
      · exact .inl rfl
    · exact h.called (List.mem_cons_of_mem _ hmem)

/-- The second pass gets to its end. -/
theorem run (hroot : Met known root) (hidle : ∀ x, Met known x → idle? index x ≠ none)
    (h : Marking next known root refs calls) :
    Marking next known root (markRefs index next refs calls) [] := by
  induction refs, calls using markRefs.induct index next with
  | case1 refs =>
    rw [markRefs]
    exact h
  | case2 refs rid incoming rest e state he hstate mark hmark ih =>
    rw [markRefs_mark he hstate hmark]
    exact ih (h.mark hstate hmark)
  | case3 refs rid incoming rest e state he hstate hmark ih =>
    rw [markRefs_skip fun _ _ _ hstate' => by
      cases hstate.symm.trans hstate'
      exact hmark]
    exact ih (h.skip hroot fun _ => ⟨state, hstate, hmark⟩)
  | case4 refs rid incoming rest hnot ih =>
    rw [markRefs_skip fun _ _ he hstate => (hnot _ _ he hstate).elim]
    refine ih (h.skip hroot fun hmet => ?_)
    obtain ⟨e, he⟩ := Option.ne_none_iff_exists'.mp (hidle rid hmet)
    have hsame := h.remaining rid
    cases hstate : refs[rid]? with
    | none =>
      rw [hstate, Option.map_none, eq_comm, Option.map_eq_none_iff] at hsame
      exact absurd hsame hmet
    | some state => exact (hnot e state he hstate).elim

/-- When no call is left, what is spared is kept, and what else has been met is marked for
deletion. -/
theorem delete_iff (h : Marking next known root refs [])
    (hreach : ∀ x, Met known x → Within next (Met known) root x) :
    (∃ state, refs[x]? = some state ∧ state.mark = .delete) ↔
      Met known x ∧ ¬ Spared next known x := by
  have hmarked (y : String) (hy : Met known y) : Marked refs y := by
    have hpath := hreach y hy
    induction hpath with
    | start _ => exact h.root.resolve_right fun ⟨_, hmem⟩ => by cases hmem
    | @step a b hab hb hmetb ih =>
      obtain ⟨state, hstate, hunset⟩ := ih hab.inside_end
      cases hmark : state.mark with
      | unset => exact absurd hmark hunset
      | delete =>
        exact ((h.deleted hstate hmark).2 b hb hmetb).resolve_right fun ⟨_, hmem⟩ => by cases hmem
      | keep =>
        exact (((h.kept ⟨state, hstate, hmark⟩).2 b hb hmetb).resolve_right fun hmem => by
          cases hmem).marked
  have hkept (hspared : Spared next known x) : Kept refs x := by
    obtain ⟨y, old, hold, hpos, hpath⟩ := hspared
    induction hpath with
    | start hmety =>
      obtain ⟨state, hstate, hunset⟩ := hmarked y hmety
      obtain ⟨old', hold', hremaining⟩ := h.met hstate
      cases hold.symm.trans hold'
      cases hmark : state.mark with
      | unset => exact absurd hmark hunset
      | delete => exact absurd (hremaining ▸ hpos) (h.deleted hstate hmark).1
      | keep => exact ⟨state, hstate, hmark⟩
    | step _ hb hmetb ih =>
      exact ((h.kept ih).2 _ hb hmetb).resolve_right fun hmem => by cases hmem
  constructor
  · rintro ⟨state, hstate, hdelete⟩
    obtain ⟨old, hold, _⟩ := h.met hstate
    refine ⟨by simp [Met, hold], fun hspared => ?_⟩
    obtain ⟨other, hother, hkeep⟩ := hkept hspared
    cases hstate.symm.trans hother
    cases hdelete.symm.trans hkeep
  · rintro ⟨hmet, hnot⟩
    obtain ⟨state, hstate, hunset⟩ := hmarked x hmet
    refine ⟨state, hstate, ?_⟩
    cases hmark : state.mark with
    | unset => exact absurd hmark hunset
    | delete => rfl
    | keep => exact absurd (h.kept ⟨state, hstate, hmark⟩).1 hnot

end Marking

variable {e : Entry}

/-- The first pass meets what a candidate leads to, and leaves the references that come from
elsewhere. -/
theorem exists_known (next : String → List String) (he : idle? index rid = some e) :
    ∃ met : List String, met.Nodup ∧
    (∀ x, x ∈ met ↔ Within next (idle? index · ≠ none) rid x) ∧
    ∀ x, (seekRefs index next (.start rid e) (next rid))[x]? =
      if x ∈ met then (idle? index x).map fun ex =>
        ⟨ex.indirect - (met.flatMap next).count x, .unset⟩
      else none := by
  have hstart (x : String) : (RefStates.start rid e)[x]? =
      if rid = x then some ⟨e.indirect, .unset⟩ else none := by
    rw [RefStates.start, RefStates.getElem?_insert, Std.HashMap.getElem?_empty]
  have hunmet (x : String) : Unmet index (.start rid e) x ↔
      idle? index x ≠ none ∧ rid ≠ x := by
    unfold Unmet
    rw [hstart]
    by_cases hx : rid = x <;> simp [hx]
  obtain ⟨met, hsought⟩ := exists_sought index next (.start rid e) (next rid)
  have hrid : rid ∉ met := fun hmem => by
    obtain ⟨_, _, hpath⟩ := (hsought.reached rid).mp hmem
    exact ((hunmet rid).mp hpath.inside_end).2 rfl
  refine ⟨rid :: met, List.nodup_cons.mpr ⟨hrid, hsought.nodup⟩, fun x => ?_, fun x => ?_⟩
  · rw [List.mem_cons, hsought.reached]
    have hidle : idle? index rid ≠ none := by simp [he]
    constructor
    · rintro (rfl | ⟨a, ha, hpath⟩)
      · exact .start hidle
      · have hpath' := hpath.mono fun y hy => ((hunmet y).mp hy).1
        exact (Within.step (.start hidle) ha hpath'.inside_start).trans hpath'
    · intro hpath
      rcases hpath.avoid rid with hx | hpath' | ⟨a, ha, hpath'⟩
      · exact .inl hx
      · exact absurd rfl hpath'.inside_start.2
      · exact .inr ⟨a, ha, hpath'.mono fun y hy => (hunmet y).mpr hy⟩
  · rw [List.flatMap_cons]
    cases hex : idle? index x with
    | none =>
      rw [hsought.others x hex, hstart, if_neg (ne_of_idle? he hex), Option.map_none, ite_self]
    | some ex =>
      rw [hsought.visited x ex hex, hstart, Option.map_some]
      by_cases hx : rid = x
      · subst hx
        cases he.symm.trans hex
        rw [if_pos rfl, if_pos List.mem_cons_self]
        cases (next rid ++ met.flatMap next).count rid with
        | zero => simp [Entry.visited]
        | succ n => rfl
      · have hvisited := hsought.mem_iff_visited ((hunmet x).mpr ⟨by simp [hex], hx⟩)
        rw [if_neg hx]
        by_cases hmem : x ∈ met
        · obtain ⟨n, hn⟩ := Nat.exists_eq_succ_of_ne_zero
            (Nat.ne_of_gt (List.count_pos_iff.mpr (hvisited.mp hmem)))
          rw [if_pos (List.mem_cons_of_mem _ hmem), hn]
          rfl
        · have hzero := List.count_eq_zero.mpr (mt hvisited.mpr hmem)
          have hnot : x ∉ rid :: met := by simp [Ne.symm hx, hmem]
          rw [if_neg hnot, hzero]
          rfl

/-- What the second pass marks for deletion: of what a candidate leads to, all but what something
with a reference from elsewhere leads to. -/
theorem exists_marked (next : String → List String) (he : idle? index rid = some e) :
    ∃ met : List String, met.Nodup ∧
    (∀ x, x ∈ met ↔ Within next (idle? index · ≠ none) rid x) ∧
    ∀ x, (∃ state, (markRefs index next (seekRefs index next (.start rid e) (next rid))
        [(rid, .delete)])[x]? = some state ∧ state.mark = .delete) ↔
      x ∈ met ∧ ¬ ∃ y ey, idle? index y = some ey ∧
        (met.flatMap next).count y < ey.indirect ∧ Within next (· ∈ met) y x := by
  obtain ⟨met, hnodup, hreached, hknown⟩ := exists_known next he
  refine ⟨met, hnodup, hreached, fun x => ?_⟩
  have hunset {y : String} {state : RefState}
      (hy : (seekRefs index next (.start rid e) (next rid))[y]? = some state) :
      state.mark = .unset := by
    rw [hknown] at hy
    split at hy
    · obtain ⟨_, _, rfl⟩ := Option.map_eq_some_iff.mp hy
      rfl
    · cases hy
  have hmet (y : String) : Met (seekRefs index next (.start rid e) (next rid)) y ↔ y ∈ met := by
    unfold Met
    rw [hknown]
    by_cases hy : y ∈ met
    · have hidle := ((hreached y).mp hy).inside_end
      simp [hy, hidle]
    · simp [hy]
  have hroot : rid ∈ met := (hreached rid).mpr (.start (by simp [he]))
  have hbegin : Marking next (seekRefs index next (.start rid e) (next rid)) rid
      (seekRefs index next (.start rid e) (next rid)) [(rid, .delete)] := by
    refine ⟨fun _ => rfl, fun ⟨state, hstate, hkeep⟩ => ?_, fun hstate hdelete => ?_,
      fun hmem => ?_, .inr ⟨_, List.mem_singleton_self _⟩⟩
    · cases (hunset hstate).symm.trans hkeep
    · cases (hunset hstate).symm.trans hdelete
    · cases List.mem_singleton.mp hmem
      exact .inl rfl
  have hend := hbegin.run ((hmet rid).mpr hroot) fun y hy =>
    ((hreached y).mp ((hmet y).mp hy)).inside_end
  have hpaths {a y : String} :
      Within next (Met (seekRefs index next (.start rid e) (next rid))) a y ↔
        Within next (· ∈ met) a y := Within.congr (fun _ _ => .rfl) hmet
  rw [hend.delete_iff fun y hy => ?_, hmet]
  · refine and_congr_right fun _ => not_congr ?_
    constructor
    · rintro ⟨y, state, hy, hpos, hpath⟩
      rw [hknown] at hy
      split at hy
      · obtain ⟨ey, hey, rfl⟩ := Option.map_eq_some_iff.mp hy
        exact ⟨y, ey, hey, by simp only [] at hpos; omega, hpaths.mp hpath⟩
      · cases hy
    · rintro ⟨y, ey, hey, hlt, hpath⟩
      refine ⟨y, ⟨ey.indirect - (met.flatMap next).count y, .unset⟩, ?_, ?_, hpaths.mpr hpath⟩
      · rw [hknown, if_pos hpath.inside_start, hey]
        rfl
      · simp only []
        omega
  · -- a path through unsubscribed resources goes through what has been met
    have hpath := (hreached y).mp ((hmet y).mp hy)
    clear hy
    induction hpath with
    | start _ => exact .start ((hmet rid).mpr hroot)
    | @step a b hab hb hidle ih =>
      exact .step ih hb ((hmet b).mpr ((hreached b).mpr (.step hab hb hidle)))

end LiveResource
