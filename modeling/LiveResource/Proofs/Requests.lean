import LiveResource.Multiplexer.Basic
import Mathlib.Data.List.Basic
import Mathlib.Data.List.Nodup
import Mathlib.Data.List.Range

set_option autoImplicit false

/-!
# Every request completes once

Threads share a multiplexer, and its operations hold a lock for one section at a time: a request is
registered, sent and, if sending fails, given up in three sections, and a disposal takes the table
and then closes the connection. A run is any order of such sections. A callback counts as fired in
the section that takes it out of the table, which calls it next.
-/

namespace LiveResource

/-- The request that a message is about and how it says that the request ended. -/
def Message.answer? : Message → Option (Nat × Outcome Json)
  | .response id outcome => some (id, outcome)
  | .invalidResponse id why => some (id, .error (.internal ("invalid response: " ++ why.message)))
  | .event _ => none

theorem Pipe.eq_of_unsent {p p' : Pipe} {text : String} (h : p.send text = (false, p')) :
    p' = p := by
  unfold send at h
  split at h
  · cases h
  · cases h
    rfl

namespace Multiplexer

variable {κ : Type} {m : Multiplexer κ} {id : Nat}

abbrev Letter := Nat × String

def register (m : Multiplexer κ) (method : String) (params : Option Json) (callback : κ) :
    Option Letter × Fired κ × Multiplexer κ :=
  match m.table with
  | none => (none, [(callback, .error .connectionClosed)], m)
  | some table =>
    (some (m.nextId, Request.text ⟨m.nextId, method, params⟩), [],
      { m with table := some (table ++ [(m.nextId, callback)]), nextId := m.nextId + 1 })

def post (m : Multiplexer κ) (text : String) : Bool × Multiplexer κ :=
  ((m.outgoing.send text).1, { m with outgoing := (m.outgoing.send text).2 })

def complete (m : Multiplexer κ) (id : Nat) (outcome : Outcome Json) : Fired κ × Multiplexer κ :=
  match m.take id with
  | (some callback, m) => ([(callback, outcome)], m)
  | (none, m) => ([], m)

def abandon (m : Multiplexer κ) : Fired κ × Multiplexer κ :=
  ((m.table.getD []).map fun e => (e.2, .error .connectionClosed), { m with table := none })

def hangUp (m : Multiplexer κ) : Multiplexer κ := { m with outgoing := m.outgoing.closeSender }

def pending (m : Multiplexer κ) : List (Nat × κ) := m.table.getD []

theorem isDisposed_iff : m.isDisposed = true ↔ m.table = none := by
  simp [isDisposed]

theorem length_pending : m.pending.length = m.outstanding := rfl

theorem take_of_not_mem (h : ∀ e ∈ m.pending, e.1 ≠ id) : m.take id = (none, m) := by
  obtain ⟨outgoing, table, nextId⟩ := m
  cases table with
  | none => rfl
  | some table =>
    have hnone : table.lookup id = none := by
      rw [List.lookup_eq_none_iff]
      intro e he
      simpa using (h e he).symm
    have hall : table.filter (·.1 != id) = table :=
      List.filter_eq_self.mpr fun e he => by simpa using h e he
    simp only [take, hnone, hall]

theorem complete_of_not_mem (outcome : Outcome Json) (h : ∀ e ∈ m.pending, e.1 ≠ id) :
    m.complete id outcome = ([], m) := by
  rw [complete, take_of_not_mem h]

/-- Only the text of a response completes a request. -/
theorem handle_eq (text : String) : (m.handle text).2 =
    match (Message.decode text).toOption.bind Message.answer? with
    | none => ([], m)
    | some (id, outcome) => m.complete id outcome := by
  unfold handle
  cases Message.decode text with
  | error why => rfl
  | ok message =>
    cases message with
    | event event => rfl
    | response id outcome =>
      simp only [Except.toOption, Message.answer?, Option.bind_some, complete]
      rcases m.take id with ⟨_ | callback, rest⟩ <;> rfl
    | invalidResponse id why =>
      simp only [Except.toOption, Message.answer?, Option.bind_some, complete]
      rcases m.take id with ⟨_ | callback, rest⟩ <;> rfl

theorem complete_last {table : List (Nat × κ)} {callback : κ} (outcome : Outcome Json)
    (hids : ∀ e ∈ table, e.1 ≠ id) (h : m.table = some (table ++ [(id, callback)])) :
    m.complete id outcome = ([(callback, outcome)], { m with table := some table }) := by
  have hold : table.lookup id = none := by
    rw [List.lookup_eq_none_iff]
    intro e he
    simpa using (hids e he).symm
  have hkeep : table.filter (·.1 != id) = table :=
    List.filter_eq_self.mpr fun e he => by simpa using hids e he
  simp [complete, take, h, List.lookup_append, hold, hkeep]

theorem complete_keeps (m : Multiplexer κ) (id : Nat) (outcome : Outcome Json) :
    (m.complete id outcome).2.nextId = m.nextId ∧
      (m.complete id outcome).2.isDisposed = m.isDisposed := by
  obtain ⟨outgoing, table, nextId⟩ := m
  cases table with
  | none => exact ⟨rfl, rfl⟩
  | some table =>
    unfold complete
    split <;> rename_i heq <;> obtain ⟨-, rfl⟩ := Prod.mk.inj heq <;> exact ⟨rfl, rfl⟩

theorem register_of_none (method : String) (params : Option Json) (callback : κ)
    (h : m.table = none) :
    m.register method params callback = (none, [(callback, .error .connectionClosed)], m) := by
  simp only [register, h]

theorem register_of_some {table : List (Nat × κ)} (method : String) (params : Option Json)
    (callback : κ) (h : m.table = some table) : m.register method params callback =
      (some (m.nextId, Request.text ⟨m.nextId, method, params⟩), [],
        { m with table := some (table ++ [(m.nextId, callback)]), nextId := m.nextId + 1 }) := by
  simp only [register, h]

theorem toList_lookup {table : List (Nat × κ)} (h : (table.map Prod.fst).Nodup) :
    (table.lookup id).toList = (table.filter (·.1 == id)).map Prod.snd := by
  induction table with
  | nil => rfl
  | cons e table ih =>
    obtain ⟨key, callback⟩ := e
    obtain ⟨hfresh, hrest⟩ := List.nodup_cons.mp h
    by_cases heq : key = id
    · subst heq
      have hnone : table.filter (·.1 == key) = [] := by
        refine List.filter_eq_nil_iff.mpr fun e he => ?_
        simp only [beq_iff_eq]
        intro hkey
        exact hfresh (by simpa only [hkey] using List.mem_map_of_mem (f := Prod.fst) he)
      simp [hnone]
    · have hne : (id == key) = false := by simpa using Ne.symm heq
      simp [List.lookup_cons, hne, heq, ih hrest]

/-- Completing a request takes it, and nothing else, out of the table. -/
theorem complete_spec (id : Nat) (outcome : Outcome Json) (h : (m.pending.map Prod.fst).Nodup) :
    (m.complete id outcome).1 = (m.pending.filter (·.1 == id)).map (fun e => (e.2, outcome)) ∧
      (m.complete id outcome).2.pending = m.pending.filter (·.1 != id) := by
  obtain ⟨outgoing, table, nextId⟩ := m
  cases table with
  | none => exact ⟨rfl, rfl⟩
  | some table =>
    have hlookup : (table.lookup id).toList = _ := toList_lookup h
    cases hfound : table.lookup id with
    | none =>
      rw [hfound] at hlookup
      have hnone : table.filter (·.1 == id) = [] := by simpa using hlookup.symm
      simp [complete, take, pending, hfound, hnone]
    | some callback =>
      rw [hfound] at hlookup
      have hone := congrArg (List.map fun callback => (callback, outcome)) hlookup
      simp only [Option.toList_some, List.map_cons, List.map_nil, List.map_map] at hone
      simp only [complete, take, pending, hfound, Option.getD_some, and_true]
      exact hone

end Multiplexer

/-- A multiplexer with the threads that are between two sections of an operation. -/
structure Traffic (κ : Type) where
  mux : Multiplexer κ
  /-- Registered, and still to be sent. -/
  unsent : List Multiplexer.Letter
  /-- Could not be sent, and still to be given up. -/
  failed : List Nat
  /-- How many disposals have still to close the connection. -/
  closing : Nat

/-- What one of the threads, or the peer, does next. -/
inductive Move (κ : Type)
  | register (method : String) (params : Option Json) (callback : κ)
  | send (letter : Multiplexer.Letter)
  | giveUp (id : Nat)
  | handle (text : String)
  | abandon
  | hangUp
  /-- The peer receives a text. -/
  | read
  /-- The peer closes its end. -/
  | leave

namespace Traffic

variable {κ : Type}

def fresh : Traffic κ := ⟨.fresh, [], [], 0⟩

def perform (t : Traffic κ) : Move κ → Option (Fired κ × Traffic κ)
  | .register method params callback =>
    let (letter, fired, mux) := t.mux.register method params callback
    some (fired, { t with mux := mux, unsent := t.unsent ++ letter.toList })
  | .send letter =>
    if letter ∈ t.unsent then
      let (sent, mux) := t.mux.post letter.2
      some ([], { t with
        mux := mux, unsent := t.unsent.erase letter
        failed := if sent then t.failed else t.failed ++ [letter.1] })
    else none
  | .giveUp id =>
    if id ∈ t.failed then
      let (fired, mux) := t.mux.complete id (.error .connectionClosed)
      some (fired, { t with mux := mux, failed := t.failed.erase id })
    else none
  | .handle text =>
    let (_, fired, mux) := t.mux.handle text
    some (fired, { t with mux := mux })
  | .abandon =>
    let (fired, mux) := t.mux.abandon
    some (fired, { t with mux := mux, closing := t.closing + 1 })
  | .hangUp =>
    if 0 < t.closing then some ([], { t with mux := t.mux.hangUp, closing := t.closing - 1 })
    else none
  | .read =>
    some ([], { t with mux := { t.mux with outgoing := t.mux.outgoing.receive.2 } })
  | .leave =>
    some ([], { t with mux := { t.mux with outgoing := t.mux.outgoing.closeReceiver } })

end Traffic

def Move.verdict {κ : Type} : Move κ → Nat → Option (Outcome Json)
  | .giveUp failed, id => if failed = id then some (.error .connectionClosed) else none
  | .handle text, id =>
    ((Message.decode text).toOption.bind Message.answer?).bind fun answer =>
      if answer.1 = id then some answer.2 else none
  | .abandon, _ => some (.error .connectionClosed)
  | _, _ => none

namespace Traffic

structure Step (κ : Type) where
  before : Traffic κ
  move : Move κ
  fired : Fired κ
  after : Traffic κ

namespace Step

variable {κ : Type}

def registered (s : Step κ) : List (Nat × κ) :=
  match s.move with
  | .register method params callback =>
    (s.before.mux.register method params callback).1.toList.map fun letter => (letter.1, callback)
  | _ => []

def refused (s : Step κ) : List κ :=
  match s.move with
  | .register _ _ callback => if s.before.mux.isDisposed then [callback] else []
  | _ => []

/-- The outstanding requests that the move ends. -/
def completed (s : Step κ) : List (Nat × κ × Outcome Json) :=
  s.before.mux.pending.filterMap fun e =>
    (s.move.verdict e.1).map fun outcome => (e.1, e.2, outcome)

/-- What a move does to the table and which callbacks it fires. -/
structure Keeps (s : Step κ) : Prop where
  fired : s.fired =
    s.refused.map (fun callback => (callback, .error .connectionClosed)) ++
      s.completed.map Prod.snd
  pending : s.after.mux.pending =
    s.before.mux.pending.filter (fun e => (s.move.verdict e.1).isNone) ++ s.registered
  nextId : s.after.mux.nextId = s.before.mux.nextId + s.registered.length
  ids : ∀ e ∈ s.registered, e.1 = s.before.mux.nextId
  disposed : s.after.mux.isDisposed = true ↔ s.before.mux.isDisposed = true ∨ s.move = .abandon

variable {t t' : Traffic κ} {move : Move κ} {fired : Fired κ}

theorem completed_of_silent {s : Step κ} (h : ∀ id, s.move.verdict id = none) :
    s.completed = [] := by
  simp [completed, h]

theorem Keeps.of_taken {s : Step κ}
    (hregister : ∀ method params callback, s.move ≠ .register method params callback)
    (habandon : s.move ≠ .abandon) (hfired : s.fired = s.completed.map Prod.snd)
    (hpending : s.after.mux.pending =
      s.before.mux.pending.filter fun e => (s.move.verdict e.1).isNone)
    (hnext : s.after.mux.nextId = s.before.mux.nextId)
    (hdisposed : s.after.mux.isDisposed = s.before.mux.isDisposed) : s.Keeps := by
  have hnew : s.registered = [] := by
    unfold registered
    split
    · rename_i heq
      exact absurd heq (hregister _ _ _)
    · rfl
  have hlate : s.refused = [] := by
    unfold refused
    split
    · rename_i heq
      exact absurd heq (hregister _ _ _)
    · rfl
  exact ⟨by simp [hlate, hfired], by simp [hnew, hpending], by simp [hnew, hnext],
    by simp [hnew], by simp [hdisposed, habandon]⟩

theorem Keeps.of_silent {s : Step κ} (hverdict : ∀ id, s.move.verdict id = none)
    (hregister : ∀ method params callback, s.move ≠ .register method params callback)
    (habandon : s.move ≠ .abandon) (hfired : s.fired = [])
    (htable : s.after.mux.table = s.before.mux.table)
    (hnext : s.after.mux.nextId = s.before.mux.nextId) : s.Keeps :=
  .of_taken hregister habandon (by simp [hfired, completed_of_silent hverdict])
    (by simp [Multiplexer.pending, htable, hverdict]) hnext
    (by simp [Multiplexer.isDisposed, htable])

theorem Keeps.of_complete {s : Step κ} (id : Nat) (outcome : Outcome Json)
    (hids : (s.before.mux.pending.map Prod.fst).Nodup)
    (hverdict : ∀ other, s.move.verdict other = if id = other then some outcome else none)
    (hregister : ∀ method params callback, s.move ≠ .register method params callback)
    (habandon : s.move ≠ .abandon) (hfired : s.fired = (s.before.mux.complete id outcome).1)
    (hmux : s.after.mux = (s.before.mux.complete id outcome).2) : s.Keeps := by
  obtain ⟨hone, hrest⟩ := Multiplexer.complete_spec id outcome hids
  have hkeep := Multiplexer.complete_keeps s.before.mux id outcome
  refine .of_taken hregister habandon ?_ ?_ (hmux ▸ hkeep.1) (hmux ▸ hkeep.2)
  · rw [hfired, hone, completed, ← List.filterMap_eq_filter, List.map_filterMap, List.map_filterMap]
    refine List.filterMap_congr fun e _ => ?_
    by_cases heq : id = e.1
    · simp [hverdict, heq, Option.guard]
    · simp [hverdict, heq, Ne.symm heq, Option.guard]
  · rw [hmux, hrest]
    refine List.filter_congr fun e _ => ?_
    by_cases heq : id = e.1
    · simp [hverdict, heq]
    · simp [hverdict, heq, Ne.symm heq]

theorem keeps_of_perform (hids : (t.mux.pending.map Prod.fst).Nodup)
    (h : t.perform move = some (fired, t')) : (⟨t, move, fired, t'⟩ : Step κ).Keeps := by
  cases move with
  | register method params callback =>
    simp only [perform, Option.some.injEq, Prod.mk.injEq] at h
    obtain ⟨rfl, rfl⟩ := h
    have hsilent : ∀ id, (Move.register method params callback).verdict id = none := fun _ => rfl
    cases htable : t.mux.table with
    | none =>
      have hrefuse := Multiplexer.register_of_none method params callback htable
      refine ⟨?_, ?_, ?_, ?_, ?_⟩ <;>
        simp [completed_of_silent, hsilent, registered, refused, hrefuse, Multiplexer.isDisposed,
          htable]
    | some table =>
      have haccept := Multiplexer.register_of_some method params callback htable
      refine ⟨?_, ?_, ?_, ?_, ?_⟩ <;>
        simp [completed_of_silent, hsilent, registered, refused, haccept, Multiplexer.isDisposed,
          Multiplexer.pending, htable]
  | send letter =>
    simp only [perform] at h
    split at h
    · cases h
      exact .of_silent (fun _ => rfl) (fun _ _ _ => nofun) nofun rfl rfl rfl
    · cases h
  | giveUp id =>
    simp only [perform] at h
    split at h
    · cases h
      exact .of_complete id (.error .connectionClosed) hids (fun _ => rfl) (fun _ _ _ => nofun)
        nofun rfl rfl
    · cases h
  | handle text =>
    simp only [perform, Option.some.injEq, Prod.mk.injEq] at h
    obtain ⟨rfl, rfl⟩ := h
    have hhandle := Multiplexer.handle_eq (m := t.mux) text
    cases hanswer : (Message.decode text).toOption.bind Message.answer? with
    | none =>
      simp only [hanswer] at hhandle
      refine .of_silent (fun id => ?_) (fun _ _ _ => nofun) nofun ?_ ?_ ?_
      · simp [Move.verdict, hanswer]
      all_goals simp only [hhandle]
    | some answer =>
      simp only [hanswer] at hhandle
      refine .of_complete answer.1 answer.2 hids (fun id => ?_) (fun _ _ _ => nofun) nofun ?_ ?_
      · simp [Move.verdict, hanswer]
      all_goals simp only [hhandle]
  | abandon =>
    cases h
    refine ⟨?_, ?_, rfl, nofun, ?_⟩
    · simp [completed, refused, Move.verdict, Multiplexer.pending]
    · simp [registered, Move.verdict, Multiplexer.pending]
    · simp [Multiplexer.isDisposed]
  | hangUp =>
    simp only [perform] at h
    split at h
    · cases h
      exact .of_silent (fun _ => rfl) (fun _ _ _ => nofun) nofun rfl rfl rfl
    · cases h
  | read =>
    cases h
    exact .of_silent (fun _ => rfl) (fun _ _ _ => nofun) nofun rfl rfl rfl
  | leave =>
    cases h
    exact .of_silent (fun _ => rfl) (fun _ _ _ => nofun) nofun rfl rfl rfl

end Step

variable {κ : Type} {t t' : Traffic κ} {trace past later : List (Step κ)} {s : Step κ}

/-- The moves that were made one after the other, and where they have led. -/
inductive Runs : List (Step κ) → Traffic κ → Prop
  | start : Runs [] fresh
  | next {trace : List (Step κ)} {t t' : Traffic κ} {move : Move κ} {fired : Fired κ} :
    Runs trace t → t.perform move = some (fired, t') → Runs (trace ++ [⟨t, move, fired, t'⟩]) t'

def registered (trace : List (Step κ)) : List (Nat × κ) := trace.flatMap Step.registered

def completed (trace : List (Step κ)) : List (Nat × κ × Outcome Json) :=
  trace.flatMap Step.completed

theorem Runs.last (h : Runs (trace ++ [s]) t) :
    Runs trace s.before ∧ s.before.perform s.move = some (s.fired, s.after) ∧ t = s.after := by
  generalize hall : trace ++ [s] = all at h
  cases h with
  | start => simp at hall
  | next hrun hmove =>
    obtain ⟨rfl, hlast⟩ := List.append_inj' hall rfl
    obtain rfl := List.singleton_inj.mp hlast
    exact ⟨hrun, hmove, rfl⟩

structure Counted (trace : List (Step κ)) (t : Traffic κ) : Prop where
  ids : (registered trace).map Prod.fst = List.range' 1 (registered trace).length
  nextId : t.mux.nextId = 1 + (registered trace).length
  pending : t.mux.pending.Sublist (registered trace)

theorem Counted.nodup (h : Counted trace t) : (t.mux.pending.map Prod.fst).Nodup := by
  have hall : ((registered trace).map Prod.fst).Nodup := h.ids ▸ List.nodup_range'
  exact hall.sublist (h.pending.map _)

theorem Counted.lt_nextId (h : Counted trace t) : ∀ e ∈ registered trace, e.1 < t.mux.nextId := by
  intro e he
  have hmem := List.mem_map_of_mem (f := Prod.fst) he
  rw [h.ids, List.mem_range'_1] at hmem
  exact h.nextId ▸ hmem.2

theorem Step.registered_cases (s : Step κ) (h : s.Keeps) :
    s.registered = [] ∨ ∃ callback, s.registered = [(s.before.mux.nextId, callback)] := by
  have hids := h.ids
  unfold registered at hids ⊢
  split at hids
  · rename_i method params callback _
    cases hletter : (s.before.mux.register method params callback).1 with
    | none => exact .inl rfl
    | some letter =>
      rw [hletter] at hids
      have := hids (letter.1, callback) (by simp)
      exact .inr ⟨callback, by simp [← this]⟩
  · exact .inl rfl

theorem Counted.step (h : Counted trace s.before) (hs : s.Keeps) :
    Counted (trace ++ [s]) s.after := by
  have hmore : registered (trace ++ [s]) = registered trace ++ s.registered := by
    simp [registered]
  refine ⟨?_, ?_, ?_⟩
  · rw [hmore]
    rcases s.registered_cases hs with hnone | ⟨callback, hone⟩
    · simp [hnone, h.ids]
    · simp [hone, h.ids, h.nextId, List.range'_concat]
  · rw [hmore, hs.nextId, h.nextId, List.length_append, Nat.add_assoc]
  · rw [hmore, hs.pending]
    exact (List.filter_sublist.trans h.pending).append (List.Sublist.refl _)

theorem Runs.counted (h : Runs trace t) : Counted trace t := by
  induction h with
  | start => exact ⟨rfl, rfl, .slnil⟩
  | next hrun hmove ih => exact ih.step (Step.keeps_of_perform ih.nodup hmove)

theorem Runs.keeps (h : Runs trace t) : ∀ s ∈ trace, s.Keeps := by
  induction h with
  | start => nofun
  | next hrun hmove ih =>
    intro s hs
    rcases List.mem_append.mp hs with hpast | hlast
    · exact ih s hpast
    · obtain rfl := List.mem_singleton.mp hlast
      exact Step.keeps_of_perform hrun.counted.nodup hmove

theorem Step.mem_pending_of_completed {e : Nat × κ × Outcome Json} (h : e ∈ s.completed) :
    (e.1, e.2.1) ∈ s.before.mux.pending := by
  obtain ⟨e', he', heq⟩ := List.mem_filterMap.mp h
  obtain ⟨outcome, -, rfl⟩ := Option.map_eq_some_iff.mp heq
  exact he'

theorem Runs.completed_registered (h : Runs trace t) :
    ∀ e ∈ completed trace, (e.1, e.2.1) ∈ registered trace := by
  induction h with
  | start => nofun
  | next hrun hmove ih =>
    intro e he
    simp only [completed, registered, List.flatMap_append, List.flatMap_singleton,
      List.mem_append] at he ⊢
    rcases he with hpast | hlast
    · exact .inl (ih e hpast)
    · exact .inl (hrun.counted.pending.subset (Step.mem_pending_of_completed hlast))

/-- A move ends the one outstanding request of an id or none. -/
theorem Step.completed_filter (s : Step κ) (id : Nat) :
    s.completed.filter (·.1 == id) = (s.before.mux.pending.filter (·.1 == id)).filterMap fun e =>
      (s.move.verdict id).map fun outcome => (e.1, e.2, outcome) := by
  rw [completed, List.filter_filterMap, List.filterMap_filter]
  refine List.filterMap_congr fun e _ => ?_
  by_cases heq : e.1 = id
  · cases hverdict : s.move.verdict id <;> simp [heq, hverdict]
  · cases hverdict : s.move.verdict e.1 <;> simp [heq]

theorem Step.Keeps.pending_filter (hs : s.Keeps) (id : Nat) :
    s.after.mux.pending.filter (·.1 == id) =
      (if (s.move.verdict id).isNone then s.before.mux.pending.filter (·.1 == id) else []) ++
        s.registered.filter (·.1 == id) := by
  rw [hs.pending, List.filter_append, List.filter_filter]
  congr 1
  split
  · rename_i hnone
    refine List.filter_congr fun e _ => ?_
    by_cases heq : e.1 = id
    · simp [heq, hnone]
    · simp [heq]
  · rename_i hsome
    refine List.filter_eq_nil_iff.mpr fun e _ => ?_
    by_cases heq : e.1 = id
    · simp [heq, hsome]
    · simp [heq]

theorem Counted.filter_of_le {id : Nat} (h : Counted trace t) (hid : t.mux.nextId ≤ id) :
    (registered trace).filter (·.1 == id) = [] ∧ t.mux.pending.filter (·.1 == id) = [] := by
  have hne : ∀ e ∈ registered trace, ¬ (e.1 == id) = true := by
    intro e he
    have hlt := h.lt_nextId e he
    simp only [beq_iff_eq]
    omega
  exact ⟨List.filter_eq_nil_iff.mpr hne,
    List.filter_eq_nil_iff.mpr fun e he => hne e (h.pending.subset he)⟩

/-- The first move after its registration that ends a request ends it for good. -/
theorem Runs.fate {id : Nat} {callback : κ} (h : Runs (past ++ s :: later) t)
    (hnew : (id, callback) ∈ s.registered) :
    (completed (past ++ s :: later)).filter (·.1 == id) =
        ((later.findSome? fun x => x.move.verdict id).map fun outcome =>
          (id, callback, outcome)).toList ∧
      t.mux.pending.filter (·.1 == id) =
        if (later.findSome? fun x => x.move.verdict id).isNone then [(id, callback)] else [] := by
  induction later using List.reverseRecOn generalizing t with
  | nil =>
    obtain ⟨hrun, hmove, rfl⟩ := h.last
    have hs : s.Keeps := Step.keeps_of_perform hrun.counted.nodup hmove
    have hid : id = s.before.mux.nextId := hs.ids _ hnew
    obtain ⟨hold, hpending⟩ := hrun.counted.filter_of_le hid.ge
    have hpast : (completed past).filter (·.1 == id) = [] := by
      refine List.filter_eq_nil_iff.mpr fun e he => ?_
      exact List.filter_eq_nil_iff.mp hold _ (hrun.completed_registered e he)
    have hlast : s.completed.filter (·.1 == id) = [] := by
      rw [s.completed_filter, hpending, List.filterMap_nil]
    have hone : s.registered = [(id, callback)] := by
      rcases s.registered_cases hs with hnone | ⟨callback', hone⟩
      · simp [hnone] at hnew
      · simp only [hone, List.mem_singleton] at hnew
        rw [hone, hnew]
    constructor
    · simpa [completed] using And.intro hpast hlast
    · rw [hs.pending_filter, hpending, hone]
      simp
  | append_singleton later x ih =>
    have hassoc : past ++ s :: (later ++ [x]) = (past ++ s :: later) ++ [x] := by simp
    rw [hassoc] at h ⊢
    obtain ⟨hrun, hmove, rfl⟩ := h.last
    obtain ⟨hdone, hpending⟩ := ih hrun
    have hx : x.Keeps := Step.keeps_of_perform hrun.counted.nodup hmove
    have hmore : completed ((past ++ s :: later) ++ [x]) =
        completed (past ++ s :: later) ++ x.completed := by
      simp [completed]
    have hold : x.registered.filter (·.1 == id) = [] := by
      refine List.filter_eq_nil_iff.mpr fun e he => ?_
      have hlt := hrun.counted.lt_nextId (id, callback) (by simp [registered, hnew])
      simp only [hx.ids e he, beq_iff_eq]
      omega
    rw [hmore, List.filter_append, hdone, x.completed_filter, hx.pending_filter, hpending, hold,
      List.findSome?_append]
    cases hfirst : later.findSome? fun x => x.move.verdict id with
    | none => cases hverdict : x.move.verdict id <;> simp [hverdict]
    | some outcome => simp

theorem Step.length_completed (s : Step κ) :
    s.completed.length + (s.before.mux.pending.filter fun e => (s.move.verdict e.1).isNone).length =
      s.before.mux.pending.length := by
  unfold completed
  induction s.before.mux.pending with
  | nil => rfl
  | cons e pending ih =>
    cases hverdict : s.move.verdict e.1 with
    | none =>
      simp only [List.filterMap_cons, List.filter_cons, hverdict, Option.map_none,
        Option.isNone_none, if_true, List.length_cons]
      omega
    | some outcome =>
      simp only [List.filterMap_cons, List.filter_cons, hverdict, Option.map_some,
        Option.isNone_some, Bool.false_eq_true, if_false, List.length_cons]
      omega

theorem Runs.balance (h : Runs trace t) :
    t.mux.outstanding + (completed trace).length = (registered trace).length := by
  induction h with
  | start => rfl
  | @next trace t t' move fired hrun hmove ih =>
    have hs := Step.keeps_of_perform hrun.counted.nodup hmove
    have hlength := Step.length_completed ⟨t, move, fired, t'⟩
    have hpending := congrArg List.length hs.pending
    simp only [completed, registered, List.flatMap_append, List.flatMap_singleton,
      List.length_append, ← Multiplexer.length_pending] at ih hpending hlength ⊢
    omega

def Step.lost (s : Step κ) : List Nat :=
  match s.move with
  | .send letter => if (s.before.mux.post letter.2).1 then [] else [letter.1]
  | _ => []

def lost (trace : List (Step κ)) : List Nat := trace.flatMap Step.lost

/-- How letters pass from a thread to the next section. -/
structure Step.Passes (s : Step κ) : Prop where
  unsent : ∀ letter ∈ s.after.unsent,
    letter ∈ s.before.unsent ∨ ∃ e ∈ s.registered, e.1 = letter.1
  lost : ∀ id ∈ s.lost, ∃ letter ∈ s.before.unsent, letter.1 = id
  failed : ∀ id ∈ s.after.failed, id ∈ s.before.failed ∨ id ∈ s.lost
  givenUp : ∀ id, id ∈ s.before.failed ∨ id ∈ s.lost → id ∈ s.after.failed ∨ s.move = .giveUp id

theorem Step.Passes.of_same {s : Step κ} (hsend : ∀ letter, s.move ≠ .send letter)
    (hunsent : s.after.unsent = s.before.unsent) (hfailed : s.after.failed = s.before.failed) :
    s.Passes := by
  have hnone : s.lost = [] := by
    unfold Step.lost
    split
    · rename_i heq
      exact absurd heq (hsend _)
    · rfl
  refine ⟨fun _ h => .inl (hunsent ▸ h), by simp [hnone], fun _ h => .inl (hfailed ▸ h), ?_⟩
  rintro id (hold | hnew)
  · exact .inl (hfailed ▸ hold)
  · simp [hnone] at hnew

theorem Step.passes_of_perform {move : Move κ} {fired : Fired κ}
    (h : t.perform move = some (fired, t')) : (⟨t, move, fired, t'⟩ : Step κ).Passes := by
  cases move with
  | register method params callback =>
    simp only [perform, Option.some.injEq, Prod.mk.injEq] at h
    obtain ⟨rfl, rfl⟩ := h
    refine ⟨fun letter hletter => ?_, nofun, fun _ h => .inl h, ?_⟩
    · rcases List.mem_append.mp hletter with hold | hnew
      · exact .inl hold
      · exact .inr ⟨(letter.1, callback), List.mem_map_of_mem hnew, rfl⟩
    · rintro id (hold | hnew)
      · exact .inl hold
      · cases hnew
  | send letter =>
    simp only [perform] at h
    split at h
    · rename_i hletter
      cases h
      have hunsent : ∀ l ∈ t.unsent.erase letter, l ∈ t.unsent := fun _ => List.mem_of_mem_erase
      cases hsent : (t.mux.post letter.2).1 with
      | true =>
        exact ⟨fun l hl => .inl (hunsent l hl), by simp [lost, hsent], by simp [lost, hsent],
          by simp [lost, hsent]⟩
      | false =>
        have hlost : ∀ id ∈ [letter.1], ∃ l ∈ t.unsent, l.1 = id :=
          fun id hid => ⟨letter, hletter, (List.mem_singleton.mp hid).symm⟩
        exact ⟨fun l hl => .inl (hunsent l hl), by simpa [lost, hsent] using hlost,
          by simp [lost, hsent], by simp [lost, hsent]⟩
    · cases h
  | giveUp id =>
    simp only [perform] at h
    split at h
    · cases h
      refine ⟨fun _ h => .inl h, nofun, fun _ h => .inl (List.mem_of_mem_erase h), ?_⟩
      rintro other (hold | hnew)
      · by_cases heq : other = id
        · exact .inr (heq ▸ rfl)
        · exact .inl ((List.mem_erase_of_ne heq).mpr hold)
      · cases hnew
    · cases h
  | hangUp =>
    simp only [perform] at h
    split at h
    · cases h
      exact .of_same nofun rfl rfl
    · cases h
  | _ =>
    cases h
    exact .of_same nofun rfl rfl

/-- Only requests whose sending has failed are given up, and they are. -/
structure Sends (trace : List (Step κ)) (t : Traffic κ) : Prop where
  unsent : ∀ letter ∈ t.unsent, letter.1 < t.mux.nextId
  failed : ∀ id ∈ t.failed, id ∈ lost trace
  lost : ∀ id ∈ lost trace, id < t.mux.nextId ∧
    (id ∈ t.failed ∨ ∀ e ∈ t.mux.pending, e.1 ≠ id)

theorem Step.Keeps.pending_ne (hs : s.Keeps) {id : Nat} (hid : id < s.before.mux.nextId)
    (h : (∀ e ∈ s.before.mux.pending, e.1 ≠ id) ∨ s.move.verdict id ≠ none) :
    ∀ e ∈ s.after.mux.pending, e.1 ≠ id := by
  intro e he
  rw [hs.pending] at he
  rcases List.mem_append.mp he with hold | hnew
  · obtain ⟨hmem, hverdict⟩ := List.mem_filter.mp hold
    rcases h with hgone | hends
    · exact hgone e hmem
    · rintro rfl
      exact hends (Option.isNone_iff_eq_none.mp hverdict)
  · rw [hs.ids e hnew]
    exact hid.ne'

theorem Sends.step (h : Sends trace s.before) (hs : s.Keeps) (hp : s.Passes) :
    Sends (trace ++ [s]) s.after := by
  have hmore : Traffic.lost (trace ++ [s]) = Traffic.lost trace ++ s.lost := by simp [Traffic.lost]
  have hnext : s.before.mux.nextId ≤ s.after.mux.nextId := hs.nextId ▸ Nat.le_add_right _ _
  refine ⟨fun letter hletter => ?_, fun id hid => ?_, fun id hid => ?_⟩
  · rcases hp.unsent letter hletter with hold | ⟨e, he, heq⟩
    · exact Nat.lt_of_lt_of_le (h.unsent letter hold) hnext
    · rw [← heq, hs.ids e he, hs.nextId]
      exact Nat.lt_add_of_pos_right (List.length_pos_of_mem he)
  · rw [hmore]
    rcases hp.failed id hid with hold | hnew
    · exact List.mem_append_left _ (h.failed id hold)
    · exact List.mem_append_right _ hnew
  · have hlt : id < s.before.mux.nextId := by
      rw [hmore] at hid
      rcases List.mem_append.mp hid with hold | hnew
      · exact (h.lost id hold).1
      · obtain ⟨letter, hletter, rfl⟩ := hp.lost id hnew
        exact h.unsent letter hletter
    have hwhere : (id ∈ s.before.failed ∨ id ∈ s.lost) ∨ ∀ e ∈ s.before.mux.pending, e.1 ≠ id := by
      rw [hmore] at hid
      rcases List.mem_append.mp hid with hold | hnew
      · exact (h.lost id hold).2.imp_left .inl
      · exact .inl (.inr hnew)
    refine ⟨Nat.lt_of_lt_of_le hlt hnext, ?_⟩
    rcases hwhere with hfailed | hgone
    · rcases hp.givenUp id hfailed with hstill | hmove
      · exact .inl hstill
      · exact .inr (hs.pending_ne hlt (.inr (by simp [hmove, Move.verdict])))
    · exact .inr (hs.pending_ne hlt (.inl hgone))

theorem Runs.sends (h : Runs trace t) : Sends trace t := by
  induction h with
  | start => exact ⟨nofun, nofun, nofun⟩
  | next hrun hmove ih =>
    exact ih.step (Step.keeps_of_perform hrun.counted.nodup hmove) (Step.passes_of_perform hmove)

theorem Runs.disposed (h : Runs trace t) :
    t.mux.isDisposed = true ↔ .abandon ∈ trace.map Step.move := by
  induction h with
  | start => simp [fresh, Multiplexer.fresh, Multiplexer.isDisposed]
  | @next trace t t' move fired hrun hmove ih =>
    have hs := (Step.keeps_of_perform hrun.counted.nodup hmove).disposed
    simp only [List.map_append, List.map_cons, List.map_nil, List.mem_append, List.mem_singleton,
      ← ih, eq_comm (a := Move.abandon)]
    exact hs

theorem Runs.split (h : Runs (past ++ s :: later) t) :
    Runs past s.before ∧ s.before.perform s.move = some (s.fired, s.after) := by
  induction later using List.reverseRecOn generalizing t with
  | nil => exact ⟨h.last.1, h.last.2.1⟩
  | append_singleton later x ih =>
    have hassoc : past ++ s :: (later ++ [x]) = (past ++ s :: later) ++ [x] := by simp
    rw [hassoc] at h
    exact ih h.last.1

/-- A request after disposal fails at once and leaves no trace. -/
theorem register_of_disposed {method : String} {params : Option Json} {callback : κ}
    {fired : Fired κ} (hdisposed : t.mux.isDisposed = true)
    (h : t.perform (.register method params callback) = some (fired, t')) :
    fired = [(callback, .error .connectionClosed)] ∧ t' = t ∧
      (⟨t, .register method params callback, fired, t'⟩ : Step κ).registered = [] := by
  have hrefuse := Multiplexer.register_of_none method params callback
    (Multiplexer.isDisposed_iff.mp hdisposed)
  simp only [perform, hrefuse, Option.toList_none, List.append_nil, Option.some.injEq,
    Prod.mk.injEq] at h
  obtain ⟨rfl, rfl⟩ := h
  exact ⟨rfl, rfl, by simp [Step.registered, hrefuse]⟩

/-- A text that answers no outstanding request changes nothing. -/
theorem handle_of_unanswered {text : String} {fired : Fired κ}
    (hanswer : ∀ message answer, Message.decode text = .ok message →
      message.answer? = some answer → ∀ e ∈ t.mux.pending, e.1 ≠ answer.1)
    (h : t.perform (.handle text) = some (fired, t')) : fired = [] ∧ t' = t := by
  simp only [perform, Option.some.injEq, Prod.mk.injEq] at h
  have hhandle := Multiplexer.handle_eq (m := t.mux) text
  have hnothing : (t.mux.handle text).2 = ([], t.mux) := by
    rw [hhandle]
    cases hdecode : Message.decode text with
    | error why => rfl
    | ok message =>
      cases hmessage : message.answer? with
      | none => simp [Except.toOption, hmessage]
      | some answer =>
        simp only [Except.toOption, Option.bind_some, hmessage]
        exact Multiplexer.complete_of_not_mem _ (hanswer message answer hdecode hmessage)
  exact ⟨h.1 ▸ congrArg Prod.fst hnothing,
    h.2 ▸ congrArg (fun m => { t with mux := m.2 }) hnothing⟩

theorem Runs.dispose (h : Runs trace t) : ∃ more,
    Runs (trace ++ more) { t with mux := t.mux.dispose.2 } ∧
      more.flatMap Step.fired = t.mux.dispose.1 := by
  have hfirst : t.perform .abandon =
      some (t.mux.abandon.1, { t with mux := t.mux.abandon.2, closing := t.closing + 1 }) := rfl
  have hlast : Traffic.perform { t with mux := t.mux.abandon.2, closing := t.closing + 1 } .hangUp =
      some ([], { t with mux := t.mux.abandon.2.hangUp }) := rfl
  have hrun := (h.next hfirst).next hlast
  rw [List.append_assoc] at hrun
  exact ⟨_, hrun, List.append_nil _⟩

theorem perform_send {letter : Multiplexer.Letter} (h : letter ∉ t.unsent) :
    ({ t with unsent := t.unsent ++ [letter] } : Traffic κ).perform (.send letter) =
      some ([], { t with
        mux := (t.mux.post letter.2).2
        failed := if (t.mux.post letter.2).1 then t.failed else t.failed ++ [letter.1] }) := by
  have hlast : (t.unsent ++ [letter]).erase letter = t.unsent := by
    simp [List.erase_append_right _ h]
  simp [perform, hlast]

theorem perform_giveUp {id : Nat} (h : id ∉ t.failed) :
    ({ t with failed := t.failed ++ [id] } : Traffic κ).perform (.giveUp id) =
      some ((t.mux.complete id (.error .connectionClosed)).1,
        { t with mux := (t.mux.complete id (.error .connectionClosed)).2 }) := by
  have hlast : (t.failed ++ [id]).erase id = t.failed := by
    simp [List.erase_append_right _ h]
  simp [perform, hlast]

/-- A request is a run of its sections, and the id that it returns is the one it has registered. -/
theorem Runs.request (h : Runs trace t) (method : String) (params : Option Json) (callback : κ) :
    ∃ more, Runs (trace ++ more) { t with mux := (t.mux.request method params callback).2.2 } ∧
      more.flatMap Step.fired = (t.mux.request method params callback).2.1 ∧
      (registered more).map Prod.fst = (t.mux.request method params callback).1.toList := by
  cases htable : t.mux.table with
  | none =>
    have hrefuse := Multiplexer.register_of_none method params callback htable
    have hrequest : t.mux.request method params callback =
        (none, [(callback, .error .connectionClosed)], t.mux) := by
      simp only [Multiplexer.request, htable]
    have hfirst : t.perform (.register method params callback) =
        some ([(callback, .error .connectionClosed)], t) := by
      simp [perform, hrefuse]
    rw [hrequest]
    exact ⟨_, h.next hfirst, rfl, by simp [registered, Step.registered, hrefuse]⟩
  | some table =>
    have haccept := Multiplexer.register_of_some method params callback htable
    have hfirst : t.perform (.register method params callback) = some ([], { t with
        mux := (t.mux.register method params callback).2.2
        unsent := t.unsent ++ [(t.mux.nextId, Request.text ⟨t.mux.nextId, method, params⟩)] }) := by
      simp [perform, haccept]
    have hunsent : (t.mux.nextId, Request.text ⟨t.mux.nextId, method, params⟩) ∉ t.unsent :=
      fun hmem => Nat.lt_irrefl _ (h.sends.unsent _ hmem)
    have hfailed : t.mux.nextId ∉ t.failed :=
      fun hmem => Nat.lt_irrefl _ (h.sends.lost _ (h.sends.failed _ hmem)).1
    have hsend := perform_send
      (t := { t with mux := (t.mux.register method params callback).2.2 }) hunsent
    cases hsent : t.mux.outgoing.send (Request.text ⟨t.mux.nextId, method, params⟩) with
    | mk sent outgoing =>
    simp only [haccept, Multiplexer.post, hsent] at hfirst hsend
    cases sent with
    | true =>
      have hrequest : t.mux.request method params callback = (some t.mux.nextId, [], { t.mux with
          outgoing := outgoing, table := some (table ++ [(t.mux.nextId, callback)])
          nextId := t.mux.nextId + 1 }) := by
        simp [Multiplexer.request, htable, hsent]
      have hrun := (h.next hfirst).next hsend
      rw [List.append_assoc] at hrun
      rw [hrequest]
      exact ⟨_, hrun, rfl, by simp [registered, Step.registered, haccept]⟩
    | false =>
      have hrequest : t.mux.request method params callback =
          (some t.mux.nextId, [(callback, .error .connectionClosed)],
            { t.mux with nextId := t.mux.nextId + 1 }) := by
        simp [Multiplexer.request, htable, hsent]
      have hsame : outgoing = t.mux.outgoing := Pipe.eq_of_unsent hsent
      have hids : ∀ e ∈ table, e.1 ≠ t.mux.nextId := by
        intro e he
        have hmem : e ∈ t.mux.pending := by simpa [Multiplexer.pending, htable] using he
        exact (h.counted.lt_nextId e (h.counted.pending.subset hmem)).ne
      have hgiveUp := perform_giveUp (t := { t with mux := { t.mux with
        outgoing := outgoing, table := some (table ++ [(t.mux.nextId, callback)])
        nextId := t.mux.nextId + 1 } }) hfailed
      rw [Multiplexer.complete_last _ hids rfl, hsame, ← htable] at hgiveUp
      rw [hsame] at hsend
      have hrun := ((h.next hfirst).next hsend).next hgiveUp
      rw [List.append_assoc, List.append_assoc] at hrun
      rw [hrequest]
      exact ⟨_, hrun, rfl, by simp [registered, Step.registered, haccept]⟩

/-- Along every run the registered requests have the ids 1, 2, 3 and so on, and a move fires the
callbacks of the outstanding requests that it ends. A request is ended at most once, by the first
move after its registration that has a verdict on it, and it has been once the multiplexer is
disposed. Sending fails before a request is given up, and leaves none outstanding that is not still
to be given up. Texts that answer no outstanding request change nothing, and neither do requests
after disposal, which fail at once. -/
theorem every_request_completes_once (h : Runs trace t) :
    (registered trace).map Prod.fst = List.range' 1 (registered trace).length ∧
    (∀ s ∈ trace, s.fired =
      s.refused.map (fun callback => (callback, .error .connectionClosed)) ++
        s.completed.map Prod.snd) ∧
    (∀ past s later id callback, trace = past ++ s :: later → (id, callback) ∈ s.registered →
      (completed trace).filter (·.1 == id) =
        ((later.findSome? fun x => x.move.verdict id).map fun outcome =>
          (id, callback, outcome)).toList ∧
      ((id, callback) ∈ t.mux.pending ↔ (later.findSome? fun x => x.move.verdict id) = none) ∧
      (t.mux.isDisposed = true →
        ∃ outcome, (completed trace).filter (·.1 == id) = [(id, callback, outcome)])) ∧
    (∀ past s later id, trace = past ++ s :: later → s.move = .giveUp id → id ∈ lost past) ∧
    (∀ id ∈ lost trace, id ∈ t.failed ∨ ∀ e ∈ t.mux.pending, e.1 ≠ id) ∧
    (∀ s ∈ trace, ∀ text, s.move = .handle text →
      (∀ message answer, Message.decode text = .ok message → message.answer? = some answer →
        ∀ e ∈ s.before.mux.pending, e.1 ≠ answer.1) →
      s.fired = [] ∧ s.after = s.before) ∧
    t.mux.outstanding + (completed trace).length = (registered trace).length ∧
    (∀ past s later method params callback, trace = past ++ s :: later →
      .abandon ∈ past.map Step.move → s.move = .register method params callback →
      s.fired = [(callback, .error .connectionClosed)] ∧ s.registered = [] ∧
        s.after = s.before) := by
  refine ⟨h.counted.ids, fun s hs => (h.keeps s hs).fired, ?_, ?_,
    fun id hid => (h.sends.lost id hid).2, ?_, h.balance, ?_⟩
  · rintro past s later id callback rfl hnew
    obtain ⟨hdone, hpending⟩ := h.fate hnew
    have hwaits : (id, callback) ∈ t.mux.pending ↔
        (later.findSome? fun x => x.move.verdict id) = none := by
      have hmem : (id, callback) ∈ t.mux.pending ↔
          (id, callback) ∈ t.mux.pending.filter (·.1 == id) := by simp
      rw [hmem, hpending]
      cases later.findSome? fun x => x.move.verdict id <;> simp
    refine ⟨hdone, hwaits, fun hdisposed => ?_⟩
    have hnone : t.mux.pending = [] := by
      simp [Multiplexer.pending, Multiplexer.isDisposed_iff.mp hdisposed]
    cases hverdict : later.findSome? fun x => x.move.verdict id with
    | none => simp [hnone, hverdict] at hwaits
    | some outcome => exact ⟨outcome, by rw [hdone, hverdict]; rfl⟩
  · rintro past s later id rfl hmove
    obtain ⟨hrun, hperform⟩ := h.split
    rw [hmove] at hperform
    simp only [perform] at hperform
    split at hperform
    · rename_i hfailed
      exact hrun.sends.failed id hfailed
    · cases hperform
  · intro s hs text hmove hanswer
    obtain ⟨past, later, rfl⟩ := List.append_of_mem hs
    have hperform := h.split.2
    rw [hmove] at hperform
    exact handle_of_unanswered hanswer hperform
  · rintro past s later method params callback rfl habandon hmove
    obtain ⟨hrun, hperform⟩ := h.split
    have hdisposed := hrun.disposed.mpr habandon
    obtain ⟨before, move, fired, after⟩ := s
    obtain rfl : move = _ := hmove
    obtain ⟨hfired, hafter, hnone⟩ := register_of_disposed hdisposed hperform
    exact ⟨hfired, hnone, hafter⟩

def play (t : Traffic κ) : List (Move κ) → List (Step κ) × Traffic κ
  | [] => ([], t)
  | move :: moves =>
    match t.perform move with
    | none => t.play moves
    | some (fired, t') => (⟨t, move, fired, t'⟩ :: (t'.play moves).1, (t'.play moves).2)

theorem Runs.play (h : Runs trace t) (moves : List (Move κ)) :
    Runs (trace ++ (t.play moves).1) (t.play moves).2 := by
  induction moves generalizing trace t with
  | nil => simpa [Traffic.play] using h
  | cons move moves ih =>
    unfold Traffic.play
    split
    · exact ih h
    · rename_i fired t' hmove
      simpa using ih (h.next hmove)

/-- Three requests to a peer that answers the first one twice and closes before the second. -/
def hangingUp : List (Move String) :=
  [.register "get.a" none "first", .send (1, Request.text ⟨1, "get.a", none⟩),
    .register "get.b" none "second", .handle "\x7b\"id\":1,\"result\":null\x7d",
    .handle "\x7b\"id\":1,\"result\":null\x7d", .leave, .send (2, Request.text ⟨2, "get.b", none⟩),
    .giveUp 2, .register "get.c" none "third", .abandon, .register "get.d" none "fourth"]

theorem hangingUp_completes_once :
    ((fresh : Traffic String).play hangingUp).1.length = 11 ∧
      (registered ((fresh : Traffic String).play hangingUp).1).map Prod.fst = [1, 2, 3] ∧
      (completed ((fresh : Traffic String).play hangingUp).1).length = 3 := by
  have hrun := Runs.start.play hangingUp
  have hall := every_request_completes_once hrun
  have hids := hall.1
  have hbalance := hall.2.2.2.2.2.2.1
  have hlength : (registered ((fresh : Traffic String).play hangingUp).1).length = 3 := by
    decide +kernel
  have hnone : ((fresh : Traffic String).play hangingUp).2.mux.outstanding = 0 := by
    decide +kernel
  refine ⟨by decide +kernel, ?_, ?_⟩
  · rw [List.nil_append, hlength] at hids
    exact hids
  · rw [List.nil_append, hlength, hnone] at hbalance
    omega

end Traffic

end LiveResource
