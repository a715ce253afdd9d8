import LiveResource.Proofs.Eviction
import LiveResource.Proofs.Merge

set_option autoImplicit false

/-!
# Upkeep between operations

In the middle of an operation the store is at rest but for the resources that have been noted as
orphans: these still count as roots, until they are collected. Edits and merges keep it so, and
whatever touches neither contents nor counts of references does as well.
-/

namespace LiveResource

namespace Ledger

variable {α : Type}

theorem isSettled_settle (l : Ledger α) (t : Ticket) (outcome : α) (u : Ticket) :
    (l.settle t outcome).isSettled u = (u == t || l.isSettled u) := by
  unfold settle
  by_cases hu : u = t
  · subst hu
    rw [BEq.rfl, Bool.true_or]
    by_cases ht : l.isSettled u = true
    · rw [if_pos ht, ht]
    · rw [if_neg ht]
      simp [isSettled, outcome?]
  · have hne : (u == t) = false := beq_eq_false_iff_ne.mpr hu
    rw [hne, Bool.false_or]
    split
    · rfl
    · simp [isSettled, outcome?, List.lookup_cons, hne]

theorem outcome?_settle (l : Ledger α) (t : Ticket) (outcome : α) (u : Ticket) :
    (l.settle t outcome).outcome? u = (l.outcome? u).or (if u = t then some outcome else none) := by
  unfold settle
  by_cases hsettled : l.isSettled t = true
  · rw [if_pos hsettled]
    by_cases hut : u = t
    · subst hut
      obtain ⟨o, ho⟩ := Option.isSome_iff_exists.mp hsettled
      rw [ho, Option.some_or]
    · rw [if_neg hut, Option.or_none]
  · rw [if_neg hsettled]
    change ((t, outcome) :: l.settled).lookup u = (l.settled.lookup u).or _
    have hnone : l.settled.lookup t = none := by
      cases hlookup : l.settled.lookup t with
      | none => rfl
      | some o =>
        have hsome : l.isSettled t = true := by
          unfold isSettled outcome?
          rw [hlookup]
          rfl
        exact absurd hsome hsettled
    rw [List.lookup_cons]
    by_cases hut : u = t
    · subst hut
      rw [BEq.rfl, if_pos rfl, hnone, Option.none_or]
    · have hfalse : (u == t) = false := beq_eq_false_iff_ne.mpr hut
      rw [hfalse, if_neg hut, Option.or_none]

theorem outcome?_of_settle {l : Ledger α} {t u : Ticket} {outcome o : α}
    (h : (l.settle t outcome).outcome? u = some o) :
    l.outcome? u = some o ∨ u = t ∧ o = outcome := by
  rw [outcome?_settle] at h
  rcases Option.or_eq_some_iff.mp h with hold | ⟨_, hnew⟩
  · exact .inl hold
  · split at hnew
    · rename_i heq
      cases hnew
      exact .inr ⟨heq, rfl⟩
    · cases hnew

theorem isSettled_of_settled {l l' : Ledger α} (h : l'.settled = l.settled) (t : Ticket) :
    l'.isSettled t = l.isSettled t := by
  unfold isSettled outcome?
  rw [h]

end Ledger

def Entry.core (e : Entry) : Option Kind × Option Replica × Bool × Nat × Ticket :=
  (e.kind, e.replica, e.loaded, e.indirect, e.pending)

namespace Store

/-- Two stores that differ in nothing but subscriptions and in what has been told to waiting
    callers. -/
structure Agrees (s s' : Store) : Prop where
  core : ∀ x, (s'.get? x).map Entry.core = (s.get? x).map Entry.core
  told : ∀ t, s.ledger.isSettled t = true → s'.ledger.isSettled t = true

variable {s s' s'' : Store} {rid x : String} {e e' : Entry}

namespace Agrees

theorem refl (s : Store) : s.Agrees s := ⟨fun _ => rfl, fun _ => id⟩

theorem trans (h : s.Agrees s') (h' : s'.Agrees s'') : s.Agrees s'' :=
  ⟨fun x => (h'.core x).trans (h.core x), fun t ht => h'.told t (h.told t ht)⟩

theorem get? (h : s.Agrees s') (he : s'.get? x = some e') : ∃ e, s.get? x = some e ∧
    e'.kind = e.kind ∧ e'.replica = e.replica ∧ e'.loaded = e.loaded ∧
      e'.indirect = e.indirect ∧ e'.pending = e.pending := by
  have hcore := h.core x
  rw [he, Option.map_some] at hcore
  obtain ⟨e, hsome, heq⟩ := Option.map_eq_some_iff.mp hcore.symm
  simp only [Entry.core, Prod.mk.injEq] at heq
  obtain ⟨hkind, hreplica, hloaded, hindirect, hpending⟩ := heq
  exact ⟨e, hsome, hkind.symm, hreplica.symm, hloaded.symm, hindirect.symm, hpending.symm⟩

theorem get?' (h : s.Agrees s') (he : s.get? x = some e) : ∃ e', s'.get? x = some e' ∧
    e'.kind = e.kind ∧ e'.replica = e.replica ∧ e'.loaded = e.loaded ∧
      e'.indirect = e.indirect ∧ e'.pending = e.pending := by
  have hcore := h.core x
  rw [he, Option.map_some] at hcore
  obtain ⟨e', hsome, heq⟩ := Option.map_eq_some_iff.mp hcore
  simp only [Entry.core, Prod.mk.injEq] at heq
  exact ⟨e', hsome, heq⟩

theorem links (h : s.Agrees s') : s'.links = s.links := by
  funext x
  unfold Store.links
  cases he : s.get? x with
  | some e =>
    obtain ⟨e', he', _, hreplica, hloaded, _⟩ := h.get?' he
    simp only [he', Entry.links, Entry.hardRefs, hreplica, hloaded]
  | none =>
    have hcore := h.core x
    rw [he, Option.map_none, Option.map_eq_none_iff] at hcore
    simp only [hcore]

theorem linked (h : s.Agrees s') (t : String) : s'.linked t = s.linked t := by
  apply Dict.total_eq
  intro x
  change (s'.get? x).map _ = (s.get? x).map _
  cases he : s.get? x with
  | some e =>
    obtain ⟨e', he', _, hreplica, hloaded, _⟩ := h.get?' he
    simp only [he', Option.map_some, Entry.links, Entry.hardRefs, hreplica, hloaded]
  | none =>
    have hcore := h.core x
    rw [he, Option.map_none, Option.map_eq_none_iff] at hcore
    rw [hcore]

theorem isLoaded (h : s.Agrees s') (x : String) : s'.isLoaded x = s.isLoaded x := by
  unfold Store.isLoaded
  cases he : s.get? x with
  | some e =>
    obtain ⟨e', he', _, _, hloaded, _⟩ := h.get?' he
    simp only [he', hloaded]
  | none =>
    have hcore := h.core x
    rw [he, Option.map_none, Option.map_eq_none_iff] at hcore
    simp only [hcore]

theorem hasReplica (h : s.Agrees s') (hx : s.hasReplica x = true) : s'.hasReplica x = true := by
  obtain ⟨e, he, hr⟩ := hasReplica_iff.mp hx
  obtain ⟨e', he', _, hreplica, _⟩ := h.get?' he
  exact hasReplica_iff.mpr ⟨e', he', hreplica ▸ hr⟩

theorem loaded? (h : s.Agrees s') (x : String) : s'.loaded? x = s.loaded? x := by
  unfold Store.loaded?
  cases he : s.get? x with
  | some e =>
    obtain ⟨e', he', _, hreplica, hloaded, _⟩ := h.get?' he
    rw [he', Option.bind_some, Option.bind_some, hreplica, hloaded]
  | none =>
    have hcore := h.core x
    rw [he, Option.map_none, Option.map_eq_none_iff] at hcore
    rw [hcore]

theorem sturdy (h : s.Agrees s') (hs : s.Sturdy) : s'.Sturdy := by
  refine ⟨fun {x e'} he' => ?_, fun {x e'} he' => ?_, fun {x e' t} he' ht => ?_⟩
  · obtain ⟨e, he, hkind, hreplica, hloaded, _, _⟩ := h.get? he'
    have hsound := hs.entry he
    refine ⟨?_, fun hl => ?_, fun r hr => ?_, fun r hr hl => ?_⟩
    · rw [hkind, hreplica, hsound.kind]
    · rw [hreplica]
      exact hsound.filled (hloaded ▸ hl)
    · exact hsound.quiet r (hreplica ▸ hr)
    · exact hsound.clean r (hreplica ▸ hr) (hloaded ▸ hl)
  · obtain ⟨e, he, _, _, _, hindirect, _⟩ := h.get? he'
    rw [hindirect, h.linked]
    exact hs.enough he
  · obtain ⟨e, he, _, hreplica, hloaded, _, _⟩ := h.get? he'
    have hlinks : e'.links = e.links := by
      simp only [Entry.links, Entry.hardRefs, hreplica, hloaded]
    exact h.hasReplica (hs.closed he (hlinks ▸ ht))

theorem balanced {extra : String → Nat} (h : s.Agrees s') (hs : s.Balanced extra) :
    s'.Balanced extra := by
  refine .of_sturdy (h.sturdy hs.sturdy) (fun {x e'} he' => ?_) fun hpos =>
    h.hasReplica (hs.resident hpos)
  obtain ⟨e, he, _, _, _, hindirect, _⟩ := h.get? he'
  rw [hindirect, h.linked]
  exact hs.balance he

theorem settled (h : s.Agrees s') (hs : s.Settled) : s'.Settled := by
  intro x e' he' hr
  obtain ⟨e, he, _, hreplica, hloaded, _⟩ := h.get? he'
  rw [hloaded]
  exact hs x e he (hreplica ▸ hr)

theorem rests {extra : String → Nat} (h : s.Agrees s') (hs : s.Rests extra) : s'.Rests extra := by
  refine ⟨h.balanced hs.sound, h.settled hs.settled, fun {x e'} he' hl => ?_⟩
  obtain ⟨e, he, _, _, hloaded, _, hpending⟩ := h.get? he'
  rw [hpending]
  exact h.told _ (hs.announced he (hloaded ▸ hl))

theorem rooted {root root' : String → Prop} (h : s.Agrees s') (hs : s.Rooted root)
    (hroot : ∀ r, 0 < s.direct r ∨ root r → 0 < s'.direct r ∨ root' r) : s'.Rooted root' :=
  hs.mono hroot (fun x hx => .inl ((h.isLoaded x).symm.trans hx))
    (fun a b hab => .inl (by rw [h.links]; exact hab))

end Agrees

theorem agrees_put (he : s.get? rid = some e) (hcore : e'.core = e.core) :
    s.Agrees (s.put rid e') := by
  refine ⟨fun x => ?_, fun _ => id⟩
  rw [get?_put]
  by_cases hx : rid = x
  · subst hx
    rw [if_pos rfl, he, Option.map_some, Option.map_some, hcore]
  · rw [if_neg hx]

theorem direct_put (s : Store) (rid : String) (e' : Entry) (x : String) :
    (s.put rid e').direct x = if rid = x then e'.direct else s.direct x := by
  unfold direct
  rw [get?_put]
  by_cases hx : rid = x
  · simp only [if_pos hx]
  · simp only [if_neg hx]

theorem held_put {root : String → Prop} (he : s.get? rid = some e)
    (hheld : 0 < e.direct → 0 < e'.direct ∨ root rid) {r : String}
    (hr : 0 < s.direct r ∨ root r) : 0 < (s.put rid e').direct r ∨ root r := by
  rcases hr with hpos | hroot
  · rw [direct_put]
    by_cases hrid : rid = r
    · subst hrid
      rw [direct_of_get? he] at hpos
      rw [if_pos rfl]
      exact hheld hpos
    · rw [if_neg hrid]
      exact .inl hpos
  · exact .inr hroot

theorem agrees_modify {f : Entry → Entry} (hcore : ∀ e, (f e).core = e.core) :
    s.Agrees (s.modify rid f) := by
  refine ⟨fun x => ?_, fun _ => id⟩
  rw [get?_modify]
  by_cases hx : rid = x
  · rw [if_pos hx, Option.map_map]
    cases s.get? x with
    | none => rfl
    | some e => exact congrArg some (hcore e)
  · rw [if_neg hx]

theorem agrees_settle (s : Store) (t : Ticket) (outcome : Outcome Unit) :
    s.Agrees (s.settle t outcome) := by
  refine ⟨fun _ => rfl, fun u hu => ?_⟩
  change (s.ledger.settle t outcome).isSettled u = true
  rw [Ledger.isSettled_settle, hu, Bool.or_true]

end Store

/-- A store in the middle of an operation: what has been noted as an orphan counts as a root until
    it is collected, and so does what is counted too much. -/
structure Work.Steady (extra : String → Nat) (root : String → Prop) (w : Work) : Prop where
  rest : w.store.Rests extra
  rooted : w.store.Rooted fun r => (root r ∨ 0 < extra r) ∨ r ∈ w.out.orphans
  errors : ∀ err ∈ w.out.errors, ∃ rid fault, err = .handler rid fault

namespace Work

variable {root : String → Prop} {w w' : Work} {touched : String → Prop} {batch : Batch}
  {created surplus : List String} {extra : String → Nat}

theorem Steady.evolves (h : w.Steady extra root) (hevolves : w.Evolves touched w')
    (htouched : ∀ x, touched x → w.store.isLoaded x = true) : w'.Steady extra root := by
  have hloaded {x : String} {e' : Entry} (he' : w'.store.get? x = some e')
      (hl : e'.loaded = true) :
      ∃ e, w.store.get? x = some e ∧ e.Edited e' ∧ e.loaded = true := by
    obtain ⟨e, he⟩ := hevolves.back he'
    obtain ⟨e₁, he₁, hedited, hframe⟩ := hevolves.kept he
    rw [he'] at he₁
    cases he₁
    refine ⟨e, he, hedited, ?_⟩
    rcases hframe with hx | ⟨_, hsame⟩
    · obtain ⟨e₂, he₂, hl₂⟩ := Store.isLoaded_iff.mp (htouched x hx)
      rw [he] at he₂
      cases he₂
      exact hl₂
    · rw [← hsame]
      exact hl
  refine ⟨⟨hevolves.balanced h.rest.sound, hevolves.settled h.rest.settled,
    fun {x e'} he' hl => ?_⟩, ?_, fun err herr => ?_⟩
  · obtain ⟨e, he, hedited, hl'⟩ := hloaded he' hl
    rw [hevolves.ledger, hedited.pending]
    exact h.rest.announced he hl'
  · refine h.rooted.mono (fun r hr => ?_) (fun x hx => ?_) (fun a b hab => ?_)
    · rw [hevolves.direct]
      exact hr.imp_right fun hroot => hroot.imp_right (hevolves.orphans r)
    · obtain ⟨e', he', hl⟩ := Store.isLoaded_iff.mp hx
      obtain ⟨e, he, _, hl'⟩ := hloaded he' hl
      exact .inl (Store.isLoaded_iff.mpr ⟨e, he, hl'⟩)
    · rcases hevolves.links hab with hkept | horphan | hpos
      · exact .inl hkept
      · exact .inr (.inr (.inr horphan))
      · exact .inr (.inl hpos)
  · rcases hevolves.errors err herr with hbefore | hhook
    · exact h.errors err hbefore
    · exact hhook

theorem Merged.direct (h : w.Merged surplus batch created w') (x : String) :
    w'.store.direct x = w.store.direct x := by
  unfold Store.direct
  cases he : w.store.get? x with
  | some e =>
    obtain ⟨e', he', hdirect, _⟩ := h.kept he
    simp only [he', hdirect]
  | none =>
    cases he' : w'.store.get? x with
    | none => rfl
    | some e' => exact (h.fresh he he').2.1

theorem Merged.of_loaded (hmerges : w.Merged surplus batch created w') {x : String} {e' : Entry}
    (he' : w'.store.get? x = some e') (hl : e'.loaded = true) :
    x ∈ created ∨ ∃ e, w.store.get? x = some e ∧ e'.pending = e.pending ∧ e.loaded = true := by
  cases hloaded : w.store.isLoaded x with
  | true =>
    obtain ⟨e, he, hle⟩ := Store.isLoaded_iff.mp hloaded
    obtain ⟨e₁, he₁, _, hpending, _⟩ := hmerges.kept he
    rw [he'] at he₁
    cases he₁
    exact .inr ⟨e, he, hpending, hle⟩
  | false =>
    refine .inl ((hmerges.created x).mpr ⟨?_, hloaded⟩)
    cases he : w.store.get? x with
    | none => exact (hmerges.fresh he he').1
    | some e =>
      obtain ⟨e₁, he₁, _, _, _, _, _, hframe⟩ := hmerges.kept he
      rw [he'] at he₁
      cases he₁
      rcases hframe with hlisted | ⟨_, hsame⟩
      · exact hlisted
      · have htrue := Store.isLoaded_iff.mpr ⟨e, he, hsame ▸ hl⟩
        rw [hloaded] at htrue
        cases htrue

theorem Merged.settled (hmerges : w.Merged surplus batch created w') (h : w.store.Settled) :
    w'.store.Settled := by
  intro x e' he' hr
  by_cases hx : batch.contains x = true
  · obtain ⟨e₁, he₁, hl⟩ := Store.isLoaded_iff.mp (hmerges.loaded x hx)
    rw [he'] at he₁
    cases he₁
    exact hl
  · cases he : w.store.get? x with
    | none => exact absurd (hmerges.fresh he he').1 hx
    | some e =>
      obtain ⟨e₁, he₁, _, _, _, _, _, hframe⟩ := hmerges.kept he
      rw [he'] at he₁
      cases he₁
      obtain ⟨hreplica, hl⟩ := hframe.resolve_left hx
      rw [hl]
      exact h x e he (hreplica ▸ hr)

theorem Steady.merges (h : w.Steady extra root) (hmerges : w.Merged surplus batch created w')
    {w'' : Work} (hagrees : w'.store.Agrees w''.store)
    (htold : ∀ x ∈ created, ∀ e, w'.store.get? x = some e →
      w''.store.ledger.isSettled e.pending = true)
    (hdirect : ∀ x, w'.store.direct x ≤ w''.store.direct x)
    (horphans : w''.out.orphans = w'.out.orphans ++ created)
    (herrors : w''.out.errors = w'.out.errors) :
    w''.Steady (fun t => extra t + surplus.count t) root := by
  have hsettled := hmerges.settled h.rest.settled
  refine ⟨⟨hagrees.balanced (hmerges.counts h.rest.sound), fun x e'' he'' hr => ?_,
    fun {x e''} he'' hl => ?_⟩, ?_, fun err herr => ?_⟩
  · obtain ⟨e', he', _, hreplica, hsame, _⟩ := hagrees.get? he''
    rw [hsame]
    exact hsettled x e' he' (hreplica ▸ hr)
  · obtain ⟨e', he', _, _, hsame, _, hpending⟩ := hagrees.get? he''
    rw [hpending]
    rcases hmerges.of_loaded he' (hsame ▸ hl) with hx | ⟨e, he, hpending', hle⟩
    · exact htold x hx e' he'
    · rw [hpending']
      have hbefore := h.rest.announced he hle
      rw [← Ledger.isSettled_of_settled hmerges.ledger] at hbefore
      exact hagrees.told _ hbefore
  · refine h.rooted.mono (fun r hr => ?_) (fun x hx => ?_) (fun a b hab => ?_)
    · rcases hr with hpos | (hroot | hextra) | horphan
      · have hle := hdirect r
        rw [hmerges.direct] at hle
        exact .inl (by omega)
      · exact .inr (.inl (.inl hroot))
      · exact .inr (.inl (.inr (Nat.add_pos_left hextra _)))
      · exact .inr (.inr (by rw [horphans]; exact List.mem_append_left _ (hmerges.orphans r horphan)))
    · rw [hagrees.isLoaded] at hx
      obtain ⟨e', he', hl⟩ := Store.isLoaded_iff.mp hx
      rcases hmerges.of_loaded he' hl with hx | ⟨e, he, _, hle⟩
      · exact .inr (.inr (.inr (by rw [horphans]; exact List.mem_append_right _ hx)))
      · exact .inl (Store.isLoaded_iff.mpr ⟨e, he, hle⟩)
    · rw [hagrees.links]
      rcases hmerges.links hab with hkept | horphan | hpos
      · exact .inl hkept
      · exact .inr (.inr (.inr (by rw [horphans]; exact List.mem_append_left _ horphan)))
      · have hle := hdirect b
        exact .inr (.inl (by omega))
  · rw [herrors] at herr
    rcases hmerges.errors err herr with hbefore | hhook
    · exact h.errors err hbefore
    · exact hhook

end Work

end LiveResource
