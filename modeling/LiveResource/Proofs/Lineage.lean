import LiveResource.Proofs.Subscriptions

set_option autoImplicit false

/-!
# Lines of descent

An entry is known by the ticket that stands for its first contents, for no two entries ever have the
same. As long as an entry is there it keeps its ticket, and the replica that it is loaded with. An
entry that is made after an eviction has a new ticket, and its replica a new number.
-/

namespace LiveResource

namespace Entry

/-- What becomes of an entry as long as it is there. The replicas that it is given are numbered from
`number` on. -/
structure Grows (number : Nat) (e e' : Entry) : Prop where
  pending : e'.pending = e.pending
  loaded : e.loaded = true → e'.loaded = true
  handle : ∀ {rid handle}, e.handle? rid = some handle → e'.handle? rid = some handle
  fault : e.loaded = true → e.fault?.isSome = true → e'.fault?.isSome = true
  replica : ∀ {r'}, e'.replica = some r' → (∃ r, e.replica = some r ∧ r.id = r'.id) ∨ number ≤ r'.id

variable {number number' : Nat} {e e' e'' : Entry}

theorem Grows.refl (number : Nat) (e : Entry) : e.Grows number e :=
  ⟨rfl, id, id, fun _ => id, fun hr => .inl ⟨_, hr, rfl⟩⟩

theorem Grows.trans (h : e.Grows number e') (h' : e'.Grows number' e'') (hle : number ≤ number') :
    e.Grows number e'' := by
  refine ⟨h'.pending.trans h.pending, fun hl => h'.loaded (h.loaded hl),
    fun hh => h'.handle (h.handle hh), fun hl hf => h'.fault (h.loaded hl) (h.fault hl hf),
    fun {r''} hr => ?_⟩
  rcases h'.replica hr with ⟨r', hr', hid⟩ | hnew
  · rcases h.replica hr' with ⟨r, hr, hid'⟩ | hnew
    · exact .inl ⟨r, hr, hid'.trans hid⟩
    · exact .inr (hid ▸ hnew)
  · exact .inr (Nat.le_trans hle hnew)

theorem Grows.of_replica (hpending : e'.pending = e.pending)
    (hloaded : e.loaded = true → e'.loaded = true) (hkind : e'.kind = e.kind)
    (hreplica : e'.replica.map (·.id) = e.replica.map (·.id))
    (hfault : e.fault?.isSome = true → e'.fault?.isSome = true) : e.Grows number e' := by
  refine ⟨hpending, hloaded, fun {rid handle} hh => ?_, fun _ => hfault, fun {r'} hr' => .inl ?_⟩
  · obtain ⟨kind, r, hk, hr, hl, rfl⟩ := handle?_eq_some hh
    rw [hr, Option.map_some] at hreplica
    obtain ⟨r', hr', hid⟩ := Option.map_eq_some_iff.mp hreplica
    have hhandle : e'.handle? rid = some ⟨rid, kind, r'.id⟩ :=
      handle?_of_filled (hkind.trans hk) hr' (hloaded hl)
    rw [hhandle, hid]
  · rw [hr', Option.map_some] at hreplica
    exact Option.map_eq_some_iff.mp hreplica.symm

theorem Grows.of_unloaded (hpending : e'.pending = e.pending) (hloaded : e.loaded = false)
    (hreplica : ∀ {r'}, e'.replica = some r' → number ≤ r'.id) : e.Grows number e' := by
  refine ⟨hpending, fun hl => ?_, fun {rid handle} hh => ?_, fun hl => ?_,
    fun hr => .inr (hreplica hr)⟩
  · rw [hloaded] at hl
    cases hl
  · obtain ⟨_, _, _, _, hl, _⟩ := handle?_eq_some hh
    rw [hloaded] at hl
    cases hl
  · rw [hloaded] at hl
    cases hl

end Entry

namespace Store

def Ancestor (s : Store) (x : String) (e : Entry) : Prop :=
  s.get? x = some e ∨ ∃ pending, s.ledger.next ≤ pending ∧ e = .fresh pending

/-- A later store. Markers of network subscribes have not been changed, except where `marked`. -/
structure Descends (marked : String → Prop) (s s' : Store) : Prop where
  next : s.ledger.next ≤ s'.ledger.next
  nextReplica : s.nextReplica ≤ s'.nextReplica
  outcome : ∀ {t o}, s.ledger.outcome? t = some o → s'.ledger.outcome? t = some o
  entry : ∀ {x e'}, s'.get? x = some e' → ∃ e, s.Ancestor x e ∧ e.Grows s.nextReplica e' ∧
    (marked x ∨ e'.subscribing = e.subscribing)

/-- Tickets are given out once and replicas are numbered once. Those who wait for a resource are
told of a failure only if it is an error resource. -/
structure Numbered (s : Store) : Prop where
  pending : ∀ {x e}, s.get? x = some e → e.pending < s.ledger.next
  settled : ∀ {t o}, s.ledger.outcome? t = some o → t < s.ledger.next
  distinct : ∀ {x y e e'}, s.get? x = some e → s.get? y = some e' → e.pending = e'.pending → x = y
  replica : ∀ {x e r}, s.get? x = some e → e.replica = some r → r.id < s.nextReplica
  failed : ∀ {x e fault}, s.get? x = some e →
    s.ledger.outcome? e.pending = some (.error fault) → e.loaded = true ∧ e.fault?.isSome = true

def Pends (s : Store) (t : Ticket) : Prop :=
  s.ledger.next ≤ t ∨ ∃ x e, s.get? x = some e ∧ e.pending = t

/-- A later store in which only tickets of first contents have been settled. -/
structure Lineage (marked : String → Prop) (s s' : Store) : Prop extends Descends marked s s' where
  told : ∀ {t o}, s'.ledger.outcome? t = some o → s.ledger.outcome? t = some o ∨ s.Pends t
  numbered : s.Numbered → s'.Numbered

variable {marked marked' : String → Prop} {s s' s'' : Store} {rid x : String} {e e' : Entry}

theorem numbered_empty : empty.Numbered :=
  ⟨fun he => (by cases he), fun ho => (by cases ho), fun he => (by cases he),
    fun he => (by cases he), fun he => (by cases he)⟩

namespace Descends

theorem refl (s : Store) : s.Descends marked s :=
  ⟨Nat.le_refl _, Nat.le_refl _, id, fun he => ⟨_, .inl he, .refl _ _, .inr rfl⟩⟩

theorem trans (h : s.Descends marked s') (h' : s'.Descends marked s'') :
    s.Descends marked s'' := by
  refine ⟨Nat.le_trans h.next h'.next, Nat.le_trans h.nextReplica h'.nextReplica,
    fun ho => h'.outcome (h.outcome ho), fun {x e''} he'' => ?_⟩
  obtain ⟨e', hancestor, hgrows', hmark'⟩ := h'.entry he''
  rcases hancestor with he' | ⟨pending, hpending, rfl⟩
  · obtain ⟨e, hancestor, hgrows, hmark⟩ := h.entry he'
    refine ⟨e, hancestor, hgrows.trans hgrows' h.nextReplica, ?_⟩
    exact hmark.elim .inl fun heq => hmark'.imp_right fun heq' => heq'.trans heq
  · refine ⟨_, .inr ⟨pending, Nat.le_trans h.next hpending, rfl⟩, ?_, hmark'⟩
    exact (Entry.Grows.refl _ _).trans hgrows' h.nextReplica

theorem mono (h : s.Descends marked s') (himp : ∀ x, marked x → marked' x) :
    s.Descends marked' s' := by
  refine ⟨h.next, h.nextReplica, h.outcome, fun he => ?_⟩
  obtain ⟨e, hancestor, hgrows, hmark⟩ := h.entry he
  exact ⟨e, hancestor, hgrows, hmark.imp_left (himp _)⟩

theorem settle (s : Store) (t : Ticket) (outcome : Outcome Unit) :
    s.Descends marked (s.settle t outcome) := by
  refine ⟨?_, Nat.le_refl _, fun {u o} ho => ?_, fun he => ⟨_, .inl he, .refl _ _, .inr rfl⟩⟩
  · unfold Store.settle Ledger.settle
    dsimp only
    split <;> exact Nat.le_refl _
  · change (s.ledger.settle t outcome).outcome? u = some o
    rw [Ledger.outcome?_settle, ho, Option.some_or]

theorem old (h : s.Descends marked s') (he' : s'.get? x = some e')
    (hold : e'.pending < s.ledger.next) :
    ∃ e, s.get? x = some e ∧ e.Grows s.nextReplica e' ∧
      (marked x ∨ e'.subscribing = e.subscribing) := by
  obtain ⟨e, hancestor, hgrows, hmark⟩ := h.entry he'
  rcases hancestor with he | ⟨pending, hpending, rfl⟩
  · exact ⟨e, he, hgrows, hmark⟩
  · rw [hgrows.pending] at hold
    exact absurd hold (Nat.not_lt.mpr hpending)

theorem marker (h : s.Descends marked s') (hx : ¬ marked x) (he' : s'.get? x = some e')
    {t : Ticket} (ht : e'.subscribing = some t) :
    ∃ e, s.get? x = some e ∧ e.pending = e'.pending ∧ e.subscribing = some t := by
  obtain ⟨e, hancestor, hgrows, hmark⟩ := h.entry he'
  have hsame := hmark.resolve_left hx
  rw [ht] at hsame
  rcases hancestor with he | ⟨pending, _, rfl⟩
  · exact ⟨e, he, hgrows.pending.symm, hsame.symm⟩
  · cases hsame

end Descends

namespace Lineage

theorem refl (s : Store) : s.Lineage marked s := ⟨.refl s, .inl, id⟩

theorem trans (h : s.Lineage marked s') (h' : s'.Lineage marked s'') : s.Lineage marked s'' := by
  refine ⟨h.toDescends.trans h'.toDescends, fun {t o} ho => ?_,
    fun hs => h'.numbered (h.numbered hs)⟩
  rcases h'.told ho with ho' | hunissued | ⟨x, e', he', rfl⟩
  · exact h.told ho'
  · exact .inr (.inl (Nat.le_trans h.next hunissued))
  · obtain ⟨e, hancestor, hgrows, _⟩ := h.entry he'
    rw [hgrows.pending]
    rcases hancestor with he | ⟨pending, hpending, rfl⟩
    · exact .inr (.inr ⟨x, e, he, rfl⟩)
    · exact .inr (.inl hpending)

theorem mapped {f : String → Entry → Entry} (hget : ∀ x, s'.get? x = (s.get? x).map (f x))
    (hledger : s'.ledger = s.ledger) (hnext : s.nextReplica ≤ s'.nextReplica)
    (hf : ∀ {x e}, s.get? x = some e → e.Grows s.nextReplica (f x e) ∧
      (marked x ∨ (f x e).subscribing = e.subscribing) ∧
      ∀ {r'}, (f x e).replica = some r' →
        (∃ r, e.replica = some r ∧ r.id = r'.id) ∨ r'.id < s'.nextReplica) :
    s.Lineage marked s' := by
  have hback {x : String} {e' : Entry} (he' : s'.get? x = some e') :
      ∃ e, s.get? x = some e ∧ f x e = e' := by
    rw [hget] at he'
    exact Option.map_eq_some_iff.mp he'
  refine ⟨⟨Nat.le_of_eq (by rw [hledger]), hnext, fun ho => by rw [hledger]; exact ho,
    fun {x e'} he' => ?_⟩, fun ho => .inl (by rw [← hledger]; exact ho), fun hs => ?_⟩
  · obtain ⟨e, he, rfl⟩ := hback he'
    exact ⟨e, .inl he, (hf he).1, (hf he).2.1⟩
  · refine ⟨fun he' => ?_, fun ho => ?_, fun he' hf' heq => ?_, fun he' hr' => ?_,
      fun he' ho => ?_⟩
    · obtain ⟨e, he, rfl⟩ := hback he'
      rw [(hf he).1.pending, hledger]
      exact hs.pending he
    · rw [hledger] at ho ⊢
      exact hs.settled ho
    · obtain ⟨e, he, rfl⟩ := hback he'
      obtain ⟨e₂, he₂, rfl⟩ := hback hf'
      rw [(hf he).1.pending, (hf he₂).1.pending] at heq
      exact hs.distinct he he₂ heq
    · obtain ⟨e, he, rfl⟩ := hback he'
      rcases (hf he).2.2 hr' with ⟨r, hr, hid⟩ | hlt
      · rw [← hid]
        exact Nat.lt_of_lt_of_le (hs.replica he hr) hnext
      · exact hlt
    · obtain ⟨e, he, rfl⟩ := hback he'
      rw [(hf he).1.pending, hledger] at ho
      obtain ⟨hl, hfault⟩ := hs.failed he ho
      exact ⟨(hf he).1.loaded hl, (hf he).1.fault hl hfault⟩

theorem put (he : s.get? rid = some e) (hpending : e'.pending = e.pending)
    (hloaded : e.loaded = true → e'.loaded = true) (hkind : e'.kind = e.kind)
    (hreplica : e'.replica.map (·.id) = e.replica.map (·.id))
    (hfault : e.fault?.isSome = true → e'.fault?.isSome = true)
    (hmark : marked rid ∨ e'.subscribing = e.subscribing) : s.Lineage marked (s.put rid e') := by
  refine @mapped marked s _ (fun x ex => if rid = x then e' else ex) (fun x => ?_) rfl
    (Nat.le_refl _) fun {x ex} hx => ?_
  · rw [get?_put]
    by_cases heq : rid = x
    · subst heq
      simp only [if_pos, he, Option.map_some]
    · simp only [if_neg heq, Option.map_id']
  · by_cases heq : rid = x
    · subst heq
      rw [he] at hx
      cases hx
      simp only [if_true]
      refine ⟨.of_replica hpending hloaded hkind hreplica hfault, hmark, fun hr' => .inl ?_⟩
      rw [hr', Option.map_some] at hreplica
      exact Option.map_eq_some_iff.mp hreplica.symm
    · simp only [if_neg heq]
      exact ⟨.refl _ _, .inr trivial, fun hr => .inl ⟨_, hr, rfl⟩⟩

theorem recounted (he : s.get? rid = some e) (hpending : e'.pending = e.pending)
    (hloaded : e'.loaded = e.loaded) (hkind : e'.kind = e.kind) (hreplica : e'.replica = e.replica)
    (hmark : marked rid ∨ e'.subscribing = e.subscribing) : s.Lineage marked (s.put rid e') := by
  refine put he hpending (fun hl => hloaded.trans hl) hkind (by rw [hreplica]) (fun hf => ?_) hmark
  unfold Entry.fault? at hf ⊢
  rw [hreplica]
  exact hf

theorem modify (f : Entry → Entry) (hpending : ∀ e, (f e).pending = e.pending)
    (hloaded : ∀ e, e.loaded = true → (f e).loaded = true) (hkind : ∀ e, (f e).kind = e.kind)
    (hreplica : ∀ e, (f e).replica = e.replica)
    (hmark : ∀ e, (f e).subscribing = e.subscribing) : s.Lineage marked (s.modify rid f) := by
  cases he : s.get? rid with
  | none =>
    rw [modify_of_none he]
    exact refl s
  | some e =>
    rw [modify_eq_put he]
    refine put he (hpending e) (hloaded e) (hkind e) (by rw [hreplica]) (fun hf => ?_)
      (.inr (hmark e))
    unfold Entry.fault? at hf ⊢
    rw [hreplica]
    exact hf

theorem issued (s : Store) : s.Lineage marked s.issued := by
  refine ⟨⟨Nat.le_succ _, Nat.le_refl _, id, fun he => ⟨_, .inl he, .refl _ _, .inr rfl⟩⟩, .inl,
    fun hs => ?_⟩
  exact ⟨fun he => Nat.lt_succ_of_lt (hs.pending he), fun ho => Nat.lt_succ_of_lt (hs.settled ho),
    hs.distinct, hs.replica, hs.failed⟩

theorem get?_made (he : (s.issued.put rid (.fresh s.ledger.next)).get? x = some e) :
    e = .fresh s.ledger.next ∧ rid = x ∨ s.get? x = some e := by
  rw [get?_put] at he
  split at he
  · rename_i heq
    cases he
    exact .inl ⟨rfl, heq⟩
  · exact .inr he

theorem numbered_made (hs : s.Numbered) (rid : String) :
    (s.issued.put rid (.fresh s.ledger.next)).Numbered := by
  refine ⟨fun {x e} he => ?_, fun ho => Nat.lt_succ_of_lt (hs.settled ho),
    fun {x y e₁ e₂} h₁ h₂ heq => ?_, fun {x e r} he hr => ?_, fun {x e fault} he ho => ?_⟩
  · rcases get?_made he with ⟨rfl, _⟩ | hold
    · exact Nat.lt_succ_self _
    · exact Nat.lt_succ_of_lt (hs.pending hold)
  · rcases get?_made h₁ with ⟨rfl, hx⟩ | hold₁ <;> rcases get?_made h₂ with ⟨rfl, hy⟩ | hold₂
    · exact hx.symm.trans hy
    · exact absurd heq.symm (Nat.ne_of_lt (hs.pending hold₂))
    · exact absurd heq (Nat.ne_of_lt (hs.pending hold₁))
    · exact hs.distinct hold₁ hold₂ heq
  · rcases get?_made he with ⟨rfl, _⟩ | hold
    · cases hr
    · exact hs.replica hold hr
  · rcases get?_made he with ⟨rfl, _⟩ | hold
    · exact absurd (hs.settled ho) (Nat.lt_irrefl _)
    · exact hs.failed hold ho

theorem obtain (s : Store) (rid : String) : s.Lineage marked (s.obtain rid).2 := by
  cases he : s.get? rid with
  | some e =>
    rw [obtain_of_get? he]
    exact refl s
  | none =>
    rw [obtain_of_none he]
    refine ⟨⟨Nat.le_succ _, Nat.le_refl _, id, fun he' => ?_⟩, .inl, fun hs => numbered_made hs rid⟩
    rcases get?_made he' with ⟨rfl, _⟩ | hold
    · exact ⟨_, .inr ⟨_, Nat.le_refl _, rfl⟩, .refl _ _, .inr rfl⟩
    · exact ⟨_, .inl hold, .refl _ _, .inr rfl⟩

theorem create (registry : Registry) (batch : Batch) (kind : Kind)
    (hunloaded : s.isLoaded rid = false) :
    s.Lineage marked (s.create registry batch rid kind) := by
  unfold Store.create
  dsimp only
  generalize hr : (⟨s.nextReplica, (registry.create batch rid kind).1,
    (registry.create batch rid kind).2, 0⟩ : Replica) = r
  have hid : r.id = s.nextReplica := by rw [← hr]
  refine @mapped marked s _
    (fun x e => if rid = x then { e with kind := some kind, replica := some r } else e)
    (fun x => ?_) rfl (Nat.le_succ _) fun {x e} he => ?_
  · rw [get?_modify]
    by_cases heq : rid = x
    · simp only [if_pos heq]
      rfl
    · simp only [if_neg heq, Option.map_id']
      rfl
  · by_cases heq : rid = x
    · subst heq
      have hl : e.loaded = false := by
        unfold isLoaded at hunloaded
        rw [he] at hunloaded
        exact hunloaded
      simp only [if_true]
      refine ⟨.of_unloaded rfl hl fun hr' => ?_, .inr trivial, fun hr' => .inr ?_⟩
      · cases hr'
        exact Nat.le_of_eq hid.symm
      · cases hr'
        rw [hid]
        exact Nat.lt_succ_self _
    · simp only [if_neg heq]
      exact ⟨.refl _ _, .inr trivial, fun hr => .inl ⟨_, hr, rfl⟩⟩

theorem settle (he : s.get? rid = some e) {outcome : Outcome Unit}
    (hfailed : ∀ fault, outcome = .error fault → e.loaded = true ∧ e.fault?.isSome = true) :
    s.Lineage marked (s.settle e.pending outcome) := by
  have hnext := (@Descends.settle marked s e.pending outcome).next
  have hnew {t : Ticket} {o : Outcome Unit}
      (ho : (s.settle e.pending outcome).ledger.outcome? t = some o) :
      s.ledger.outcome? t = some o ∨ t = e.pending ∧ o = outcome := Ledger.outcome?_of_settle ho
  refine ⟨.settle s _ _, fun {t o} ho => ?_, fun hs => ?_⟩
  · rcases hnew ho with hold | ⟨rfl, _⟩
    · exact .inl hold
    · exact .inr (.inr ⟨rid, e, he, rfl⟩)
  · refine ⟨fun he' => Nat.lt_of_lt_of_le (hs.pending he') hnext, fun {t o} ho => ?_, hs.distinct,
      hs.replica, fun {x ex fault} hx ho => ?_⟩
    · rcases hnew ho with hold | ⟨rfl, _⟩
      · exact Nat.lt_of_lt_of_le (hs.settled hold) hnext
      · exact Nat.lt_of_lt_of_le (hs.pending he) hnext
    · rcases hnew ho with hold | ⟨hpending, hfault⟩
      · exact hs.failed hx hold
      · have heq := hs.distinct hx he hpending
        subst heq
        have hsame : s.get? x = some ex := hx
        rw [he] at hsame
        cases hsame
        exact hfailed fault hfault.symm

theorem foldl_remove (s : Store) (gone : List String) :
    s.Lineage marked (gone.foldl remove s) := by
  have hnumber : (gone.foldl remove s).nextReplica = s.nextReplica := by
    induction gone generalizing s with
    | nil => rfl
    | cons x rest ih => exact ih (s.remove x)
  have hledger := ledger_foldl_remove s gone
  have hback {x : String} {e : Entry} (he : (gone.foldl remove s).get? x = some e) :
      s.get? x = some e := by
    rw [get?_foldl_remove] at he
    split at he
    · cases he
    · exact he
  refine ⟨⟨Nat.le_of_eq (by rw [hledger]), Nat.le_of_eq hnumber.symm,
    fun ho => by rw [hledger]; exact ho, fun he => ⟨_, .inl (hback he), .refl _ _, .inr rfl⟩⟩,
    fun ho => .inl (by rw [← hledger]; exact ho), fun hs => ?_⟩
  exact ⟨fun he => by rw [hledger]; exact hs.pending (hback he),
    fun ho => by rw [hledger] at ho ⊢; exact hs.settled ho,
    fun he he' => hs.distinct (hback he) (hback he'),
    fun he hr => by rw [hnumber]; exact hs.replica (hback he) hr,
    fun he ho => by rw [hledger] at ho; exact hs.failed (hback he) ho⟩

theorem discard (he : s.get? rid = some e) (outcome : Outcome Unit) :
    s.Lineage marked ((s.settle e.pending outcome).remove rid) := by
  have hsettle := @Descends.settle marked s e.pending outcome
  have hremove := @foldl_remove marked (s.settle e.pending outcome) [rid]
  have hnew {t : Ticket} {o : Outcome Unit}
      (ho : ((s.settle e.pending outcome).remove rid).ledger.outcome? t = some o) :
      s.ledger.outcome? t = some o ∨ t = e.pending ∧ o = outcome := Ledger.outcome?_of_settle ho
  have hback {x : String} {ex : Entry}
      (hx : ((s.settle e.pending outcome).remove rid).get? x = some ex) :
      s.get? x = some ex ∧ rid ≠ x := by
    rw [get?_remove] at hx
    split at hx
    · cases hx
    · exact ⟨hx, ‹_›⟩
  refine ⟨hsettle.trans hremove.toDescends, fun {t o} ho => ?_, fun hs => ?_⟩
  · rcases hnew ho with hold | ⟨rfl, _⟩
    · exact .inl hold
    · exact .inr (.inr ⟨rid, e, he, rfl⟩)
  · refine ⟨fun hx => Nat.lt_of_lt_of_le (hs.pending (hback hx).1) hsettle.next,
      fun {t o} ho => ?_, fun hx hy => hs.distinct (hback hx).1 (hback hy).1,
      fun hx hr => hs.replica (hback hx).1 hr, fun hx ho => ?_⟩
    · rcases hnew ho with hold | ⟨rfl, _⟩
      · exact Nat.lt_of_lt_of_le (hs.settled hold) hsettle.next
      · exact Nat.lt_of_lt_of_le (hs.pending he) hsettle.next
    · rcases hnew ho with hold | ⟨hpending, _⟩
      · exact hs.failed (hback hx).1 hold
      · exact absurd (hs.distinct (hback hx).1 he hpending).symm (hback hx).2

theorem upkeep (marked : String → Prop) : Upkeep (fun _ => True) (Lineage marked) where
  refl := refl
  trans := trans
  recount _ _ _ := modify _ (fun _ => rfl) (fun _ => id) (fun _ => rfl) (fun _ => rfl) fun _ => rfl
  edit {s rid e r r'} _ he hr hbecomes := by
    refine put he rfl id rfl ?_ (fun hf => ?_) (.inr rfl)
    · rw [hr, Option.map_some, Option.map_some, hbecomes.1]
    · have hkind : r.content.kind = .error := by
        unfold Entry.fault? at hf
        rw [hr] at hf
        obtain ⟨id, content, hooks, turn⟩ := r
        cases content with
        | error fault => rfl
        | model fields => cases hf
        | collection values => cases hf
      have hkind' : r'.content.kind = .error := hbecomes.2.elim (·.trans hkind) id
      obtain ⟨id, content, hooks, turn⟩ := r'
      cases content with
      | error fault => rfl
      | model fields => cases hkind'
      | collection values => cases hkind'
  obtain := obtain
  create registry batch kind _ hunloaded := create registry batch kind hunloaded
  load _ _ _ := modify _ (fun _ => rfl) (fun _ _ => rfl) (fun _ => rfl) (fun _ => rfl) fun _ => rfl
  tell he hl htold := settle he fun fault hfault => ⟨hl, by rw [htold fault hfault]; rfl⟩
  evict _ := foldl_remove _ _

end Lineage

end Store

namespace Cache

variable {marked : String → Prop} {c : Cache} {rid name : String}

theorem mergeReply_lineage (c : Cache) (rid : String) (subscriptions : Nat)
    (reply : Outcome Json) :
    c.store.Lineage marked (c.mergeReply rid subscriptions reply).2.store := by
  rcases (Store.Lineage.upkeep marked).mergeReply c (fun _ _ => trivial) rid subscriptions with
    ⟨hline, _⟩ | ⟨s, e, hbefore, he, _, _, hafter, _⟩
  · exact hline
  · have hclaim : s.Lineage marked (s.put rid (e.claimed subscriptions)) :=
      .recounted he rfl rfl rfl rfl (.inr rfl)
    exact hbefore.trans (hclaim.trans hafter)

theorem merge_lineage (c : Cache) (batch : Batch) (rid : String) (subscriptions : Nat) :
    c.store.Lineage marked (c.merge batch rid subscriptions).2.store := by
  rcases (Store.Lineage.upkeep marked).merge c batch (fun _ _ => trivial) rid
    subscriptions with ⟨hline, _⟩ | ⟨s, e, hbefore, he, _, _, hafter, _⟩
  · exact hline
  · have hclaim : s.Lineage marked (s.put rid (e.claimed subscriptions)) :=
      .recounted he rfl rfl rfl rfl (.inr rfl)
    exact hbefore.trans (hclaim.trans hafter)

theorem dropSubscription_lineage (c : Cache) (rid : String) (reason : Fault) :
    c.store.Lineage marked (c.dropSubscription rid reason).store := by
  have hdrop : c.store.Lineage marked (c.store.modify rid Entry.dropped) :=
    .modify _ (fun _ => rfl) (fun _ => id) (fun _ => rfl) (fun _ => rfl) fun _ => rfl
  exact hdrop.trans ((Store.Lineage.upkeep marked).dropSubscription c rid reason)

theorem resubscribed_lineage (c : Cache) (rid : String) (reply : Outcome Json) :
    c.store.Lineage marked (c.resubscribed rid reply).store := by
  have hmerge : c.store.Lineage marked (c.mergeReply rid 0 reply).2.store :=
    c.mergeReply_lineage rid 0 reply
  unfold resubscribed
  split
  · rename_i hdone
    rw [hdone] at hmerge
    exact hmerge
  · rename_i reason c' hfailed
    rw [hfailed] at hmerge
    exact hmerge.trans (c'.dropSubscription_lineage rid reason)

theorem handleEvent_lineage (c : Cache) (rid name : String) (data : Option Json) :
    c.store.Lineage marked (c.handleEvent rid name data).2.store := by
  have hdrop : c.store.Lineage marked (c.store.modify rid Entry.dropped) :=
    .modify _ (fun _ => rfl) (fun _ => id) (fun _ => rfl) (fun _ => rfl) fun _ => rfl
  rcases (Store.Lineage.upkeep marked).handleEvent c rid name data trivial
    fun _ _ => trivial with hsame | ⟨_, hafter⟩ | ⟨_, hafter⟩
  · rw [hsame]
    exact .refl _
  · exact hdrop.trans hafter
  · exact hafter

theorem setAllStale_lineage (c : Cache) : c.store.Lineage marked c.setAllStale.2.store := by
  refine @Store.Lineage.mapped marked c.store c.setAllStale.2.store
    (fun _ e => if e.loaded && 0 < e.direct then { e with stale := true } else e)
    c.get?_setAllStale rfl (Nat.le_refl _) fun {x e} _ => ?_
  split
  · exact ⟨.of_replica rfl id rfl rfl id, .inr rfl, fun hr => .inl ⟨_, hr, rfl⟩⟩
  · exact ⟨.refl _ _, .inr rfl, fun hr => .inl ⟨_, hr, rfl⟩⟩

theorem join_lineage (c : Cache) (rid : String) (outcome : Outcome Unit) :
    c.store.Lineage marked (c.join rid outcome).2.store := by
  unfold join
  split
  · exact .refl _
  · split
    · exact .refl _
    · rename_i e he
      exact .recounted he rfl rfl rfl rfl (.inr rfl)

theorem leave_lineage (c : Cache) (rid : String) :
    c.store.Lineage marked (c.leave rid).2.store := by
  rcases (Store.Lineage.upkeep marked).leave c rid with ⟨_, hsame⟩ | ⟨e, he, _, hafter⟩
  · rw [hsame]
    exact .refl _
  · have hput : c.store.Lineage marked (c.store.put rid e.left) :=
      .recounted he rfl rfl rfl rfl (.inr rfl)
    exact hput.trans hafter

theorem unsubscribe_lineage (c : Cache) (rid : String) :
    c.store.Lineage marked (c.unsubscribe rid).2.store := by
  rcases c.unsubscribe_cases rid with ⟨_, hsame⟩ | ⟨e, he, _, hcases⟩
  · rw [hsame]
    exact .refl _
  · have hput : c.store.Lineage marked (c.store.put rid e.unsubscribed) :=
      .recounted he rfl rfl rfl rfl (.inr rfl)
    rcases hcases with ⟨_, heq⟩ | ⟨_, _, heq⟩ | ⟨_, _, left, hleave, heq⟩
    · rw [heq]
      exact hput
    · rw [heq]
      exact hput
    · rw [heq, ← hleave]
      exact hput.trans (leave_lineage { c with store := c.store.put rid e.unsubscribed } rid)

theorem released_lineage (c : Cache) (rid : String) (reply : Outcome Unit) :
    c.store.Lineage marked (c.released rid reply).2.store := by
  unfold released
  split
  · exact c.leave_lineage rid
  · exact .modify _ (fun _ => rfl) (fun _ => id) (fun _ => rfl) (fun _ => rfl) fun _ => rfl

theorem subscribe_lineage (c : Cache) (rid : String) :
    c.store.Lineage (· = rid) (c.subscribe rid).2.store := by
  obtain ⟨e, s, hobtain, hget, _, hcases⟩ := c.subscribe_cases rid
  have hline : c.store.Lineage (· = rid) (c.store.obtain rid).2 := .obtain c.store rid
  rw [hobtain] at hline
  rcases hcases with ⟨_, heq⟩ | ⟨_, shared, _, heq⟩ | ⟨_, _, heq⟩
  · rw [heq]
    exact hline.trans (.recounted hget rfl rfl rfl rfl (.inl rfl))
  · rw [heq]
    exact hline
  · rw [heq]
    have hget' : s.issued.get? rid = some e := hget
    exact hline.trans (.trans (.issued s) (.recounted hget' rfl rfl rfl rfl (.inl rfl)))

theorem closeFetch_lineage (s : Store) (rid : String) (result : Outcome Handle) :
    s.Lineage (· = rid) (closeFetch s rid result) := by
  unfold closeFetch
  cases he : s.get? rid with
  | none => exact .refl s
  | some e =>
    dsimp only
    have hput : s.Lineage (· = rid) (s.put rid { e with subscribing := none }) :=
      .recounted he rfl rfl rfl rfl (.inl rfl)
    split
    · exact hput
    · split
      · have hget : (s.put rid { e with subscribing := none }).get? rid =
            some { e with subscribing := none } := by rw [Store.get?_put, if_pos rfl]
        exact hput.trans (.discard hget _)
      · exact hput

theorem fetched_lineage (c : Cache) (rid : String) (reply : Outcome Json) :
    c.store.Lineage (· = rid)
      (closeFetch (c.mergeReply rid 1 reply).2.store rid (c.mergeReply rid 1 reply).1) :=
  (c.mergeReply_lineage rid 1 reply).trans (closeFetch_lineage _ rid _)

end Cache

end LiveResource
