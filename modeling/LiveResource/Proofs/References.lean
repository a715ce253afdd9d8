import LiveResource.Proofs.Counting
import LiveResource.Store.Token
import Mathlib.Logic.Relation

set_option autoImplicit false

/-!
# The graph of references

A store is sound when every entry counts exactly the hard references that loaded replicas hold to
its resource, and every such reference has a target with a replica. It is sturdy as long as no entry
counts too little: that is all it takes for operations to succeed. In between it is balanced, when
it is known how much every entry counts too much. It is rooted when everything that is loaded can be
reached from a direct subscription or from one of some further roots. All of this is kept by
whatever exchanges one entry and moves the counts along.
-/

namespace LiveResource

/-- Hooks that do not edit what their replica holds. -/
structure Hooks.Quiet (h : Hooks) : Prop where
  initModel : ∀ turn fields, (h.initModel turn fields).1 = fields
  initCollection : ∀ turn values, (h.initCollection turn values).1 = values
  change : ∀ turn fields change, (h.change turn fields change).1 = fields
  add : ∀ turn values index value, (h.add turn values index value).1 = values
  remove : ∀ turn values index value, (h.remove turn values index value).1 = values
  customModel : ∀ turn fields name data, (h.customModel turn fields name data).1 = fields
  customCollection : ∀ turn values name data,
    (h.customCollection turn values name data).1 = values

theorem Hooks.quiet_pass : Hooks.pass.Quiet :=
  ⟨fun _ _ => rfl, fun _ _ => rfl, fun _ _ _ => rfl, fun _ _ _ _ => rfl, fun _ _ _ _ => rfl,
    fun _ _ _ _ => rfl, fun _ _ _ _ => rfl⟩

/-- A model has no field that is marked as deleted. -/
def Content.Clean : Content → Prop
  | .model fields => ∀ k, fields.get? k ≠ some .delete
  | _ => True

namespace Entry

def links (e : Entry) : List String := if e.loaded then e.hardRefs else []

structure Sound (e : Entry) : Prop where
  kind : e.kind = e.replica.map (·.content.kind)
  filled : e.loaded = true → e.replica.isSome = true
  quiet : ∀ r, e.replica = some r → r.hooks.Quiet
  clean : ∀ r, e.replica = some r → e.loaded = true → r.content.Clean

theorem links_of_loaded {e : Entry} (h : e.loaded = true) : e.links = e.hardRefs := by
  simp [links, h]

theorem links_of_not_loaded {e : Entry} (h : e.loaded = false) : e.links = [] := by
  simp [links, h]

theorem hardRefs_of_replica {e : Entry} {r : Replica} (h : e.replica = some r) :
    e.hardRefs = r.hardRefs := by
  simp [hardRefs, h]

theorem sound_fresh (ticket : Ticket) : (fresh ticket).Sound :=
  ⟨rfl, fun h => (by cases h), fun r h => (by cases h), fun r h => (by cases h)⟩

end Entry

def Leads (next : String → List String) : String → String → Prop :=
  Relation.ReflTransGen fun a b => b ∈ next a

namespace Store

def refs (s : Store) (rid : String) : List String :=
  match s.get? rid with
  | some e => e.hardRefs
  | none => []

def links (s : Store) (rid : String) : List String :=
  match s.get? rid with
  | some e => e.links
  | none => []

def direct (s : Store) (rid : String) : Nat :=
  match s.get? rid with
  | some e => e.direct
  | none => 0

/-- How many hard references point to a resource, over the replicas of all entries. -/
def references (s : Store) (rid : String) : Nat :=
  s.entries.total fun _ e => e.hardRefs.count rid

def linked (s : Store) (rid : String) : Nat :=
  s.entries.total fun _ e => e.links.count rid

def Reaches (s : Store) (a b : String) : Prop := Leads s.refs a b

/-- No reference that a loaded replica holds is left uncounted, or without a target. -/
structure Sturdy (s : Store) : Prop where
  entry : ∀ {rid e}, s.get? rid = some e → e.Sound
  enough : ∀ {rid e}, s.get? rid = some e → s.linked rid ≤ e.indirect
  closed : ∀ {rid e t}, s.get? rid = some e → t ∈ e.links → s.hasReplica t = true

/-- Every entry counts the references that loaded replicas hold to its resource, and `extra` more.
What is referenced or counted too much has a replica. -/
structure Balanced (extra : String → Nat) (s : Store) : Prop where
  entry : ∀ {rid e}, s.get? rid = some e → e.Sound
  balance : ∀ {rid e}, s.get? rid = some e → e.indirect = s.linked rid + extra rid
  resident : ∀ {rid}, 0 < extra rid → s.hasReplica rid = true
  closed : ∀ {rid e t}, s.get? rid = some e → t ∈ e.links → s.hasReplica t = true

abbrev Sound (s : Store) : Prop := s.Balanced fun _ => 0

/-- Every replica has its first contents. -/
def Settled (s : Store) : Prop :=
  ∀ rid e, s.get? rid = some e → e.replica.isSome = true → e.loaded = true

/-- Whatever is loaded can be reached from a subscribed resource or a root. -/
def Rooted (s : Store) (root : String → Prop) : Prop :=
  ∀ x, s.isLoaded x = true → ∃ r, (0 < s.direct r ∨ root r) ∧ Leads s.links r x

variable {s s' : Store} {rid t x : String} {e e' : Entry}

theorem isLoaded_iff : s.isLoaded x = true ↔ ∃ e, s.get? x = some e ∧ e.loaded = true := by
  unfold isLoaded
  cases s.get? x <;> simp

theorem hasReplica_iff : s.hasReplica x = true ↔
    ∃ e, s.get? x = some e ∧ e.replica.isSome = true := by
  unfold hasReplica
  cases s.get? x <;> simp

theorem links_of_get? (h : s.get? rid = some e) : s.links rid = e.links := by
  simp [links, h]

theorem refs_of_get? (h : s.get? rid = some e) : s.refs rid = e.hardRefs := by
  simp [refs, h]

theorem direct_of_get? (h : s.get? rid = some e) : s.direct rid = e.direct := by
  simp [direct, h]

theorem get?_of_direct_pos (h : 0 < s.direct rid) : ∃ e, s.get? rid = some e ∧ 0 < e.direct := by
  unfold direct at h
  cases he : s.get? rid with
  | none => simp [he] at h
  | some e => exact ⟨e, rfl, by simpa [he] using h⟩

theorem get?_of_mem_links (h : t ∈ s.links rid) : ∃ e, s.get? rid = some e ∧ t ∈ e.links := by
  unfold links at h
  cases he : s.get? rid with
  | none => simp [he] at h
  | some e => exact ⟨e, rfl, by simpa [he] using h⟩

theorem get?_of_mem_refs (h : t ∈ s.refs rid) : ∃ e, s.get? rid = some e ∧ t ∈ e.hardRefs := by
  unfold refs at h
  cases he : s.get? rid with
  | none => simp [he] at h
  | some e => exact ⟨e, rfl, by simpa [he] using h⟩

theorem linked_recount (f : String → Nat → Nat) : (s.recount f).linked x = s.linked x := by
  unfold linked recount
  rw [Dict.total_mapWithKey]
  rfl

theorem linked_put (h : s.get? rid = some e) :
    (s.put rid e').linked t + e.links.count t = s.linked t + e'.links.count t := by
  have hget : s.entries.get? rid = some e := h
  have hinsert := Dict.total_insert s.entries (fun _ e => e.links.count t) rid e'
  rw [hget] at hinsert
  exact hinsert

theorem modify_eq_put (h : s.get? rid = some e) (f : Entry → Entry) :
    s.modify rid f = s.put rid (f e) := by
  have hget : s.entries.get? rid = some e := h
  simp only [modify, put, Dict.modify, hget]

theorem modify_of_none (h : s.get? rid = none) (f : Entry → Entry) : s.modify rid f = s := by
  have hget : s.entries.get? rid = none := h
  simp only [modify, Dict.modify, hget]

theorem rewrite_eq_put (h : s.get? rid = some e) (r : Replica) :
    s.rewrite rid r = s.put rid { e with replica := some r } :=
  modify_eq_put h _

theorem put_put (s : Store) (rid : String) (e e' : Entry) :
    (s.put rid e).put rid e' = s.put rid e' := by
  refine ext_get? (fun x => ?_) rfl rfl rfl
  rw [get?_put, get?_put, get?_put]
  by_cases hx : rid = x <;> simp [hx]

theorem put_self (h : s.get? rid = some e) : s.put rid e = s := by
  refine ext_get? (fun x => ?_) rfl rfl rfl
  rw [get?_put]
  by_cases hx : rid = x
  · rw [if_pos hx, ← hx, h]
  · rw [if_neg hx]

theorem get?_exchange (s : Store) (gained lost : List String) (rid : String) (e' : Entry)
    (x : String) : (((s.gain gained).lose lost).put rid e').get? x =
      if rid = x then some e' else (s.get? x).map fun e =>
        { e with indirect := e.indirect + gained.count x - lost.count x } := by
  rw [get?_put, get?_lose, get?_gain]
  cases s.get? x <;> rfl

theorem hasReplica_exchange {gained lost : List String} (he : s.get? rid = some e)
    (hreplica : e.replica.isSome = true → e'.replica.isSome = true) {x : String}
    (hx : s.hasReplica x = true) :
    (((s.gain gained).lose lost).put rid e').hasReplica x = true := by
  obtain ⟨ex, hex, hr⟩ := hasReplica_iff.mp hx
  rw [hasReplica_iff, get?_exchange]
  by_cases hx : rid = x
  · subst hx
    rw [he] at hex
    cases hex
    exact ⟨e', by simp, hreplica hr⟩
  · rw [if_neg hx, hex]
    exact ⟨_, rfl, hr⟩

theorem mem_links_exchange {gained lost : List String} (he : s.get? rid = some e)
    (hcount : ∀ t, e.links.count t ≤ e'.links.count t + lost.count t) {a b : String}
    (hab : b ∈ s.links a) : b ∈ (((s.gain gained).lose lost).put rid e').links a ∨ b ∈ lost := by
  obtain ⟨ea, hea, hb⟩ := get?_of_mem_links hab
  have hgot := s.get?_exchange gained lost rid e' a
  by_cases ha : rid = a
  · subst ha
    rw [he] at hea
    cases hea
    rw [if_pos rfl] at hgot
    rw [links_of_get? hgot]
    by_cases hkept : b ∈ e'.links
    · exact .inl hkept
    · have hzero := List.count_eq_zero.mpr hkept
      have hpos := List.count_pos_iff.mpr hb
      have hcountb := hcount b
      exact .inr (List.count_pos_iff.mp (by omega))
  · rw [if_neg ha, hea, Option.map_some] at hgot
    rw [links_of_get? hgot]
    exact .inl hb

theorem links_le_linked (he : s.get? rid = some e) : e.links.count t ≤ s.linked t :=
  Dict.weight_le_total (fun _ e => e.links.count t) he

theorem get?_gain_lose (he : s.get? rid = some e) (gained lost : List String) :
    ((s.gain gained).lose lost).get? rid =
      some { e with indirect := e.indirect + gained.count rid - lost.count rid } := by
  rw [get?_lose, get?_gain, he]
  rfl

theorem linked_exchange {gained lost : List String} (he : s.get? rid = some e) (t : String) :
    (((s.gain gained).lose lost).put rid e').linked t + e.links.count t =
      s.linked t + e'.links.count t := by
  have hput := @linked_put _ rid t _ e' (get?_gain_lose he gained lost)
  simp only [lose, gain, linked_recount] at hput ⊢
  exact hput

theorem linked_put_fresh (hnone : s.get? rid = none) (ticket : Ticket) (t : String) :
    (s.put rid (.fresh ticket)).linked t = s.linked t := by
  have hget : s.entries.get? rid = none := hnone
  have hinsert := Dict.total_insert s.entries (fun _ e => e.links.count t) rid (.fresh ticket)
  rw [hget] at hinsert
  exact hinsert

theorem hasReplica_put_fresh (hnone : s.get? rid = none) (ticket : Ticket) {x : String}
    (hx : s.hasReplica x = true) : (s.put rid (.fresh ticket)).hasReplica x = true := by
  obtain ⟨e, he, hr⟩ := hasReplica_iff.mp hx
  have hne : rid ≠ x := fun heq => by
    rw [← heq, hnone] at he
    cases he
  rw [hasReplica_iff, get?_put, if_neg hne]
  exact ⟨e, he, hr⟩

namespace Sturdy

theorem of_entries (h : s.Sturdy) (heq : s'.entries = s.entries) : s'.Sturdy := by
  have hget : ∀ x, s'.get? x = s.get? x := fun x => by simp only [get?, heq]
  have hlinked : ∀ x, s'.linked x = s.linked x := fun x => by simp only [linked, heq]
  refine ⟨fun he => h.entry (hget _ ▸ he), fun he => ?_, fun he ht => ?_⟩
  · rw [hlinked]
    exact h.enough (hget _ ▸ he)
  · have hreplica := h.closed (hget _ ▸ he) ht
    simpa only [hasReplica, hget] using hreplica

theorem target (h : s.Sturdy) (he : s.get? rid = some e) (ht : t ∈ e.links) :
    ∃ e', s.get? t = some e' ∧ e'.replica.isSome = true ∧ e.links.count t ≤ e'.indirect := by
  obtain ⟨e', he', hreplica⟩ := hasReplica_iff.mp (h.closed he ht)
  exact ⟨e', he', hreplica, Nat.le_trans (links_le_linked he) (h.enough he')⟩

theorem covers (h : s.Sturdy) {gained lost kept : List String} (he : s.get? rid = some e)
    (hcount : ∀ t, kept.count t + lost.count t = e.links.count t + gained.count t)
    (hgained : ∀ t ∈ gained, s.hasReplica t = true) : (s.gain gained).Covers lost := by
  have hheld : s.Covers e.links := fun t ht => by
    obtain ⟨e', he', _, hle⟩ := h.target he ht
    exact ⟨e', he', hle⟩
  refine hheld.gain (fun t ht => ?_) fun t => ?_
  · obtain ⟨e', he', _⟩ := hasReplica_iff.mp (hgained t ht)
    exact ⟨e', he'⟩
  · have hcountt := hcount t
    omega

/-- An entry is exchanged, and no more references are given back than it has lost. -/
theorem exchange (h : s.Sturdy) {gained lost : List String} (he : s.get? rid = some e)
    (hsound : e'.Sound) (hreplica : e.replica.isSome = true → e'.replica.isSome = true)
    (hindirect : e'.indirect = e.indirect + gained.count rid - lost.count rid)
    (hcount : ∀ t, e'.links.count t + lost.count t ≤ e.links.count t + gained.count t)
    (hgained : ∀ t ∈ gained, s.hasReplica t = true) :
    (((s.gain gained).lose lost).put rid e').Sturdy := by
  refine ⟨fun {x ex} hex => ?_, fun {x ex} hex => ?_, fun {x ex t} hex ht => ?_⟩
  · rw [get?_exchange] at hex
    split at hex
    · cases hex
      exact hsound
    · obtain ⟨e₀, he₀, rfl⟩ := Option.map_eq_some_iff.mp hex
      exact ⟨(h.entry he₀).kind, (h.entry he₀).filled, (h.entry he₀).quiet, (h.entry he₀).clean⟩
  · have hlx := @linked_exchange _ rid e e' gained lost he x
    have hcx := hcount x
    have hle : e.links.count x ≤ s.linked x := links_le_linked he
    rw [get?_exchange] at hex
    split at hex
    · rename_i heq
      subst heq
      cases hex
      have henough := h.enough he
      omega
    · obtain ⟨e₀, he₀, rfl⟩ := Option.map_eq_some_iff.mp hex
      have henough := h.enough he₀
      change _ ≤ e₀.indirect + gained.count x - lost.count x
      omega
  · apply hasReplica_exchange he hreplica
    rw [get?_exchange] at hex
    split at hex
    · cases hex
      have hpos := List.count_pos_iff.mpr ht
      have hct := hcount t
      by_cases hgain : t ∈ gained
      · exact hgained t hgain
      · have hzero := List.count_eq_zero.mpr hgain
        exact h.closed he (List.count_pos_iff.mp (by omega))
    · obtain ⟨e₀, he₀, rfl⟩ := Option.map_eq_some_iff.mp hex
      exact h.closed he₀ ht

theorem put (h : s.Sturdy) (he : s.get? rid = some e) (hsound : e'.Sound)
    (hreplica : e.replica.isSome = true → e'.replica.isSome = true)
    (hindirect : e'.indirect = e.indirect) (hlinks : e'.links = e.links) :
    (s.put rid e').Sturdy := by
  have hput : (((s.gain []).lose []).put rid e').Sturdy :=
    h.exchange he hsound hreplica (by simp [hindirect]) (fun t => by simp [hlinks])
      (fun t ht => by cases ht)
  rwa [gain_nil, lose_nil] at hput

theorem linked_eq_zero (h : s.Sturdy) (hnone : s.get? rid = none) : s.linked rid = 0 := by
  apply Dict.total_eq_zero_iff.mpr
  intro key e he
  apply List.count_eq_zero.mpr
  intro hmem
  have hkey : s.get? key = some e := he
  obtain ⟨e', he', _⟩ := hasReplica_iff.mp (h.closed hkey hmem)
  rw [hnone] at he'
  cases he'

theorem put_fresh (h : s.Sturdy) (hnone : s.get? rid = none) (ticket : Ticket) :
    (s.put rid (.fresh ticket)).Sturdy := by
  refine ⟨fun {x e} he => ?_, fun {x e} he => ?_,
    fun {x e t} he ht => hasReplica_put_fresh hnone ticket ?_⟩
  · rw [get?_put] at he
    split at he
    · cases he
      exact Entry.sound_fresh ticket
    · exact h.entry he
  · rw [linked_put_fresh hnone]
    rw [get?_put] at he
    split at he
    · rename_i heq
      subst heq
      cases he
      exact Nat.le_of_eq (h.linked_eq_zero hnone)
    · exact h.enough he
  · rw [get?_put] at he
    split at he
    · cases he
      cases ht
    · exact h.closed he ht

end Sturdy

theorem sound_empty : empty.Sound :=
  ⟨fun h => (by cases h), fun h => (by cases h), fun h => absurd h (Nat.lt_irrefl 0),
    fun h => (by cases h)⟩

namespace Balanced

variable {extra : String → Nat}

theorem exact (h : s.Sound) (he : s.get? rid = some e) : e.indirect = s.linked rid := h.balance he

theorem sturdy (h : s.Balanced extra) : s.Sturdy :=
  ⟨h.entry, fun he => Nat.le.intro (h.balance he).symm, h.closed⟩

theorem of_sturdy (h : s.Sturdy)
    (hbalance : ∀ {rid e}, s.get? rid = some e → e.indirect = s.linked rid + extra rid)
    (hresident : ∀ {rid}, 0 < extra rid → s.hasReplica rid = true) : s.Balanced extra :=
  ⟨h.entry, hbalance, hresident, h.closed⟩

theorem of_entries (h : s.Balanced extra) (heq : s'.entries = s.entries) : s'.Balanced extra := by
  have hget (x : String) : s'.get? x = s.get? x := by simp only [get?, heq]
  refine .of_sturdy (h.sturdy.of_entries heq) (fun {x e} he => ?_) fun {x} hpos => ?_
  · have hlinked : s'.linked x = s.linked x := by simp only [linked, heq]
    rw [hlinked]
    exact h.balance (hget x ▸ he)
  · rw [hasReplica, hget]
    exact h.resident hpos

/-- An entry is exchanged, and the counts move along with its references. The surplus of what is
gained, which the new entry does not refer to, is counted too much from then on. -/
theorem exchange (h : s.Balanced extra) {gained lost surplus : List String}
    (he : s.get? rid = some e) (hsound : e'.Sound)
    (hreplica : e.replica.isSome = true → e'.replica.isSome = true)
    (hindirect : e'.indirect = e.indirect + gained.count rid - lost.count rid)
    (hcount : ∀ t, e'.links.count t + lost.count t + surplus.count t =
      e.links.count t + gained.count t)
    (hgained : ∀ t ∈ gained, s.hasReplica t = true) :
    (((s.gain gained).lose lost).put rid e').Balanced fun t => extra t + surplus.count t := by
  have hsturdy : (((s.gain gained).lose lost).put rid e').Sturdy :=
    h.sturdy.exchange he hsound hreplica hindirect (fun t => Nat.le.intro (hcount t)) hgained
  refine .of_sturdy hsturdy (fun {x ex} hex => ?_) fun {x} hpos => ?_
  · have hlx := @linked_exchange _ rid e e' gained lost he x
    have hcx := hcount x
    have hle : e.links.count x ≤ s.linked x := links_le_linked he
    rw [get?_exchange] at hex
    split at hex
    · rename_i heq
      subst heq
      cases hex
      have hbalance := h.balance he
      omega
    · obtain ⟨e₀, he₀, rfl⟩ := Option.map_eq_some_iff.mp hex
      have hbalance := h.balance he₀
      change e₀.indirect + gained.count x - lost.count x = _
      omega
  · -- what is counted too much from now on has been referenced or gained
    apply hasReplica_exchange he hreplica
    have hcx := hcount x
    by_cases hextra : 0 < extra x
    · exact h.resident hextra
    · by_cases hgain : x ∈ gained
      · exact hgained x hgain
      · have hzero := List.count_eq_zero.mpr hgain
        exact h.closed he (List.count_pos_iff.mp (by omega))

theorem put (h : s.Balanced extra) (he : s.get? rid = some e) (hsound : e'.Sound)
    (hreplica : e.replica.isSome = true → e'.replica.isSome = true)
    (hindirect : e'.indirect = e.indirect) (hlinks : e'.links = e.links) :
    (s.put rid e').Balanced extra := by
  have hput : (((s.gain []).lose []).put rid e').Balanced fun t =>
      extra t + ([] : List String).count t :=
    h.exchange he hsound hreplica (by simp [hindirect]) (fun t => by simp [hlinks])
      (fun t ht => by cases ht)
  rwa [gain_nil, lose_nil] at hput

theorem put_fresh (h : s.Balanced extra) (hnone : s.get? rid = none) (ticket : Ticket) :
    (s.put rid (.fresh ticket)).Balanced extra := by
  refine .of_sturdy (h.sturdy.put_fresh hnone ticket) (fun {x e} he => ?_) fun hpos =>
    hasReplica_put_fresh hnone ticket (h.resident hpos)
  rw [linked_put_fresh hnone]
  rw [get?_put] at he
  split at he
  · rename_i heq
    subst heq
    cases he
    have hextra : ¬ 0 < extra rid := fun hpos => by
      obtain ⟨e, he, _⟩ := hasReplica_iff.mp (h.resident hpos)
      rw [hnone] at he
      cases he
    rw [h.sturdy.linked_eq_zero hnone, Nat.eq_zero_of_not_pos hextra]
    rfl
  · exact h.balance he

end Balanced

/-- Roots stay roots, and what loses a reference or is loaded anew becomes one. -/
theorem Rooted.mono {root root' : String → Prop} (h : s.Rooted root)
    (hroot : ∀ r, 0 < s.direct r ∨ root r → 0 < s'.direct r ∨ root' r)
    (hloaded : ∀ x, s'.isLoaded x = true → s.isLoaded x = true ∨ 0 < s'.direct x ∨ root' x)
    (hlinks : ∀ a b, b ∈ s.links a → b ∈ s'.links a ∨ 0 < s'.direct b ∨ root' b) :
    s'.Rooted root' := by
  have hpath (r x : String) (hr : 0 < s.direct r ∨ root r) (h : Leads s.links r x) :
      ∃ r', (0 < s'.direct r' ∨ root' r') ∧ Leads s'.links r' x := by
    induction h with
    | refl => exact ⟨r, hroot r hr, .refl⟩
    | @tail a b _ hab ih =>
      obtain ⟨r', hr', hlead⟩ := ih
      rcases hlinks a b hab with hkept | hnew
      · exact ⟨r', hr', hlead.tail hkept⟩
      · exact ⟨b, hnew, .refl⟩
  intro x hx
  rcases hloaded x hx with hold | hnew
  · obtain ⟨r, hr, hlead⟩ := h x hold
    exact hpath r x hr hlead
  · exact ⟨x, hnew, .refl⟩

theorem Rooted.weaken {root root' : String → Prop} (h : s.Rooted root)
    (himp : ∀ r, root r → root' r) : s.Rooted root' :=
  h.mono (fun r hr => hr.imp_right (himp r)) (fun _ hx => .inl hx) (fun _ _ hab => .inl hab)

/-- A root that something else refers to is needed no more. -/
theorem Rooted.of_linked {root : String → Prop} {r : String}
    (h : s.Rooted fun y => root y ∨ y = x)
    (hr : 0 < s.direct r ∨ root r) (hlink : x ∈ s.links r) : s.Rooted root := by
  intro y hy
  obtain ⟨r', hr', hleads⟩ := h y hy
  rcases hr' with hpos | hroot | rfl
  · exact ⟨r', .inl hpos, hleads⟩
  · exact ⟨r', .inr hroot, hleads⟩
  · exact ⟨r, hr, .head hlink hleads⟩

theorem Settled.links_eq_hardRefs (h : s.Settled) (he : s.get? rid = some e) :
    e.links = e.hardRefs := by
  by_cases hloaded : e.loaded = true
  · exact Entry.links_of_loaded hloaded
  · have hnone : e.replica = none := by
      cases hr : e.replica with
      | none => rfl
      | some r => exact absurd (h rid e he (by simp [hr])) hloaded
    simp [Entry.links, Entry.hardRefs, hnone]

theorem Settled.links_eq_refs (h : s.Settled) : s.links = s.refs := by
  funext rid
  unfold links refs
  cases he : s.get? rid with
  | none => rfl
  | some e => exact h.links_eq_hardRefs he

theorem Settled.linked_eq_references (h : s.Settled) (rid : String) :
    s.linked rid = s.references rid :=
  Dict.total_congr fun _ _ he => congrArg (List.count rid) (h.links_eq_hardRefs he)

end Store

end LiveResource
