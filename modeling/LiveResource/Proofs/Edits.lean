import LiveResource.Proofs.Mirror
import LiveResource.Proofs.Tokens

set_option autoImplicit false

/-!
# What an edit does

An edit exchanges the contents of one replica and moves the reference counts along, and nothing of
what it does can fail. All that edits leave of a store is collected in one relation, which holds of
every sequence of edits as well.
-/

namespace LiveResource

structure Entry.Edited (e e' : Entry) : Prop where
  kind : e'.kind = e.kind
  identity : e'.replica.map (·.id) = e.replica.map (·.id)
  hooks : ∀ {r r'}, e.replica = some r → e'.replica = some r' →
    r'.hooks = r.hooks ∨ r'.hooks = .pass
  direct : e'.direct = e.direct
  pending : e'.pending = e.pending
  subscribing : e'.subscribing = e.subscribing
  stale : e'.stale = e.stale
  loaded : e.loaded = true → e'.loaded = true

namespace Entry.Edited

variable {e e' e'' : Entry}

theorem hasReplica (h : e.Edited e') : e'.replica.isSome = e.replica.isSome := by
  have hid := congrArg Option.isSome h.identity
  rwa [Option.isSome_map, Option.isSome_map] at hid

theorem replica (h : e.Edited e') {r : Replica} (hr : e.replica = some r) :
    ∃ r', e'.replica = some r' ∧ r'.id = r.id ∧ (r'.hooks = r.hooks ∨ r'.hooks = .pass) := by
  have hid := h.identity
  rw [hr, Option.map_some] at hid
  obtain ⟨r', hr', hsame⟩ := Option.map_eq_some_iff.mp hid
  exact ⟨r', hr', hsame, h.hooks hr hr'⟩

theorem of_replica (hkind : e'.kind = e.kind) (hreplica : e'.replica = e.replica)
    (hdirect : e'.direct = e.direct) (hpending : e'.pending = e.pending)
    (hsubscribing : e'.subscribing = e.subscribing) (hstale : e'.stale = e.stale)
    (hloaded : e'.loaded = e.loaded) : e.Edited e' := by
  refine ⟨hkind, by rw [hreplica], fun {r r'} hr hr' => .inl ?_, hdirect, hpending, hsubscribing,
    hstale, fun hl => hloaded.trans hl⟩
  rw [hreplica, hr] at hr'
  cases hr'
  rfl

theorem refl (e : Entry) : e.Edited e := .of_replica rfl rfl rfl rfl rfl rfl rfl

theorem trans (h : e.Edited e') (h' : e'.Edited e'') : e.Edited e'' := by
  refine ⟨h'.kind.trans h.kind, h'.identity.trans h.identity, fun {r r''} hr hr'' => ?_,
    h'.direct.trans h.direct, h'.pending.trans h.pending, h'.subscribing.trans h.subscribing,
    h'.stale.trans h.stale, fun hloaded => h'.loaded (h.loaded hloaded)⟩
  obtain ⟨r', hr', _, hhooks⟩ := h.replica hr
  rcases h'.hooks hr' hr'' with hsame | hpass
  · exact hhooks.imp hsame.trans hsame.trans
  · exact .inr hpass

end Entry.Edited

namespace Store

def loaded? (s : Store) (rid : String) : Option Replica :=
  (s.get? rid).bind fun e => if e.loaded then e.replica else none

def Knows (s : Store) (x : String) (value : Value) : Prop :=
  (∃ r, s.loaded? x = some r ∧ value ∈ r.content.values) ∨ s.Reads value

/-- Every hook lets every event pass. -/
def Transparent (s : Store) : Prop :=
  ∀ x e r, s.get? x = some e → e.replica = some r → r.hooks.Transparent

variable {s : Store} {x : String} {e : Entry} {r : Replica}

theorem loaded?_of_get? (he : s.get? x = some e) (hl : e.loaded = true)
    (hr : e.replica = some r) : s.loaded? x = some r := by
  rw [loaded?, he, Option.bind_some, if_pos hl, hr]

theorem loaded?_eq_some (h : s.loaded? x = some r) :
    ∃ e, s.get? x = some e ∧ e.loaded = true ∧ e.replica = some r := by
  obtain ⟨e, he, hbody⟩ := Option.bind_eq_some_iff.mp h
  obtain ⟨hl, hr⟩ := Option.ite_none_right_eq_some.mp hbody
  exact ⟨e, he, hl, hr⟩

end Store

namespace Work

structure Alters (touched : String → Prop) (w w' : Work) : Prop where
  sturdy : w'.store.Sturdy
  kept : ∀ {x e}, w.store.get? x = some e → ∃ e', w'.store.get? x = some e' ∧ e.Edited e' ∧
    (touched x ∨ e'.replica = e.replica ∧ e'.loaded = e.loaded)
  back : ∀ {x e'}, w'.store.get? x = some e' → ∃ e, w.store.get? x = some e
  recalls : ∀ {x r' value}, w'.store.loaded? x = some r' → value ∈ r'.content.values →
    w.store.Knows x value

def Sends (touched : String → Prop) (w w' : Work) : Prop :=
  ∃ news, w'.out.events = w.out.events ++ news ∧ (∀ event ∈ news, touched event.rid) ∧
    (w.store.Transparent → ∀ x r r', w.store.loaded? x = some r → w'.store.loaded? x = some r' →
      r.content.kind ≠ .error → r.content.mirror (news.filter (·.edits x)) = some r'.content)

/-- Some replicas are edited, and the surplus is counted besides what they refer to. Whatever loses a
reference and has no subscription is noted. The only errors that edits report are failures of
hooks. -/
structure Swells (surplus : List String) (touched : String → Prop) (w w' : Work) : Prop
    extends Alters touched w w' where
  counts : ∀ {extra}, w.store.Balanced extra → w'.store.Balanced fun t => extra t + surplus.count t
  links : ∀ {a b}, b ∈ w.store.links a →
    b ∈ w'.store.links a ∨ b ∈ w'.out.orphans ∨ 0 < w'.store.direct b
  orphans : ∀ x ∈ w.out.orphans, x ∈ w'.out.orphans
  errors : ∀ err ∈ w'.out.errors, err ∈ w.out.errors ∨ ∃ rid fault, err = .handler rid fault
  ledger : w'.store.ledger = w.store.ledger

/-- Edits of some replicas that count what these refer to and nothing else, and that are told. -/
structure Evolves (touched : String → Prop) (w w' : Work) : Prop
    extends Swells [] touched w w' where
  sends : w.Sends touched w'

variable {touched touched' : String → Prop} {w w' w'' : Work} {rid x : String} {e e' : Entry}
  {r : Replica}

namespace Alters

theorem refl (h : w.store.Sturdy) : w.Alters touched w :=
  ⟨h, fun he => ⟨_, he, .refl _, .inr ⟨rfl, rfl⟩⟩, fun he => ⟨_, he⟩, fun hr hv => .inl ⟨_, hr, hv⟩⟩

theorem parseRef (h : w.Alters touched w') : w'.store.parseRef = w.store.parseRef := by
  funext rid
  unfold Store.parseRef
  cases he : w.store.get? rid with
  | none =>
    cases he' : w'.store.get? rid with
    | none => rfl
    | some e' =>
      obtain ⟨e, hsome⟩ := h.back he'
      rw [he] at hsome
      cases hsome
  | some e =>
    obtain ⟨e', he', hedited, _⟩ := h.kept he
    have hid := hedited.identity
    simp only [he', hedited.kind]
    cases e.kind with
    | none => rfl
    | some kind =>
      cases hr : e.replica with
      | none =>
        rw [hr, Option.map_none, Option.map_eq_none_iff] at hid
        simp only [hid]
      | some r =>
        rw [hr, Option.map_some] at hid
        obtain ⟨r', hr', heq⟩ := Option.map_eq_some_iff.mp hid
        simp only [hr', heq]

theorem trans (h : w.Alters touched w') (h' : w'.Alters touched w'') : w.Alters touched w'' := by
  refine ⟨h'.sturdy, fun {x e} he => ?_, fun he => ?_, fun hr'' hv => ?_⟩
  · obtain ⟨e', he', hedited, hframe⟩ := h.kept he
    obtain ⟨e'', he'', hedited', hframe'⟩ := h'.kept he'
    refine ⟨e'', he'', hedited.trans hedited', ?_⟩
    rcases hframe with htouched | ⟨hreplica, hloaded⟩
    · exact .inl htouched
    · rcases hframe' with htouched | ⟨hreplica', hloaded'⟩
      · exact .inl htouched
      · exact .inr ⟨hreplica'.trans hreplica, hloaded'.trans hloaded⟩
  · obtain ⟨e', he'⟩ := h'.back he
    exact h.back he'
  · rcases h'.recalls hr'' hv with ⟨r', hr', hv⟩ | hreads
    · exact h.recalls hr' hv
    · exact .inr ((Store.reads_congr h.parseRef).mp hreads)

theorem mono (h : w.Alters touched w') (himp : ∀ x, touched x → touched' x) :
    w.Alters touched' w' :=
  ⟨h.sturdy, fun he => by
    obtain ⟨e', he', hedited, hframe⟩ := h.kept he
    exact ⟨e', he', hedited, hframe.imp_left (himp _)⟩, h.back, h.recalls⟩

theorem direct (h : w.Alters touched w') (x : String) :
    w'.store.direct x = w.store.direct x := by
  unfold Store.direct
  cases he : w.store.get? x with
  | some e =>
    obtain ⟨e', he', hedited, _⟩ := h.kept he
    simp only [he', hedited.direct]
  | none =>
    cases he' : w'.store.get? x with
    | none => rfl
    | some e' =>
      obtain ⟨e, hsome⟩ := h.back he'
      rw [he] at hsome
      cases hsome

theorem hasReplica (h : w.Alters touched w') (hx : w.store.hasReplica x = true) :
    w'.store.hasReplica x = true := by
  obtain ⟨e, he, hreplica⟩ := Store.hasReplica_iff.mp hx
  obtain ⟨e', he', hedited, _⟩ := h.kept he
  exact Store.hasReplica_iff.mpr ⟨e', he', hedited.hasReplica ▸ hreplica⟩

theorem isLoaded (h : w.Alters touched w') (hx : w.store.isLoaded x = true) :
    w'.store.isLoaded x = true := by
  obtain ⟨e, he, hloaded⟩ := Store.isLoaded_iff.mp hx
  obtain ⟨e', he', hedited, _⟩ := h.kept he
  exact Store.isLoaded_iff.mpr ⟨e', he', hedited.loaded hloaded⟩

theorem loaded? (h : w.Alters touched w') (hx : w.store.loaded? x = some r) :
    ∃ r', w'.store.loaded? x = some r' ∧ r'.id = r.id ∧ (touched x ∨ r' = r) := by
  obtain ⟨e, he, hl, hr⟩ := Store.loaded?_eq_some hx
  obtain ⟨e', he', hedited, hframe⟩ := h.kept he
  obtain ⟨r', hr', hid, _⟩ := hedited.replica hr
  refine ⟨r', Store.loaded?_of_get? he' (hedited.loaded hl) hr', hid, hframe.imp_right ?_⟩
  rintro ⟨hsame, _⟩
  rw [hsame, hr] at hr'
  exact (Option.some.inj hr').symm

theorem exchange {gained lost : List String} (h : w.store.Sturdy)
    (he : w.store.get? rid = some e) (hsound : e'.Sound)
    (hedited : Entry.Edited { e with indirect := e'.indirect } e')
    (hindirect : e'.indirect = e.indirect + gained.count rid - lost.count rid)
    (hcount : ∀ t, e'.links.count t + lost.count t ≤ e.links.count t + gained.count t)
    (hgained : ∀ t ∈ gained, w.store.hasReplica t = true)
    (hknown : ∀ {r value}, e'.replica = some r → value ∈ r.content.values →
      w.store.Knows rid value)
    (hstore : w'.store = ((w.store.gain gained).lose lost).put rid e') :
    w.Alters (· = rid) w' := by
  have hget (x : String) : w'.store.get? x = if rid = x then some e' else
      (w.store.get? x).map fun e =>
        { e with indirect := e.indirect + gained.count x - lost.count x } := by
    rw [hstore, Store.get?_exchange]
  have hreplica : e.replica.isSome = true → e'.replica.isSome = true := fun hsome => by
    rw [hedited.hasReplica]
    exact hsome
  refine ⟨?_, fun {x ex} hex => ?_, fun {x ex} hex => ?_, fun {x rx v} hrx hv => ?_⟩
  · rw [hstore]
    exact h.exchange he hsound hreplica hindirect hcount hgained
  · rw [hget]
    by_cases hx : rid = x
    · subst hx
      rw [he] at hex
      cases hex
      exact ⟨e', by simp, ⟨hedited.kind, hedited.identity, hedited.hooks, hedited.direct,
        hedited.pending, hedited.subscribing, hedited.stale, hedited.loaded⟩, .inl rfl⟩
    · rw [if_neg hx, hex]
      exact ⟨_, rfl, .of_replica rfl rfl rfl rfl rfl rfl rfl, .inr ⟨rfl, rfl⟩⟩
  · rw [hget] at hex
    split at hex
    · rename_i hx
      subst hx
      exact ⟨e, he⟩
    · obtain ⟨e₀, he₀, _⟩ := Option.map_eq_some_iff.mp hex
      exact ⟨e₀, he₀⟩
  · obtain ⟨ex, hex, hl, hrx⟩ := Store.loaded?_eq_some hrx
    rw [hget] at hex
    split at hex
    · rename_i hx
      cases hex
      exact hx ▸ hknown hrx hv
    · obtain ⟨e₀, he₀, rfl⟩ := Option.map_eq_some_iff.mp hex
      exact .inl ⟨rx, Store.loaded?_of_get? he₀ hl hrx, hv⟩

theorem kind_replica {r' : Replica} (h : w.Alters touched w') (hsturdy : w.store.Sturdy)
    (he : w.store.get? x = some e) (hr : e.replica = some r) (he' : w'.store.get? x = some e')
    (hr' : e'.replica = some r') : r'.content.kind = r.content.kind := by
  obtain ⟨e₁, he₁, hedited, _⟩ := h.kept he
  cases he'.symm.trans he₁
  have hkind := hedited.kind
  rw [(h.sturdy.entry he').kind, (hsturdy.entry he).kind, hr, hr'] at hkind
  exact Option.some.inj hkind

theorem settled (h : w.Alters touched w') (hs : w.store.Settled) : w'.store.Settled := by
  intro x e' he' hreplica
  obtain ⟨e, he⟩ := h.back he'
  obtain ⟨e₁, he₁, hedited, _⟩ := h.kept he
  cases he'.symm.trans he₁
  exact hedited.loaded (hs x e he (hedited.hasReplica ▸ hreplica))

theorem transparent (h : w.Alters touched w') (ht : w.store.Transparent) :
    w'.store.Transparent := by
  intro x e' r' he' hr'
  obtain ⟨e, he⟩ := h.back he'
  obtain ⟨e₁, he₁, hedited, _⟩ := h.kept he
  rw [he'] at he₁
  cases he₁
  have hsome : e.replica.isSome = true := by
    rw [← hedited.hasReplica, hr']
    rfl
  obtain ⟨r, hr⟩ := Option.isSome_iff_exists.mp hsome
  rcases hedited.hooks hr hr' with hsame | hpass
  · rw [hsame]
    exact ht x e r he hr
  · rw [hpass]
    exact Hooks.transparent_pass

end Alters

namespace Sends

theorem nothing (hevents : w'.out.events = w.out.events)
    (h : ∀ x r r', w.store.loaded? x = some r → w'.store.loaded? x = some r' →
      r.content.kind ≠ .error → r'.content = r.content) : w.Sends touched w' :=
  ⟨[], by rw [hevents, List.append_nil], fun _ hmem => (by cases hmem),
    fun _ x r r' hr hr' hkind => congrArg some (h x r r' hr hr' hkind).symm⟩

theorem mono (h : w.Sends touched w') (himp : ∀ x, touched x → touched' x) :
    w.Sends touched' w' := by
  obtain ⟨news, hevents, htouched, hmirror⟩ := h
  exact ⟨news, hevents, fun event hmem => himp _ (htouched event hmem), hmirror⟩

theorem trans (h : w.Sends touched w') (h' : w'.Sends touched w'')
    (hkept : ∀ {x r}, w.store.loaded? x = some r → ∃ r', w'.store.loaded? x = some r')
    (htransparent : w.store.Transparent → w'.store.Transparent) : w.Sends touched w'' := by
  obtain ⟨news, hevents, htouched, hmirror⟩ := h
  obtain ⟨later, hevents', htouched', hmirror'⟩ := h'
  refine ⟨news ++ later, by rw [hevents', hevents, List.append_assoc], fun event hmem => ?_,
    fun ht x r r'' hr hr'' hkind => ?_⟩
  · exact (List.mem_append.mp hmem).elim (htouched event) (htouched' event)
  · obtain ⟨r', hr'⟩ := hkept hr
    have hfirst := hmirror ht x r r' hr hr' hkind
    rw [List.filter_append, Content.mirror_append, hfirst]
    exact hmirror' (htransparent ht) x r' r'' hr' hr'' (Content.kind_mirror hfirst ▸ hkind)

theorem of_put (he : w.store.get? rid = some e) {news : List ResourceEvent}
    (hevents : w'.out.events = w.out.events ++ news) (hrid : ∀ event ∈ news, event.rid = rid)
    (hget : w'.store.get? rid = some e')
    (hother : ∀ {x}, rid ≠ x → w'.store.loaded? x = w.store.loaded? x)
    (hmirror : w.store.Transparent → ∀ {r r'}, e.loaded = true → e.replica = some r →
      e'.replica = some r' → r.content.kind ≠ .error →
        r.content.mirror (news.filter (·.edits rid)) = some r'.content) :
    w.Sends (· = rid) w' := by
  refine ⟨news, hevents, hrid, fun ht x r r' hr hr' hkind => ?_⟩
  by_cases hx : rid = x
  · subst hx
    obtain ⟨e₀, he₀, hl, hr⟩ := Store.loaded?_eq_some hr
    obtain ⟨e₁, he₁, _, hr'⟩ := Store.loaded?_eq_some hr'
    cases he.symm.trans he₀
    cases hget.symm.trans he₁
    exact hmirror ht hl hr hr' hkind
  · rw [hother hx, hr] at hr'
    cases hr'
    rw [ResourceEvent.filter_edits_eq_nil fun event hmem heq =>
      hx ((hrid event hmem).symm.trans heq)]
    rfl

end Sends

namespace Swells

variable {surplus surplus' : List String}

theorem refl (h : w.store.Sturdy) : w.Swells [] touched w :=
  ⟨.refl h, id, .inl, fun _ => id, fun _ => .inl, rfl⟩

theorem trans (h : w.Swells surplus touched w') (h' : w'.Swells surplus' touched w'') :
    w.Swells (surplus ++ surplus') touched w'' := by
  refine ⟨h.toAlters.trans h'.toAlters, fun {extra} hs => ?_, fun {a b} hab => ?_,
    fun x hx => h'.orphans x (h.orphans x hx), fun err herr => ?_, h'.ledger.trans h.ledger⟩
  · have hboth := h'.counts (h.counts hs)
    simpa only [List.count_append, Nat.add_assoc] using hboth
  · rcases h.links hab with hkept | horphan | hpos
    · exact h'.links hkept
    · exact .inr (.inl (h'.orphans b horphan))
    · rw [← h'.direct b] at hpos
      exact .inr (.inr hpos)
  · rcases h'.errors err herr with hbefore | hhook
    · exact h.errors err hbefore
    · exact .inr hhook

theorem mono (h : w.Swells surplus touched w') (himp : ∀ x, touched x → touched' x) :
    w.Swells surplus touched' w' :=
  ⟨h.toAlters.mono himp, h.counts, h.links, h.orphans, h.errors, h.ledger⟩

/-- One entry is exchanged, and the counts move along with its references, or some more are gained.
-/
theorem exchange {gained lost : List String} (h : w.store.Sturdy)
    (he : w.store.get? rid = some e) (hsound : e'.Sound)
    (hedited : Entry.Edited { e with indirect := e'.indirect } e')
    (hindirect : e'.indirect = e.indirect + gained.count rid - lost.count rid)
    (hcount : ∀ t, e'.links.count t + lost.count t + surplus.count t =
      e.links.count t + gained.count t)
    (hsurplus : ∀ t, surplus.count t ≤ gained.count t)
    (hgained : ∀ t ∈ gained, w.store.hasReplica t = true)
    (hknown : ∀ {r value}, e'.replica = some r → value ∈ r.content.values →
      w.store.Knows rid value)
    (hstore : w'.store = ((w.store.gain gained).lose lost).put rid e')
    (horphans : w'.out.orphans = w.out.orphans ++ w.store.unheld lost)
    (herrors : ∀ err ∈ w'.out.errors, err ∈ w.out.errors ∨ ∃ rid fault, err = .handler rid fault) :
    w.Swells surplus (· = rid) w' := by
  have hreplica : e.replica.isSome = true → e'.replica.isSome = true := fun hsome => by
    rw [hedited.hasReplica]
    exact hsome
  have halters : w.Alters (· = rid) w' := .exchange h he hsound hedited hindirect
    (fun t => Nat.le.intro (hcount t)) hgained hknown hstore
  refine ⟨halters, fun hs => ?_, fun {a b} hab => ?_, fun x hx => ?_, herrors, ?_⟩
  · rw [hstore]
    exact hs.exchange he hsound hreplica hindirect hcount hgained
  · rw [hstore]
    have hlinks (t : String) : e.links.count t ≤ e'.links.count t + lost.count t := by
      have hcountt := hcount t
      have hovert := hsurplus t
      omega
    rcases Store.mem_links_exchange he hlinks hab with hkept | hlost
    · exact .inl hkept
    · obtain ⟨ea, hea, hb⟩ := Store.get?_of_mem_links hab
      obtain ⟨eb, heb, _, _⟩ := h.target hea hb
      by_cases hzero : eb.direct = 0
      · rw [horphans]
        exact .inr (.inl (List.mem_append_right _ (Store.mem_unheld hlost heb hzero)))
      · refine .inr (.inr ?_)
        rw [← hstore, halters.direct, Store.direct_of_get? heb]
        omega
  · rw [horphans]
    exact List.mem_append_left _ hx
  · rw [hstore]
    rfl

end Swells

namespace Evolves

theorem balanced {extra : String → Nat} (h : w.Evolves touched w')
    (hs : w.store.Balanced extra) : w'.store.Balanced extra := h.counts hs

theorem refl (h : w.store.Sturdy) : w.Evolves touched w :=
  ⟨.refl h, .nothing rfl fun x r r' hr hr' _ => by
    rw [hr] at hr'
    cases hr'
    rfl⟩

theorem trans (h : w.Evolves touched w') (h' : w'.Evolves touched w'') :
    w.Evolves touched w'' :=
  ⟨h.toSwells.trans h'.toSwells, h.sends.trans h'.sends
    (fun hr => (h.toAlters.loaded? hr).imp fun _ hr' => hr'.1) h.toAlters.transparent⟩

theorem mono (h : w.Evolves touched w') (himp : ∀ x, touched x → touched' x) :
    w.Evolves touched' w' :=
  ⟨h.toSwells.mono himp, h.sends.mono himp⟩

theorem exchange {gained lost : List String} {news : List ResourceEvent} (h : w.store.Sturdy)
    (he : w.store.get? rid = some e) (hsound : e'.Sound)
    (hedited : Entry.Edited { e with indirect := e'.indirect } e')
    (hindirect : e'.indirect = e.indirect + gained.count rid - lost.count rid)
    (hcount : ∀ t, e'.links.count t + lost.count t = e.links.count t + gained.count t)
    (hgained : ∀ t ∈ gained, w.store.hasReplica t = true)
    (hknown : ∀ {r value}, e'.replica = some r → value ∈ r.content.values →
      w.store.Knows rid value)
    (hstore : w'.store = ((w.store.gain gained).lose lost).put rid e')
    (horphans : w'.out.orphans = w.out.orphans ++ w.store.unheld lost)
    (herrors : ∀ err ∈ w'.out.errors, err ∈ w.out.errors ∨ ∃ rid fault, err = .handler rid fault)
    (hevents : w'.out.events = w.out.events ++ news) (hrid : ∀ event ∈ news, event.rid = rid)
    (hmirror : w.store.Transparent → ∀ {r r'}, e.loaded = true → e.replica = some r →
      e'.replica = some r' → r.content.kind ≠ .error →
        r.content.mirror (news.filter (·.edits rid)) = some r'.content) :
    w.Evolves (· = rid) w' := by
  refine ⟨.exchange h he hsound hedited hindirect hcount (fun _ => Nat.zero_le _) hgained hknown
    hstore horphans herrors, ?_⟩
  refine .of_put he hevents hrid (by rw [hstore, Store.get?_put, if_pos rfl])
    (fun {x} hx => ?_) hmirror
  rw [Store.loaded?, Store.loaded?, hstore, Store.get?_exchange, if_neg hx]
  cases w.store.get? x <;> rfl

end Evolves

end Work

namespace Work

def edited (w : Work) (rid : String) (r : Replica) (content : Content)
    (gained lost : List String) : Work :=
  ⟨((w.store.gain gained).lose lost).rewrite rid (r.hooked content),
    { w.out with orphans := w.out.orphans ++ w.store.unheld lost }⟩

def noted (w : Work) (rid : String) (outcome : Outcome (Option ResourceEvent)) : Work :=
  match outcome with
  | .ok (some event) => { w with out := { w.out with events := w.out.events ++ [event] } }
  | .ok none => w
  | .error fault =>
    { w with out := { w.out with errors := w.out.errors ++ [.handler rid fault] } }

variable {w : Work} {rid : String} {e : Entry} {r : Replica} {content : Content}
  {gained lost : List String} {touched : String → Prop}
  {outcome : Outcome (Option ResourceEvent)}

@[simp] theorem store_noted (outcome : Outcome (Option ResourceEvent)) :
    (w.noted rid outcome).store = w.store := by
  unfold noted
  split <;> rfl

@[simp] theorem orphans_noted (outcome : Outcome (Option ResourceEvent)) :
    (w.noted rid outcome).out.orphans = w.out.orphans := by
  unfold noted
  split <;> rfl

theorem mem_errors_noted {err : CacheError} (h : err ∈ (w.noted rid outcome).out.errors) :
    err ∈ w.out.errors ∨ ∃ rid fault, err = .handler rid fault := by
  unfold noted at h
  split at h
  · exact .inl h
  · exact .inl h
  · rename_i fault
    rcases List.mem_append.mp h with h | h
    · exact .inl h
    · exact .inr ⟨rid, fault, List.mem_singleton.mp h⟩

def passed : Outcome (Option ResourceEvent) → List ResourceEvent
  | .ok (some event) => [event]
  | _ => []

theorem events_noted (outcome : Outcome (Option ResourceEvent)) :
    (w.noted rid outcome).out.events = w.out.events ++ passed outcome := by
  unfold noted passed
  split <;> simp

theorem passed_map_none {α : Type} (outcome : Outcome α) :
    passed (outcome.map fun _ => none) = [] := by
  cases outcome <;> rfl

theorem mem_passed {event event' : ResourceEvent} {judged : Outcome Bool}
    (h : event' ∈ passed (judged.map fun passed => if passed then some event else none)) :
    event' = event := by
  cases judged with
  | error fault => cases h
  | ok passes =>
    cases passes with
    | false => cases h
    | true => exact List.mem_singleton.mp h

theorem mem_passed_change {rid : String} {event : ResourceEvent} {judged : Outcome (Option Change)}
    (h : event ∈ passed (judged.map (·.map (.change rid)))) :
    ∃ change, event = .change rid change := by
  cases judged with
  | error fault => cases h
  | ok passes =>
    cases passes with
    | none => cases h
    | some change => exact ⟨change, List.mem_singleton.mp h⟩

theorem store_edited (he : w.store.get? rid = some e) (r : Replica) (content : Content)
    (gained lost : List String) : (w.edited rid r content gained lost).store =
      ((w.store.gain gained).lose lost).put rid { e with
        replica := some (r.hooked content)
        indirect := e.indirect + gained.count rid - lost.count rid } := by
  rw [edited, Store.rewrite_eq_put (Store.get?_gain_lose he gained lost)]

theorem evolves_edited (h : w.store.Sturdy) (he : w.store.get? rid = some e)
    (hloaded : e.loaded = true) (hr : e.replica = some r) (hkind : content.kind = r.content.kind)
    (hcount : ∀ t, (hardRefs content.values).count t + lost.count t =
      r.hardRefs.count t + gained.count t)
    (hgained : ∀ t ∈ gained, w.store.hasReplica t = true) (hclean : content.Clean)
    (hknown : ∀ v ∈ content.values, v ∈ r.content.values ∨ w.store.Reads v)
    (hrid : ∀ event ∈ passed outcome, event.rid = rid)
    (hmirror : r.hooks.Transparent →
      r.content.mirror ((passed outcome).filter (·.edits rid)) = some content) :
    w.Evolves (· = rid) ((w.edited rid r content gained lost).noted rid outcome) := by
  have hlinks : e.links = r.hardRefs := by
    rw [Entry.links_of_loaded hloaded, Entry.hardRefs_of_replica hr]
  have hsound := h.entry he
  have hstore : ((w.edited rid r content gained lost).noted rid outcome).store =
      ((w.store.gain gained).lose lost).put rid { e with
        replica := some (r.hooked content)
        indirect := e.indirect + gained.count rid - lost.count rid } := by
    rw [store_noted, store_edited he]
  have herrors : ∀ err ∈ ((w.edited rid r content gained lost).noted rid outcome).out.errors,
      err ∈ w.out.errors ∨ ∃ rid fault, err = .handler rid fault := fun err herr => by
    have hmem := mem_errors_noted herr
    exact hmem
  refine .exchange h he ?_ ?_ rfl ?_ hgained (fun {r' v} hr' hv => ?_) hstore ?_ herrors
    (events_noted outcome) hrid ?_
  · refine ⟨?_, fun _ => rfl, fun r' hr' => ?_, fun r' hr' _ => ?_⟩
    · rw [hsound.kind, hr]
      exact congrArg some hkind.symm
    · cases hr'
      exact hsound.quiet r hr
    · cases hr'
      exact hclean
  · refine ⟨rfl, ?_, fun {r₁ r'} hr₁ hr' => .inl ?_, rfl, rfl, rfl, rfl, id⟩
    · rw [hr]
      rfl
    · cases hr.symm.trans hr₁
      cases hr'
      rfl
  · intro t
    rw [hlinks]
    change (if e.loaded = true then hardRefs content.values else []).count t + lost.count t = _
    rw [if_pos hloaded]
    exact hcount t
  · cases hr'
    exact (hknown v hv).imp_left fun hold => ⟨r, Store.loaded?_of_get? he hloaded hr, hold⟩
  · rw [orphans_noted]
    rfl
  · intro ht r₁ r' _ hr₁ hr' _
    cases hr.symm.trans hr₁
    cases hr'
    exact hmirror (ht rid e r he hr)

theorem evolves_passing (h : w.store.Sturdy) (he : w.store.get? rid = some e)
    (hloaded : e.loaded = true) (hr : e.replica = some r)
    (hrid : ∀ event ∈ passed outcome, event.rid = rid)
    (hmirror : r.hooks.Transparent →
      r.content.mirror ((passed outcome).filter (·.edits rid)) = some r.content) :
    w.Evolves (· = rid) ((w.edited rid r r.content [] []).noted rid outcome) :=
  evolves_edited h he hloaded hr rfl (fun _ => rfl) (fun _ ht => nomatch ht)
    ((h.entry he).clean r hr hloaded) (fun _ => .inl) hrid hmirror

end Work

namespace Store

def content? (s : Store) (rid : String) : Option Content :=
  (s.get? rid).bind fun e => e.replica.map (·.content)

theorem content?_of_get? {s : Store} {rid : String} {e : Entry} {r : Replica}
    (h : s.get? rid = some e) (hr : e.replica = some r) : s.content? rid = some r.content := by
  simp [content?, h, hr]

theorem get?_of_content? {s : Store} {rid : String} {content : Content}
    (h : s.content? rid = some content) :
    ∃ e r, s.get? rid = some e ∧ e.replica = some r ∧ r.content = content := by
  unfold content? at h
  obtain ⟨e, he, hmap⟩ := Option.bind_eq_some_iff.mp h
  obtain ⟨r, hr, hcontent⟩ := Option.map_eq_some_iff.mp hmap
  exact ⟨e, r, he, hr, hcontent⟩

theorem get?_of_loaded {s : Store} {rid : String} {content : Content} (h : s.isLoaded rid = true)
    (hcontent : s.content? rid = some content) :
    ∃ e r, s.get? rid = some e ∧ e.loaded = true ∧ e.replica = some r ∧ r.content = content := by
  obtain ⟨e, r, he, hr, hcontent⟩ := get?_of_content? hcontent
  obtain ⟨e', he', hl⟩ := isLoaded_iff.mp h
  rw [he] at he'
  cases he'
  exact ⟨e, r, he, hl, hr, hcontent⟩

end Store

theorem Content.mirror_passed {content content' : Content} {event : ResourceEvent} {rid : String}
    (h : content.take? event = some content') (hedits : event.edits rid = true) :
    content.mirror ((Work.passed (.ok (some event))).filter (·.edits rid)) = some content' := by
  rw [Work.passed, List.filter_cons_of_pos hedits, List.filter_nil, mirror, List.foldlM_cons, h]
  rfl

theorem Work.content?_edited {w : Work} {rid : String} {e : Entry} (r : Replica)
    (content : Content) (gained lost : List String) (he : w.store.get? rid = some e) :
    (w.edited rid r content gained lost).store.content? rid = some content := by
  have hgot := Store.get?_put ((w.store.gain gained).lose lost) rid { e with
    replica := some (r.hooked content)
    indirect := e.indirect + gained.count rid - lost.count rid } rid
  rw [if_pos rfl, ← store_edited he] at hgot
  exact Store.content?_of_get? hgot rfl

theorem Store.exists_rewrite {s : Store} {x : String} (rid : String) (r : Replica)
    (h : ∃ e, s.get? x = some e) : ∃ e, (s.rewrite rid r).get? x = some e := by
  obtain ⟨e, he⟩ := h
  rw [get?_rewrite, he]
  split
  · exact ⟨_, rfl⟩
  · exact ⟨_, rfl⟩

namespace Op

variable {w : Work} {rid : String} {e : Entry} {r : Replica}

theorem judged_run (outcome : Outcome Bool) (event : ResourceEvent) :
    (do if ← judged rid outcome then emit event : Op Unit) w =
      .ok () (w.noted rid (outcome.map fun passed => if passed then some event else none)) := by
  cases outcome with
  | error fault => rfl
  | ok passed => cases passed <;> rfl

/-- The contents are in place before the references are counted, and again after the hook call. -/
theorem edited_of_rewrite (w : Work) (rid : String) (r r' : Replica) (content : Content)
    (gained lost : List String) :
    (⟨(((w.store.rewrite rid r').gain gained).lose lost).rewrite rid (r.hooked content),
      { w.out with orphans := w.out.orphans ++ ((w.store.rewrite rid r').gain gained).unheld lost }⟩ :
        Work) = w.edited rid r content gained lost := by
  rw [Work.edited, Store.gain, Store.unheld_recount, Store.unheld_rewrite, ← Store.gain,
    Store.rewrite_gain, Store.rewrite_lose, Store.rewrite_rewrite]

theorem edited_of_rewrite_gain (w : Work) (rid : String) (r r' : Replica) (content : Content)
    (gained : List String) :
    (⟨((w.store.rewrite rid r').gain gained).rewrite rid (r.hooked content), w.out⟩ : Work) =
      w.edited rid r content gained [] := by
  rw [← edited_of_rewrite w rid r r', Store.lose_nil]
  simp [Store.unheld]

theorem edited_of_rewrite_lose (w : Work) (rid : String) (r r' : Replica) (content : Content)
    (lost : List String) :
    (⟨((w.store.rewrite rid r').lose lost).rewrite rid (r.hooked content),
      { w.out with orphans := w.out.orphans ++ (w.store.rewrite rid r').unheld lost }⟩ : Work) =
      w.edited rid r content [] lost := by
  rw [← edited_of_rewrite w rid r r', Store.gain_nil]

theorem edited_gain (w : Work) (rid : String) (r : Replica) (content : Content)
    (gained : List String) :
    (⟨(w.store.gain gained).rewrite rid (r.hooked content), w.out⟩ : Work) =
      w.edited rid r content gained [] := by
  rw [Work.edited, Store.lose_nil]
  simp [Store.unheld]

theorem edited_nil (w : Work) (rid : String) (r : Replica) (content : Content) :
    (⟨w.store.rewrite rid (r.hooked content), w.out⟩ : Work) = w.edited rid r content [] [] := by
  rw [← edited_gain, Store.gain_nil]

theorem applyCustom_run_model {fields : Fields} (name : String) (data : Option Json)
    (he : w.store.get? rid = some e) (hr : e.replica = some r) (hcontent : r.content = .model fields)
    (hquiet : r.hooks.Quiet) :
    applyCustom rid name data w = .ok () ((w.edited rid r (.model fields) [] []).noted rid
      ((r.hooks.customModel r.turn fields name data).2.map fun passed =>
        if passed then some (.custom rid name data) else none)) := by
  rw [applyCustom, bind_of_ok _ (replica_of_get? he hr)]
  simp only [hcontent]
  rw [bind_of_ok _ (setReplica_run _), hquiet.customModel, judged_run, ← edited_nil]

theorem applyCustom_run_collection {values : List Value} (name : String) (data : Option Json)
    (he : w.store.get? rid = some e) (hr : e.replica = some r)
    (hcontent : r.content = .collection values) (hquiet : r.hooks.Quiet) :
    applyCustom rid name data w = .ok () ((w.edited rid r (.collection values) [] []).noted rid
      ((r.hooks.customCollection r.turn values name data).2.map fun passed =>
        if passed then some (.custom rid name data) else none)) := by
  rw [applyCustom, bind_of_ok _ (replica_of_get? he hr)]
  simp only [hcontent]
  rw [bind_of_ok _ (setReplica_run _), hquiet.customCollection, judged_run, ← edited_nil]

theorem applyAdd_run {values : List Value} {index : Nat} {value : Value}
    (he : w.store.get? rid = some e) (hr : e.replica = some r)
    (hcontent : r.content = .collection values) (hquiet : r.hooks.Quiet)
    (hindex : index ≤ values.length) (hvalue : ∀ t ∈ hardRefs [value], ∃ e, w.store.get? t = some e) :
    applyAdd rid index value w = .ok ()
      ((w.edited rid r (.collection (values.insertIdx index value)) (hardRefs [value]) []).noted rid
        ((r.hooks.add r.turn (values.insertIdx index value) index value).2.map fun passed =>
          if passed then some (.add rid index value) else none)) := by
  have hrange : ¬ values.length < index := by omega
  have hcount : ∀ t ∈ hardRefs [value], ∃ e,
      (w.store.rewrite rid (r.withContent (.collection (values.insertIdx index value)))).get? t =
        some e := by
    intro t ht
    exact Store.exists_rewrite _ _ (hvalue t ht)
  rw [applyAdd, bind_of_ok _ (replica_of_get? he hr)]
  simp only [hcontent, hrange, if_false]
  rw [bind_of_ok _ (setReplica_run _), bind_of_ok _ (countValue_run hcount),
    bind_of_ok _ (setReplica_run _), hquiet.add, judged_run, ← edited_of_rewrite_gain w rid r]

theorem applyRemove_run {values : List Value} {index : Nat} {value : Value}
    (he : w.store.get? rid = some e) (hr : e.replica = some r)
    (hcontent : r.content = .collection values) (hquiet : r.hooks.Quiet)
    (hindex : values[index]? = some value) (hcovers : w.store.Covers (hardRefs [value])) :
    applyRemove rid index w = .ok ()
      ((w.edited rid r (.collection (values.eraseIdx index)) [] (hardRefs [value])).noted rid
        ((r.hooks.remove r.turn (values.eraseIdx index) index value).2.map fun passed =>
          if passed then some (.remove rid index value) else none)) := by
  have hcovers' : (w.store.rewrite rid
      (r.withContent (.collection (values.eraseIdx index)))).Covers (hardRefs [value]) :=
    hcovers.rewrite _ _
  rw [applyRemove, bind_of_ok _ (replica_of_get? he hr)]
  simp only [hcontent, hindex]
  rw [bind_of_ok _ (setReplica_run _), bind_of_ok _ (releaseValue_run hcovers'),
    bind_of_ok _ (setReplica_run _), hquiet.remove, judged_run, ← edited_of_rewrite_lose w rid r]

theorem applyChange_run_of_isEmpty {fields changes : Fields} (he : w.store.get? rid = some e)
    (hr : e.replica = some r) (hcontent : r.content = .model fields)
    (hempty : (Change.writeAll fields .none changes.entries).2.new.isEmpty = true) :
    applyChange rid changes w = .ok () w := by
  rw [applyChange, bind_of_ok _ (replica_of_get? he hr)]
  simp only [hcontent, hempty, if_true]
  rfl

theorem applyChange_run {fields changes fields' : Fields} {change : Change}
    (he : w.store.get? rid = some e) (hr : e.replica = some r) (hcontent : r.content = .model fields)
    (hquiet : r.hooks.Quiet)
    (hwrite : Change.writeAll fields .none changes.entries = (fields', change))
    (hempty : change.new.isEmpty = false)
    (hcount : ∀ t ∈ hardRefs change.new.values, ∃ e, w.store.get? t = some e)
    (hcovers : (w.store.gain (hardRefs change.new.values)).Covers (hardRefs change.old.values)) :
    applyChange rid changes w = .ok ()
      ((w.edited rid r (.model fields') (hardRefs change.new.values)
        (hardRefs change.old.values)).noted rid
          ((r.hooks.change r.turn fields' change).2.map (·.map (.change rid)))) := by
  have hcount' : ∀ t ∈ hardRefs change.new.values, ∃ e,
      (w.store.rewrite rid (r.withContent (.model fields'))).get? t = some e := fun t ht =>
    Store.exists_rewrite _ _ (hcount t ht)
  have hcovers' : ((w.store.rewrite rid (r.withContent (.model fields'))).gain
      (hardRefs change.new.values)).Covers (hardRefs change.old.values) := by
    rw [Store.rewrite_gain]
    exact hcovers.rewrite _ _
  rw [applyChange, bind_of_ok _ (replica_of_get? he hr)]
  simp only [hcontent, hwrite, hempty, Bool.false_eq_true, if_false]
  rw [bind_of_ok _ (setReplica_run _), bind_of_ok _ (countValues_run hcount'),
    bind_of_ok _ (releaseValues_run hcovers'), bind_of_ok _ (setReplica_run _), hquiet.change,
    ← edited_of_rewrite w rid r]
  cases (r.hooks.change r.turn fields' change).2 with
  | error fault => rfl
  | ok passed => cases passed <;> rfl

theorem applyCustom_spec (h : w.store.Sturdy) (hloaded : w.store.isLoaded rid = true)
    (name : String) (data : Option Json) :
    ∃ w', applyCustom rid name data w = .ok () w' ∧ w.Evolves (· = rid) w' ∧
      w'.store.content? rid = w.store.content? rid := by
  obtain ⟨e, he, hl⟩ := Store.isLoaded_iff.mp hloaded
  obtain ⟨r, hr⟩ := Option.isSome_iff_exists.mp ((h.entry he).filled hl)
  have hquiet := (h.entry he).quiet r hr
  cases hcontent : r.content with
  | model fields =>
    refine ⟨_, applyCustom_run_model name data he hr hcontent hquiet, ?_, ?_⟩
    · rw [← hcontent]
      apply Work.evolves_passing h he hl hr
      · exact fun event hmem => congrArg ResourceEvent.rid (Work.mem_passed hmem)
      · intro ht
        rw [ht.passModel, hcontent]
        rfl
    · rw [Work.store_noted, Work.content?_edited r _ _ _ he, Store.content?_of_get? he hr, hcontent]
  | collection values =>
    refine ⟨_, applyCustom_run_collection name data he hr hcontent hquiet, ?_, ?_⟩
    · rw [← hcontent]
      apply Work.evolves_passing h he hl hr
      · exact fun event hmem => congrArg ResourceEvent.rid (Work.mem_passed hmem)
      · intro ht
        rw [ht.passCollection, hcontent]
        rfl
    · rw [Work.store_noted, Work.content?_edited r _ _ _ he, Store.content?_of_get? he hr, hcontent]
  | error fault =>
    refine ⟨w, ?_, .refl h, rfl⟩
    rw [applyCustom, bind_of_ok _ (replica_of_get? he hr)]
    simp only [hcontent]
    rfl

theorem applyAdd_spec {values : List Value} {index : Nat} {value : Value} (h : w.store.Sturdy)
    (hloaded : w.store.isLoaded rid = true)
    (hcontent : w.store.content? rid = some (.collection values)) (hindex : index ≤ values.length)
    (hvalue : w.store.Reads value) :
    ∃ w', applyAdd rid index value w = .ok () w' ∧ w.Evolves (· = rid) w' ∧
      w'.store.content? rid = some (.collection (values.insertIdx index value)) := by
  obtain ⟨e, r, he, hl, hr, hcontent⟩ := Store.get?_of_loaded hloaded hcontent
  have hquiet := (h.entry he).quiet r hr
  have hgained : ∀ t ∈ hardRefs [value], w.store.hasReplica t = true :=
    Store.hasReplica_of_reads fun v hv => List.mem_singleton.mp hv ▸ hvalue
  have hexists : ∀ t ∈ hardRefs [value], ∃ e, w.store.get? t = some e := fun t ht => by
    obtain ⟨et, het, _⟩ := Store.hasReplica_iff.mp (hgained t ht)
    exact ⟨et, het⟩
  refine ⟨_, applyAdd_run he hr hcontent hquiet hindex hexists, ?_, ?_⟩
  · apply Work.evolves_edited h he hl hr (by rw [hcontent]; rfl)
    · intro t
      rw [Replica.hardRefs, hcontent]
      exact count_insertIdx hindex t
    · exact hgained
    · trivial
    · intro v hv
      rw [hcontent]
      rcases (List.mem_insertIdx hindex).mp hv with rfl | hold
      · exact .inr hvalue
      · exact .inl hold
    · exact fun event hmem => congrArg ResourceEvent.rid (Work.mem_passed hmem)
    · intro ht
      rw [ht.passAdd, hcontent]
      exact Content.mirror_passed (Content.take?_add rid hindex value) BEq.rfl
  · rw [Work.store_noted, Work.content?_edited r _ _ _ he]

theorem applyRemove_spec {values : List Value} {index : Nat} (h : w.store.Sturdy)
    (hloaded : w.store.isLoaded rid = true)
    (hcontent : w.store.content? rid = some (.collection values)) (hindex : index < values.length) :
    ∃ w', applyRemove rid index w = .ok () w' ∧ w.Evolves (· = rid) w' ∧
      w'.store.content? rid = some (.collection (values.eraseIdx index)) := by
  obtain ⟨e, r, he, hl, hr, hcontent⟩ := Store.get?_of_loaded hloaded hcontent
  have hquiet := (h.entry he).quiet r hr
  have hvalue : values[index]? = some values[index] := List.getElem?_eq_getElem hindex
  have hcount (t : String) : (hardRefs (values.eraseIdx index)).count t +
      (hardRefs [values[index]]).count t = r.hardRefs.count t + ([] : List String).count t := by
    rw [Replica.hardRefs, hcontent]
    exact count_eraseIdx hvalue t
  have hlinks : e.links = r.hardRefs := by
    rw [Entry.links_of_loaded hl, Entry.hardRefs_of_replica hr]
  have hcovers : w.store.Covers (hardRefs [values[index]]) := by
    rw [← Store.gain_nil w.store]
    exact h.covers he (fun t => hlinks ▸ hcount t) (fun t ht => by cases ht)
  refine ⟨_, applyRemove_run he hr hcontent hquiet hvalue hcovers, ?_, ?_⟩
  · apply Work.evolves_edited h he hl hr (by rw [hcontent]; rfl)
    · exact hcount
    · intro t ht
      cases ht
    · trivial
    · exact fun v hv => .inl (hcontent ▸ List.mem_of_mem_eraseIdx hv)
    · exact fun event hmem => congrArg ResourceEvent.rid (Work.mem_passed hmem)
    · intro ht
      rw [ht.passRemove, hcontent]
      exact Content.mirror_passed (Content.take?_remove rid hvalue) BEq.rfl
  · rw [Work.store_noted, Work.content?_edited r _ _ _ he]

theorem applyAdd_refused {values : List Value} {index : Nat}
    (hcontent : w.store.content? rid = some (.collection values)) (hrange : values.length < index)
    (value : Value) : applyAdd rid index value w =
      .error (.invalidEvent rid "add" (.addOutOfRange index values.length)) w := by
  obtain ⟨e, r, he, hr, hcollection⟩ := Store.get?_of_content? hcontent
  rw [applyAdd, bind_of_ok _ (replica_of_get? he hr)]
  simp only [hcollection, hrange, if_true]
  rfl

theorem applyRemove_refused {values : List Value} {index : Nat}
    (hcontent : w.store.content? rid = some (.collection values)) (hrange : values.length ≤ index) :
    applyRemove rid index w =
      .error (.invalidEvent rid "remove" (.removeOutOfRange index values.length)) w := by
  obtain ⟨e, r, he, hr, hcollection⟩ := Store.get?_of_content? hcontent
  rw [applyRemove, bind_of_ok _ (replica_of_get? he hr)]
  simp only [hcollection, List.getElem?_eq_none hrange]
  rfl

theorem applyChange_spec {fields changes : Fields} (h : w.store.Sturdy)
    (hloaded : w.store.isLoaded rid = true)
    (hcontent : w.store.content? rid = some (.model fields))
    (hchanges : ∀ v ∈ changes.values, w.store.Reads v) :
    ∃ w', applyChange rid changes w = .ok () w' ∧ w.Evolves (· = rid) w' ∧
      w'.store.content? rid = some (.model (Change.writeAll fields .none changes.entries).1) := by
  obtain ⟨e, r, he, hl, hr, hmodel⟩ := Store.get?_of_loaded hloaded hcontent
  have hquiet := (h.entry he).quiet r hr
  have hbalanced := Change.balanced_writeAll fields changes
  have hclean : (Content.model (Change.writeAll fields .none changes.entries).1).Clean :=
    Change.writeAll_clean (hmodel ▸ (h.entry he).clean r hr hl)
  have hnew : ∀ t ∈ hardRefs (Change.writeAll fields .none changes.entries).2.new.values,
      w.store.hasReplica t = true := fun t ht =>
        Store.hasReplica_of_reads hchanges t (Change.mem_hardRefs_new ht)
  have hvalues : ∀ v ∈ (Change.writeAll fields .none changes.entries).1.values,
      v ∈ fields.values ∨ w.store.Reads v := fun v hv =>
    (Change.mem_values_writeAll hv).imp_right (hchanges v)
  have htake := Content.take?_change rid fields changes
  cases hempty : (Change.writeAll fields .none changes.entries).2.new.isEmpty with
  | true =>
    refine ⟨w, applyChange_run_of_isEmpty he hr hmodel hempty, .refl h, ?_⟩
    rw [Change.fields_writeAll_of_isEmpty hempty]
    exact hcontent
  | false =>
    generalize hwrite : Change.writeAll fields .none changes.entries = written at *
    obtain ⟨fields', change⟩ := written
    have hcount (t : String) : (hardRefs fields'.values).count t +
        (hardRefs change.old.values).count t =
          r.hardRefs.count t + (hardRefs change.new.values).count t := by
      rw [Replica.hardRefs, hmodel]
      exact hbalanced t
    have hlinks : e.links = r.hardRefs := by
      rw [Entry.links_of_loaded hl, Entry.hardRefs_of_replica hr]
    have hexists : ∀ t ∈ hardRefs change.new.values, ∃ e, w.store.get? t = some e := fun t ht => by
      obtain ⟨et, het, _⟩ := Store.hasReplica_iff.mp (hnew t ht)
      exact ⟨et, het⟩
    have hcovers := h.covers he (fun t => hlinks ▸ hcount t) hnew
    refine ⟨_, applyChange_run he hr hmodel hquiet hwrite hempty hexists hcovers, ?_, ?_⟩
    · apply Work.evolves_edited h he hl hr (by rw [hmodel]; rfl)
      · exact hcount
      · exact hnew
      · exact hclean
      · exact fun v hv => hmodel ▸ hvalues v hv
      · intro event hmem
        obtain ⟨passed, rfl⟩ := Work.mem_passed_change hmem
        rfl
      · intro ht
        rw [ht.passChange, hmodel]
        exact Content.mirror_passed htake BEq.rfl
    · rw [Work.store_noted, Work.content?_edited r _ _ _ he]

end Op

end LiveResource
