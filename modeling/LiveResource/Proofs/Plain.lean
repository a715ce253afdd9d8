import LiveResource.Proofs.Eviction
import LiveResource.Proofs.Merge

set_option autoImplicit false

/-!
# Stores without their hooks

Two stores that differ in the hooks of their replicas only are the same without them. Whatever is
read of a store is read of it without its hooks as well, and every write that does not call a hook
does the same to both.
-/

namespace LiveResource

namespace Dict

variable {α β : Type}

theorem map_erase (f : α → β) (d : Dict α) (key : String) :
    (d.erase key).map f = (d.map f).erase key := by
  refine ext_get? fun k => ?_
  rw [get?_map, get?_erase, get?_erase, get?_map]
  split <;> rfl

theorem map_modify {f : α → β} {g : α → α} {g' : β → β} (hcomm : ∀ v, f (g v) = g' (f v))
    (d : Dict α) (key : String) : (d.modify key g).map f = (d.map f).modify key g' := by
  refine ext_get? fun k => ?_
  rw [get?_map, get?_modify, get?_modify, get?_map]
  split
  · rw [Option.map_map, Option.map_map]
    exact congrArg (fun h => (d.get? k).map h) (funext hcomm)
  · rfl

@[simp] theorem keys_map (f : α → β) (d : Dict α) : (d.map f).keys = d.keys := by
  change (d.entries.map fun e => (e.1, f e.2)).map (·.1) = d.entries.map (·.1)
  rw [List.map_map]
  rfl

theorem filter_map (f : α → β) (d : Dict α) (p : String → β → Bool) :
    (d.map f).filter p = (d.filter fun k v => p k (f v)).map f := by
  refine ext_get? fun k => ?_
  rw [get?_filter, get?_map, get?_map, get?_filter]
  cases hget : d.get? k with
  | none => rfl
  | some v =>
    rw [Option.map_some, Option.filter_some, Option.filter_some]
    split <;> rfl

end Dict

def Replica.plain (r : Replica) : Replica := { r with hooks := .pass }

theorem Replica.plain_mk (id : Nat) (content : Content) (hooks : Hooks) (turn : Nat) :
    Replica.plain ⟨id, content, hooks, turn⟩ = ⟨id, content, .pass, turn⟩ := rfl

namespace Entry

def plain (e : Entry) : Entry := { e with replica := e.replica.map Replica.plain }

variable {e e' : Entry}

@[simp] theorem kind_plain (e : Entry) : e.plain.kind = e.kind := rfl
@[simp] theorem replica_plain (e : Entry) : e.plain.replica = e.replica.map Replica.plain := rfl
@[simp] theorem loaded_plain (e : Entry) : e.plain.loaded = e.loaded := rfl
@[simp] theorem direct_plain (e : Entry) : e.plain.direct = e.direct := rfl
@[simp] theorem indirect_plain (e : Entry) : e.plain.indirect = e.indirect := rfl
@[simp] theorem pending_plain (e : Entry) : e.plain.pending = e.pending := rfl
@[simp] theorem subscribing_plain (e : Entry) : e.plain.subscribing = e.subscribing := rfl
@[simp] theorem stale_plain (e : Entry) : e.plain.stale = e.stale := rfl

theorem eq_of_plain (h : e.plain = e'.plain) : ∃ q, e' = { e with replica := q } := by
  obtain ⟨kind, replica, loaded, direct, indirect, pending, subscribing, stale⟩ := e
  obtain ⟨kind', replica', loaded', direct', indirect', pending', subscribing', stale'⟩ := e'
  simp only [plain, Entry.mk.injEq] at h
  obtain ⟨rfl, _, rfl, rfl, rfl, rfl, rfl, rfl⟩ := h
  exact ⟨replica', rfl⟩

@[simp] theorem hardRefs_plain (e : Entry) : e.plain.hardRefs = e.hardRefs := by
  cases hr : e.replica with
  | none => simp [hardRefs, hr]
  | some r =>
    simp only [hardRefs, replica_plain, hr, Option.map_some]
    rfl

@[simp] theorem handle?_plain (e : Entry) (rid : String) : e.plain.handle? rid = e.handle? rid := by
  cases hr : e.replica with
  | none => simp [handle?, hr]
  | some r =>
    simp only [handle?, kind_plain, replica_plain, hr, Option.map_some]
    cases e.kind <;> rfl

@[simp] theorem links_plain (e : Entry) : e.plain.links = e.links := by
  rw [links, links, loaded_plain, hardRefs_plain]

@[simp] theorem fault?_plain (e : Entry) : e.plain.fault? = e.fault? := by
  cases hr : e.replica with
  | none => simp [fault?, hr]
  | some r =>
    obtain ⟨id, content, hooks, turn⟩ := r
    simp only [fault?, replica_plain, hr, Option.map_some, Replica.plain_mk]
    cases content <;> rfl

end Entry

namespace Store

def plain (s : Store) : Store :=
  { s with entries := s.entries.map Entry.plain, retired := s.retired.map Replica.plain }

variable {s s' : Store} {rid x : String} {e : Entry}

@[simp] theorem get?_plain (s : Store) (x : String) : s.plain.get? x = (s.get? x).map Entry.plain :=
  Dict.get?_map _ _ _

@[simp] theorem ledger_plain (s : Store) : s.plain.ledger = s.ledger := rfl

@[simp] theorem nextReplica_plain (s : Store) : s.plain.nextReplica = s.nextReplica := rfl

@[simp] theorem plain_plain (s : Store) : s.plain.plain = s.plain := by
  have hreplica : Replica.plain ∘ Replica.plain = Replica.plain := rfl
  refine ext_get? (fun x => ?_) ?_ rfl rfl
  · rw [get?_plain, get?_plain, Option.map_map]
    refine congrArg (fun f => (s.get? x).map f) (funext fun e => ?_)
    change e.plain.plain = e.plain
    unfold Entry.plain
    dsimp only
    rw [Option.map_map, hreplica]
  · change (s.retired.map Replica.plain).map Replica.plain = _
    rw [List.map_map, hreplica]
    rfl

theorem get?_of_plain (h : s.plain = s'.plain) (he : s.get? x = some e) :
    ∃ e', s'.get? x = some e' ∧ e.plain = e'.plain := by
  have hget := congrArg (·.get? x) h
  simp only [get?_plain, he, Option.map_some] at hget
  obtain ⟨e', he', hsame⟩ := Option.map_eq_some_iff.mp hget.symm
  exact ⟨e', he', hsame.symm⟩

theorem get?_none_of_plain (h : s.plain = s'.plain) (he : s.get? x = none) :
    s'.get? x = none := by
  have hget := congrArg (·.get? x) h
  simp only [get?_plain, he, Option.map_none] at hget
  exact Option.map_eq_none_iff.mp hget.symm

/-- What does not depend on hooks is the same for both stores. -/
theorem congr_plain {α : Type} (f : Store → α) (hf : ∀ s, f s.plain = f s)
    (h : s.plain = s'.plain) : f s = f s' := by
  rw [← hf s, h, hf s']

@[simp] theorem isLoaded_plain (s : Store) (x : String) : s.plain.isLoaded x = s.isLoaded x := by
  simp only [isLoaded, get?_plain]
  cases s.get? x <;> rfl

@[simp] theorem hasReplica_plain (s : Store) (x : String) :
    s.plain.hasReplica x = s.hasReplica x := by
  simp only [hasReplica, get?_plain]
  cases s.get? x with
  | none => rfl
  | some e => simp

@[simp] theorem handle?_plain (s : Store) (x : String) : s.plain.handle? x = s.handle? x := by
  simp only [handle?, get?_plain]
  cases s.get? x with
  | none => rfl
  | some e => simp

@[simp] theorem parseRef_plain (s : Store) : s.plain.parseRef = s.parseRef := by
  funext x
  simp only [parseRef, get?_plain]
  cases s.get? x with
  | none => rfl
  | some e =>
    simp only [Option.map_some, Entry.kind_plain, Entry.replica_plain]
    cases e.kind with
    | none => rfl
    | some kind => cases e.replica <;> rfl

@[simp] theorem check_plain (s : Store) (batch : Batch) (token : Json) :
    s.plain.check batch token = s.check batch token := by
  cases token <;> simp [check]

@[simp] theorem checkAll_plain (s : Store) (batch : Batch) (tokens : List Json) :
    s.plain.checkAll batch tokens = s.checkAll batch tokens := by
  induction tokens with
  | nil => rfl
  | cons token rest ih => simp only [checkAll, check_plain, ih]

@[simp] theorem validate_plain (s : Store) (batch : Batch) :
    s.plain.validate batch = s.validate batch := s.checkAll_plain batch _

@[simp] theorem checkKinds_plain (s : Store) (listed : List (String × Kind)) :
    s.plain.checkKinds listed = s.checkKinds listed := by
  induction listed with
  | nil => rfl
  | cons first rest ih =>
    obtain ⟨rid, kind⟩ := first
    simp only [checkKinds, get?_plain, ih]
    cases s.get? rid <;> rfl

theorem refs_plain (s : Store) : s.plain.refs = s.refs := by
  funext x
  simp only [refs, get?_plain]
  cases s.get? x with
  | none => rfl
  | some e => simp

theorem linked_plain (s : Store) (x : String) : s.plain.linked x = s.linked x := by
  refine Dict.total_eq fun k => ?_
  change (s.plain.get? k).map _ = (s.get? k).map _
  rw [get?_plain, Option.map_map]
  refine congrArg (fun f => (s.get? k).map f) (funext fun e => ?_)
  exact congrArg (List.count x) e.links_plain

theorem idle_plain (s : Store) : s.plain.Idle = s.Idle := by
  funext x
  unfold Idle
  rw [get?_plain]
  cases s.get? x with
  | none => simp
  | some e => simp

theorem suspect_plain (s : Store) (x : String) : s.plain.Suspect x = s.Suspect x := by
  unfold Suspect
  rw [refs_plain, idle_plain]

theorem rescued_plain (s : Store) (rid x : String) :
    s.plain.Rescued rid x ↔ s.Rescued rid x := by
  have hkeys : s.plain.entries.keys = s.entries.keys := Dict.keys_map _ _
  have hsuspects : s.plain.suspects rid = s.suspects rid := by
    unfold suspects
    rw [hkeys]
    exact List.filter_congr fun y _ => by rw [decide_eq_decide, suspect_plain]
  unfold Rescued
  rw [hsuspects, refs_plain, suspect_plain]
  refine exists_congr fun y => ?_
  rw [get?_plain]
  cases s.get? y with
  | none => simp
  | some e => simp

@[simp] theorem doomed_plain (s : Store) (x : String) : s.plain.doomed x = s.doomed x :=
  eq_of_sorted (sorted_doomed _ _) (sorted_doomed _ _) fun y => by
    rw [mem_doomed, mem_doomed, suspect_plain, rescued_plain]

theorem plain_put (s : Store) (x : String) (e : Entry) :
    (s.put x e).plain = s.plain.put x e.plain := by
  unfold plain put
  dsimp only
  rw [Dict.map_insert]

theorem plain_modify {f g : Entry → Entry} (hcomm : ∀ e, (f e).plain = g e.plain) (s : Store)
    (x : String) : (s.modify x f).plain = s.plain.modify x g := by
  unfold plain modify
  dsimp only
  rw [Dict.map_modify hcomm]

theorem plain_rewrite (s : Store) (x : String) (r : Replica) :
    (s.rewrite x r).plain = s.plain.rewrite x r.plain :=
  plain_modify (f := fun e => { e with replica := some r }) (fun _ => rfl) s x

theorem plain_remove (s : Store) (x : String) : (s.remove x).plain = s.plain.remove x := by
  unfold plain remove
  dsimp only
  rw [Dict.map_erase, List.map_append]
  congr 2
  change _ = ((s.plain.get? x).bind _).toList
  rw [get?_plain]
  cases s.get? x with
  | none => rfl
  | some e => cases hr : e.replica <;> simp [hr]

theorem plain_ensure (s : Store) (x : String) : (s.ensure x).plain = s.plain.ensure x := by
  unfold ensure
  cases he : s.get? x with
  | some e =>
    have he' : s.plain.get? x = some e.plain := by rw [get?_plain, he, Option.map_some]
    rw [obtain_of_get? he, obtain_of_get? he']
  | none =>
    have he' : s.plain.get? x = none := by rw [get?_plain, he, Option.map_none]
    rw [obtain_of_none he, obtain_of_none he', plain_put]
    rfl

end Store

end LiveResource
