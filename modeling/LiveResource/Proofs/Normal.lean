import LiveResource.Proofs.Dict
import LiveResource.Replica

set_option autoImplicit false

/-!
# Normal forms

Equal values need not be the same: there are two zeros among the binary64 numbers, and a hard
reference notes the replica that its target had when it was read. The normal form of a value leaves
these differences out, so values are equal when their normal forms are the same.
-/

namespace LiveResource

theorem beq_list_iff_map {α β : Type} [BEq α] {f : α → β}
    (h : ∀ a b : α, (a == b) = true ↔ f a = f b) (as bs : List α) :
    (as == bs) = true ↔ as.map f = bs.map f := by
  induction as generalizing bs with
  | nil => cases bs <;> simp
  | cons a as ih =>
    cases bs with
    | nil => simp
    | cons b bs => rw [List.cons_beq_cons, Bool.and_eq_true, h, ih, List.map_cons, List.map_cons,
        List.cons_eq_cons]

namespace Dict

variable {α β : Type}

theorem beq_iff_map [BEq α] {f : α → β} (h : ∀ a b : α, (a == b) = true ↔ f a = f b)
    (a b : Dict α) : (a == b) = true ↔ a.map f = b.map f := by
  have hpair (e e' : String × α) : (e == e') = true ↔ (e.1, f e.2) = (e'.1, f e'.2) := by
    change (e.1 == e'.1 && e.2 == e'.2) = true ↔ _
    rw [Bool.and_eq_true, beq_iff_eq, h, Prod.mk.injEq]
  have hentries : (a == b) = true ↔ (a.map f).entries = (b.map f).entries :=
    beq_list_iff_map hpair a.entries b.entries
  rw [hentries]
  constructor
  · intro heq
    apply ext_get?
    intro k
    unfold get?
    rw [heq]
  · intro heq
    rw [heq]

theorem beq_of_get? [BEq α] {f : α → β} (h : ∀ a b : α, (a == b) = true ↔ f a = f b)
    {a b : Dict α} (hget : ∀ k, (a.get? k == b.get? k) = true) : (a == b) = true := by
  rw [beq_iff_map h]
  apply ext_get?
  intro k
  have hk := hget k
  rw [get?_map, get?_map]
  cases ha : a.get? k with
  | none =>
    cases hb : b.get? k with
    | none => rfl
    | some u =>
      rw [ha, hb] at hk
      cases hk
  | some v =>
    cases hb : b.get? k with
    | none =>
      rw [ha, hb] at hk
      cases hk
    | some u =>
      rw [ha, hb] at hk
      exact congrArg some ((h v u).mp hk)

theorem get?_beq_get? [BEq α] {f : α → β} (h : ∀ a b : α, (a == b) = true ↔ f a = f b)
    {a b : Dict α} (hab : (a == b) = true) (k : String) : (a.get? k == b.get? k) = true := by
  rw [beq_iff_map h] at hab
  have hk : (a.map f).get? k = (b.map f).get? k := by rw [hab]
  rw [get?_map, get?_map] at hk
  cases ha : a.get? k with
  | none =>
    cases hb : b.get? k with
    | none => rfl
    | some u => simp [ha, hb] at hk
  | some v =>
    cases hb : b.get? k with
    | none => simp [ha, hb] at hk
    | some u =>
      rw [ha, hb, Option.map_some, Option.map_some, Option.some.injEq] at hk
      exact (h v u).mpr hk

end Dict

namespace Number

def normal : Number → Number
  | int i => int i
  | float bits => float (if isZeroFloat bits then 0 else bits)

theorem beq_iff_normal (a b : Number) : (a == b) = true ↔ a.normal = b.normal := by
  change a.same b = true ↔ _
  cases a with
  | int i => cases b <;> simp [same, normal]
  | float x =>
    cases b with
    | int j => simp [same, normal]
    | float y =>
      have hzero : isZeroFloat 0 = true := rfl
      simp only [same, normal, float.injEq, Bool.or_eq_true, Bool.and_eq_true, decide_eq_true_eq]
      cases hx : isZeroFloat x <;> cases hy : isZeroFloat y
      · simp
      · have hne : x ≠ 0 := fun heq => by
          rw [heq, hzero] at hx
          cases hx
        have hne' : x ≠ y := fun heq => by
          rw [heq, hy] at hx
          cases hx
        simp [hne, hne']
      · have hne : y ≠ 0 := fun heq => by
          rw [heq, hzero] at hy
          cases hy
        have hne' : x ≠ y := fun heq => by
          rw [← heq, hx] at hy
          cases hy
        simp [Ne.symm hne, hne']
      · simp

end Number

namespace Json

mutual

def normal : Json → Json
  | null => null
  | bool b => bool b
  | num n => num n.normal
  | str s => str s
  | arr items => arr (normalItems items)
  | obj members => obj (normalMembers members)

def normalItems : List Json → List Json
  | [] => []
  | j :: items => normal j :: normalItems items

def normalMembers : List (String × Json) → List (String × Json)
  | [] => []
  | (key, j) :: members => (key, normal j) :: normalMembers members

end

mutual

theorem same_iff_normal : ∀ a b : Json, a.same b = true ↔ a.normal = b.normal
  | .null, b => by cases b <;> simp [same, normal]
  | .bool x, b => by cases b <;> simp [same, normal]
  | .num m, b => by cases b <;> simp [same, normal, Number.beq_iff_normal]
  | .str s, b => by cases b <;> simp [same, normal]
  | .arr items, b => by
    cases b with
    | arr items' => simp [same, normal, sameItems_iff_normal items items']
    | _ => simp [same, normal]
  | .obj members, b => by
    cases b with
    | obj members' => simp [same, normal, sameMembers_iff_normal members members']
    | _ => simp [same, normal]

theorem sameItems_iff_normal : ∀ as bs : List Json,
    sameItems as bs = true ↔ normalItems as = normalItems bs
  | [], bs => by cases bs <;> simp [sameItems, normalItems]
  | a :: as, bs => by
    cases bs with
    | nil => simp [sameItems, normalItems]
    | cons b bs => simp [sameItems, normalItems, same_iff_normal a b, sameItems_iff_normal as bs]

theorem sameMembers_iff_normal : ∀ as bs : List (String × Json),
    sameMembers as bs = true ↔ normalMembers as = normalMembers bs
  | [], bs => by cases bs <;> simp [sameMembers, normalMembers]
  | (key, a) :: as, bs => by
    cases bs with
    | nil => simp [sameMembers, normalMembers]
    | cons e bs =>
      obtain ⟨key', b⟩ := e
      simp [sameMembers, normalMembers, same_iff_normal a b, sameMembers_iff_normal as bs,
        and_assoc]

end

theorem beq_iff_normal (a b : Json) : (a == b) = true ↔ a.normal = b.normal := same_iff_normal a b

end Json

def Fault.normal (fault : Fault) : Fault := { fault with data := fault.data.map Json.normal }

theorem Fault.beq_iff_normal (a b : Fault) : (a == b) = true ↔ a.normal = b.normal := by
  obtain ⟨code, message, data⟩ := a
  obtain ⟨code', message', data'⟩ := b
  change (code == code' && message == message' && data == data') = true ↔ _
  have hdata : (data == data') = true ↔ data.map Json.normal = data'.map Json.normal := by
    cases data <;> cases data' <;> simp [Json.beq_iff_normal]
  rw [Bool.and_eq_true, Bool.and_eq_true, hdata]
  simp [normal, and_assoc]

namespace Value

def normal : Value → Value
  | number n => number n.normal
  | hard ref => hard ⟨ref.rid, .model, 0⟩
  | data j => data j.normal
  | null => null
  | bool b => bool b
  | string s => string s
  | soft rid => soft rid
  | delete => delete

theorem beq_iff_normal (a b : Value) : (a == b) = true ↔ a.normal = b.normal := by
  change a.same b = true ↔ _
  cases a with
  | number m => cases b <;> simp [same, normal, Number.beq_iff_normal]
  | hard ref =>
    cases b with
    | hard ref' =>
      change (ref.rid == ref'.rid) = true ↔ _
      simp [normal]
    | _ => simp [same, normal]
  | data j => cases b <;> simp [same, normal, Json.beq_iff_normal]
  | _ => cases b <;> simp [same, normal]

theorem isDelete_normal (v : Value) : v.normal.isDelete = v.isDelete := by cases v <;> rfl

end Value

namespace Content

def normal : Content → Content
  | model fields => model (fields.map Value.normal)
  | collection values => collection (values.map Value.normal)
  | error fault => error fault.normal

theorem beq_iff_normal (a b : Content) : (a == b) = true ↔ a.normal = b.normal := by
  change a.same b = true ↔ _
  cases a with
  | model fields => cases b <;> simp [same, normal, Dict.beq_iff_map Value.beq_iff_normal]
  | collection values => cases b <;> simp [same, normal, beq_list_iff_map Value.beq_iff_normal]
  | error fault => cases b <;> simp [same, normal, Fault.beq_iff_normal]

end Content

end LiveResource
