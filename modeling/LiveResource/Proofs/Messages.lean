import LiveResource.Message
import LiveResource.Proofs.Dict

set_option autoImplicit false

/-!
# What inbound messages mean

A text is read as JSON first, and every object in what is read has its members in key order. Then
the members decide. `Fault.Denotes` says which values stand for a fault, the object form and the
array form, and `Fault.ofJson_eq_ok_iff` that decoding finds these and no others; so encoding a
fault is undone by decoding. The target of an event is cut at its last dot, which is the only cut
that leaves a name without dots.
-/

namespace LiveResource

namespace Json

inductive Ordered : Json → Prop
  | null : Ordered .null
  | bool (b : Bool) : Ordered (.bool b)
  | num (n : Number) : Ordered (.num n)
  | str (s : String) : Ordered (.str s)
  | arr {items : List Json} : (∀ j ∈ items, Ordered j) → Ordered (.arr items)
  | obj {members : List (String × Json)} : members.Pairwise (fun a b => a.1 < b.1) →
    (∀ m ∈ members, Ordered m.2) → Ordered (.obj members)

def Orderly (read : Reader Json) : Prop := ∀ cs j rest, read cs = some (j, rest) → j.Ordered

variable {read : Reader Json}

theorem numberLiteral?_ordered : Orderly numberLiteral? := by
  have hunsigned (negative : Bool) : Orderly (unsignedLiteral? negative) := by
    intro cs j rest h
    simp only [unsignedLiteral?, Option.bind_eq_bind, Option.bind_eq_some_iff] at h
    obtain ⟨_, _, _, _, _, _, n, _, h⟩ := h
    cases h
    exact .num n
  intro cs j rest h
  unfold numberLiteral? at h
  split at h
  · exact hunsigned true _ _ _ h
  · exact hunsigned false _ _ _ h

theorem scalar?_ordered : Orderly scalar? := by
  intro cs j rest h
  unfold scalar? at h
  split at h
  · cases h
    exact .null
  · cases h
    exact .bool true
  · cases h
    exact .bool false
  · obtain ⟨⟨s, cs⟩, _, h⟩ := Option.map_eq_some_iff.mp h
    cases h
    exact .str s
  · exact numberLiteral?_ordered _ _ _ h

theorem readItems?_ordered (hread : Orderly read) {fuel : Nat} {cs rest : List Char}
    {items : List Json} (h : readItems? read fuel cs = some (items, rest)) :
    ∀ j ∈ items, j.Ordered := by
  induction fuel generalizing cs items with
  | zero => cases h
  | succ fuel ih =>
    simp only [readItems?, Option.bind_eq_bind, Option.bind_eq_some_iff] at h
    obtain ⟨⟨item, cs'⟩, hitem, h⟩ := h
    have hordered := hread _ _ _ hitem
    split at h
    · obtain ⟨⟨others, cs''⟩, hothers, h⟩ := Option.bind_eq_some_iff.mp h
      cases h
      exact List.forall_mem_cons.mpr ⟨hordered, ih hothers⟩
    · cases h
      exact List.forall_mem_cons.mpr ⟨hordered, fun _ hj => nomatch hj⟩
    · cases h

theorem member?_ordered (hread : Orderly read) {cs rest : List Char} {m : String × Json}
    (h : member? read cs = some (m, rest)) : m.2.Ordered := by
  simp only [member?, Option.bind_eq_bind, Option.bind_eq_some_iff] at h
  obtain ⟨_, _, h⟩ := h
  split at h
  · obtain ⟨⟨value, cs'⟩, hvalue, h⟩ := Option.bind_eq_some_iff.mp h
    cases h
    exact hread _ _ _ hvalue
  · cases h

theorem readMembers?_ordered (hread : Orderly read) {fuel : Nat} {cs rest : List Char}
    {members : List (String × Json)} (h : readMembers? read fuel cs = some (members, rest)) :
    ∀ m ∈ members, m.2.Ordered := by
  induction fuel generalizing cs members with
  | zero => cases h
  | succ fuel ih =>
    simp only [readMembers?, Option.bind_eq_bind, Option.bind_eq_some_iff] at h
    obtain ⟨⟨m, cs'⟩, hm, h⟩ := h
    have hordered := member?_ordered hread hm
    split at h
    · obtain ⟨⟨others, cs''⟩, hothers, h⟩ := Option.bind_eq_some_iff.mp h
      cases h
      exact List.forall_mem_cons.mpr ⟨hordered, ih hothers⟩
    · cases h
      exact List.forall_mem_cons.mpr ⟨hordered, fun _ hm => nomatch hm⟩
    · cases h

theorem array?_ordered (hread : Orderly read) : Orderly (array? read) := by
  intro cs j rest h
  unfold array? at h
  split at h
  · cases h
    exact .arr fun _ hj => nomatch hj
  · obtain ⟨⟨items, cs'⟩, hitems, h⟩ := Option.map_eq_some_iff.mp h
    cases h
    exact .arr (readItems?_ordered hread hitems)

theorem object?_ordered (hread : Orderly read) : Orderly (object? read) := by
  intro cs j rest h
  unfold object? at h
  split at h
  · cases h
    exact .obj .nil fun _ hm => nomatch hm
  · obtain ⟨⟨members, cs'⟩, hmembers, h⟩ := Option.map_eq_some_iff.mp h
    cases h
    refine .obj (Dict.ofList members).sorted fun m hm => ?_
    exact readMembers?_ordered hread hmembers m
      (Dict.mem_of_get?_ofList (Dict.mem_entries_iff.mp hm))

theorem value?_ordered (depth : Nat) : Orderly (value? depth) := by
  induction depth with
  | zero => exact fun cs => scalar?_ordered (skipBlanks cs)
  | succ depth ih =>
    intro cs j rest h
    unfold value? at h
    split at h
    · exact array?_ordered ih _ _ _ h
    · exact object?_ordered ih _ _ _ h
    · exact scalar?_ordered _ _ _ h

theorem ordered_of_parse? {text : String} {j : Json} (h : parse? text = some j) : j.Ordered := by
  unfold parse? at h
  split at h
  · rename_i rest hvalue
    split at h
    · cases h
      exact value?_ordered maxDepth _ _ _ hvalue
    · cases h
  · cases h

end Json

namespace Fault

/-- The values that stand for a fault: an object with a code and a message, or an array of them.
The data may be left out, and null stands for that. -/
inductive Denotes : Json → Fault → Prop
  | object {members : List (String × Json)} {code message : String} :
    Dict.lookup "code" members = some (.str code) →
    Dict.lookup "message" members = some (.str message) →
    Denotes (.obj members) ⟨code, message, (Dict.lookup "data" members).bind present⟩
  | pair (code message : String) :
    Denotes (.arr [.str code, .str message]) ⟨code, message, none⟩
  | triple (code message : String) (data : Json) :
    Denotes (.arr [.str code, .str message, data]) ⟨code, message, present data⟩

def Partial.Takes (key : String) (members : List (String × Json)) (before after : Option String) :
    Prop :=
  match Dict.lookup key members with
  | none => after = before
  | some value => ∃ text, Decoded.string value = .ok text ∧ after = some text

theorem string_eq_ok_iff {j : Json} {s : String} : Decoded.string j = .ok s ↔ j = .str s := by
  cases j <;> simp [Decoded.string]

namespace Partial

variable {key other : String} {value : Json} {members : List (String × Json)}
  {before after : Option String}

theorem takes_of_none (h : Dict.lookup key members = none) :
    Takes key members before after ↔ after = before := by
  simp only [Takes, h]

theorem takes_cons_self : Takes key ((key, value) :: members) before after ↔
    ∃ text, Decoded.string value = .ok text ∧ after = some text := by
  simp only [Takes, Dict.lookup, if_true]

theorem takes_cons_of_ne (h : other ≠ key) :
    Takes key ((other, value) :: members) before after ↔ Takes key members before after := by
  simp only [Takes, Dict.lookup, h, if_false]

/-- With keys in order each member is the only one of its name, so the order in which the members
are taken does not matter. -/
theorem take_eq_ok_iff (h : members.Pairwise fun a b => a.1 < b.1) {p q : Partial} :
    take p members = .ok q ↔ Takes "code" members p.code q.code ∧
      Takes "message" members p.message q.message ∧
      q.data = match Dict.lookup "data" members with
        | none => p.data
        | some value => present value := by
  induction members generalizing p with
  | nil =>
    obtain ⟨code, message, data⟩ := p
    obtain ⟨code', message', data'⟩ := q
    simp [take, Takes, Dict.lookup, eq_comm]
  | cons m rest ih =>
    obtain ⟨key, value⟩ := m
    obtain ⟨hlt, hrest⟩ := List.pairwise_cons.mp h
    have hnone : Dict.lookup key rest = none := Dict.lookup_eq_none_of_lt hlt
    unfold take
    by_cases hcode : key = "code"
    · subst hcode
      cases hstring : Decoded.string value <;>
        simp [ih hrest, takes_of_none hnone, takes_cons_self, takes_cons_of_ne, Dict.lookup,
          hstring]
    · by_cases hmessage : key = "message"
      · subst hmessage
        cases hstring : Decoded.string value <;>
          simp [ih hrest, takes_of_none hnone, takes_cons_self, takes_cons_of_ne, Dict.lookup,
            hstring]
      · by_cases hdata : key = "data"
        · subst hdata
          simp [ih hrest, takes_cons_of_ne, Dict.lookup, hnone]
        · simp [ih hrest, takes_cons_of_ne, Dict.lookup, hcode, hmessage, hdata]

theorem takes_none_iff {text : String} :
    Takes key members none (some text) ↔ Dict.lookup key members = some (.str text) := by
  unfold Takes
  cases Dict.lookup key members with
  | none => simp
  | some value =>
    rw [Option.some_inj, ← string_eq_ok_iff]
    simp [eq_comm]

theorem complete_eq_ok_iff {p : Partial} {f : Fault} :
    p.complete = .ok f ↔ p = ⟨some f.code, some f.message, f.data⟩ := by
  obtain ⟨code, message, data⟩ := p
  obtain ⟨code', message', data'⟩ := f
  cases code <;> cases message <;> simp [complete]

end Partial

theorem ofJson_obj_eq_ok_iff {members : List (String × Json)} {f : Fault} :
    ofJson (.obj members) = .ok f ↔
      Partial.take ⟨none, none, none⟩ members = .ok ⟨some f.code, some f.message, f.data⟩ := by
  rw [ofJson]
  cases Partial.take ⟨none, none, none⟩ members with
  | error e => simp
  | ok p => simp [Partial.complete_eq_ok_iff]

theorem ofItems_eq_ok_iff {items : List Json} {f : Fault} :
    ofItems items = .ok f ↔ Denotes (.arr items) f := by
  constructor
  · intro h
    unfold ofItems at h
    split at h
    · cases h
    · split at h <;> cases h
    · rename_i code message rest
      cases hcode : Decoded.string code with
      | error e => simp [hcode] at h
      | ok code' =>
        cases hmessage : Decoded.string message with
        | error e => simp [hcode, hmessage] at h
        | ok message' =>
          rw [string_eq_ok_iff] at hcode hmessage
          subst hcode hmessage
          simp only [Decoded.string] at h
          split at h
          · cases h
            exact .pair _ _
          · cases h
            exact .triple _ _ _
          · cases h
  · intro h
    cases h <;> rfl

/-- Decoding finds the fault that a value denotes, and finds none in any other value. -/
theorem ofJson_eq_ok_iff {j : Json} (h : j.Ordered) {f : Fault} :
    ofJson j = .ok f ↔ Denotes j f := by
  cases h with
  | arr _ => exact ofItems_eq_ok_iff
  | @obj members hsorted _ =>
    rw [ofJson_obj_eq_ok_iff, Partial.take_eq_ok_iff hsorted, Partial.takes_none_iff,
      Partial.takes_none_iff]
    have hdata : (match Dict.lookup "data" members with
        | none => none
        | some value => present value) = (Dict.lookup "data" members).bind present := by
      cases Dict.lookup "data" members <;> rfl
    dsimp only
    rw [hdata]
    constructor
    · rintro ⟨hcode, hmessage, hf⟩
      obtain ⟨code, message, data⟩ := f
      cases hf
      exact .object hcode hmessage
    · intro hdenotes
      cases hdenotes with
      | object hcode hmessage => exact ⟨hcode, hmessage, rfl⟩
  | null | bool | num | str => constructor <;> intro h <;> cases h

/-- Encoding a fault is undone by decoding. Data that is null cannot be told from none. -/
theorem ofJson_toJson {f : Fault} (h : f.data ≠ some .null) : ofJson f.toJson = .ok f := by
  obtain ⟨code, message, data⟩ := f
  cases data with
  | none => rfl
  | some j =>
    have hpresent : present j = some j := by
      cases j <;> first | rfl | exact absurd rfl h
    simp [ofJson, toJson, Partial.take, Partial.complete, Decoded.string, hpresent]

end Fault

namespace Text

theorem splitLastDot_eq_none_iff {cs : List Char} : splitLastDot cs = none ↔ '.' ∉ cs := by
  induction cs with
  | nil => simp [splitLastDot]
  | cons c cs ih =>
    unfold splitLastDot
    split
    · rename_i before behind hcut
      have hmem : '.' ∈ cs := Decidable.byContradiction fun hno => by
        rw [ih.mpr hno] at hcut
        cases hcut
      simp [hmem]
    · rename_i hcut
      by_cases hc : c = '.' <;> simp [hc, ih.mp hcut, eq_comm]

/-- A text is cut at its last dot, and at no other one. -/
theorem splitLastDot_eq_some_iff {cs before behind : List Char} :
    splitLastDot cs = some (before, behind) ↔ cs = before ++ '.' :: behind ∧ '.' ∉ behind := by
  constructor
  · intro h
    induction cs generalizing before with
    | nil => cases h
    | cons c cs ih =>
      unfold splitLastDot at h
      split at h
      · rename_i hcut
        cases h
        obtain ⟨rfl, hlast⟩ := ih hcut
        exact ⟨rfl, hlast⟩
      · rename_i hcut
        split at h
        · rename_i hc
          cases h
          exact ⟨by rw [hc, List.nil_append], splitLastDot_eq_none_iff.mp hcut⟩
        · cases h
  · rintro ⟨rfl, hlast⟩
    induction before with
    | nil => simp [splitLastDot, splitLastDot_eq_none_iff.mpr hlast]
    | cons c before ih => simp [splitLastDot, ih]

end Text

namespace Message

variable {target rid name text : String} {members : List (String × Json)}

/-- The name of an event has no dot, and with its resource id in front it is the target again. -/
theorem eventName?_eq_some_iff : eventName? target = some (rid, name) ↔
    target = rid ++ "." ++ name ∧ rid ≠ "" ∧ name ≠ "" ∧ '.' ∉ name.toList := by
  constructor
  · intro h
    unfold eventName? at h
    split at h
    · cases h
    · rename_i before behind hcut
      obtain ⟨htarget, hlast⟩ := Text.splitLastDot_eq_some_iff.mp hcut
      split at h
      · cases h
      · rename_i hfull
        cases h
        simp only [Bool.or_eq_true, List.isEmpty_iff, not_or] at hfull
        refine ⟨String.toList_injective ?_, ?_, ?_, by simpa using hlast⟩
        · simp [htarget]
        · simpa using hfull.1
        · simpa using hfull.2
  · rintro ⟨rfl, hrid, hname, hlast⟩
    have hcut : Text.splitLastDot (rid.toList ++ '.' :: name.toList) =
        some (rid.toList, name.toList) := Text.splitLastDot_eq_some_iff.mpr ⟨rfl, hlast⟩
    simp [eventName?, hcut, hrid, hname]

theorem natural?_eq_some_iff {j : Json} {n : Nat} : j.natural? = some n ↔ j = .nat n := by
  cases j with
  | num number =>
    cases number with
    | int i =>
      simp only [Json.natural?, Number.natural?, Json.nat, Json.num.injEq, Number.int.injEq]
      split
      · rw [Option.some_inj]
        omega
      · constructor
        · intro h
          cases h
        · omega
    | float bits => simp [Json.natural?, Number.natural?, Json.nat]
  | _ => simp [Json.natural?, Json.nat]

inductive Means (members : List (String × Json)) : Message → Prop
  | result {id : Nat} : Dict.lookup "id" members = some (.nat id) →
    (∀ error, Dict.lookup "error" members = some error → error = .null) →
    Means members (.response id (.ok ((Dict.lookup "result" members).getD .null)))
  | fault {id : Nat} {error : Json} {f : Fault} : Dict.lookup "id" members = some (.nat id) →
    Dict.lookup "error" members = some error → error ≠ .null → Fault.Denotes error f →
    Means members (.response id (.error f))
  | noFault {id : Nat} {error : Json} {why : DecodeError} :
    Dict.lookup "id" members = some (.nat id) → Dict.lookup "error" members = some error →
    error ≠ .null → (∀ f, ¬ Fault.Denotes error f) → Fault.ofJson error = .error why →
    Means members (.invalidResponse id why)
  | event {rid name : String} : Dict.lookup "id" members = none →
    Dict.lookup "event" members = some (.str (rid ++ "." ++ name)) →
    rid ≠ "" → name ≠ "" → '.' ∉ name.toList →
    Means members (.event ⟨rid, name, Dict.lookup "data" members⟩)

theorem str?_eq_some_iff {j : Json} {s : String} : j.str? = some s ↔ j = .str s := by
  cases j <;> simp [Json.str?]

theorem present_eq_some_iff {j error : Json} :
    Fault.present j = some error ↔ j = error ∧ error ≠ .null := by
  cases j with
  | null => simp [Fault.present, eq_comm]
  | _ =>
    simp only [Fault.present, Option.some_inj]
    grind

theorem outcome?_cases (members : List (String × Json)) :
    ((∀ error, Dict.lookup "error" members = some error → error = .null) ∧
      outcome? members = .ok (.ok ((Dict.lookup "result" members).getD .null))) ∨
    ∃ error, Dict.lookup "error" members = some error ∧ error ≠ .null ∧
      ((∃ f, Fault.ofJson error = .ok f ∧ outcome? members = .ok (.error f)) ∨
        ∃ why, Fault.ofJson error = .error why ∧ outcome? members = .error why) := by
  unfold outcome?
  cases hfound : (Dict.lookup "error" members).bind Fault.present with
  | none =>
    refine .inl ⟨fun error herror => ?_, rfl⟩
    rw [herror, Option.bind_some] at hfound
    cases error <;> first | rfl | cases hfound
  | some error =>
    obtain ⟨error', herror, hpresent⟩ := Option.bind_eq_some_iff.mp hfound
    obtain ⟨rfl, hne⟩ := present_eq_some_iff.mp hpresent
    refine .inr ⟨error', herror, hne, ?_⟩
    dsimp only
    cases Fault.ofJson error' with
    | ok f => exact .inl ⟨f, rfl, rfl⟩
    | error why => exact .inr ⟨why, rfl, rfl⟩

theorem ordered_of_lookup (h : (Json.obj members).Ordered) {key : String} {value : Json}
    (hvalue : Dict.lookup key members = some value) : value.Ordered := by
  cases h with
  | obj hsorted hmembers => exact hmembers _ ((Dict.lookup_eq_some_iff hsorted).mp hvalue)

theorem means_of_ofJson (h : (Json.obj members).Ordered) {m : Message}
    (hok : ofJson (.obj members) = .ok m) : Means members m := by
  simp only [ofJson] at hok
  split at hok
  · rename_i id hid
    unfold response? at hok
    split at hok
    · cases hok
    · rename_i n hn
      rw [natural?_eq_some_iff.mp hn] at hid
      rcases outcome?_cases members with ⟨hnone, houtcome⟩ | ⟨error, herror, hne, hcases⟩
      · rw [houtcome] at hok
        cases hok
        exact .result hid hnone
      · have hdenotes := @Fault.ofJson_eq_ok_iff _ (ordered_of_lookup h herror)
        rcases hcases with ⟨f, hf, houtcome⟩ | ⟨why, hwhy, houtcome⟩
        · rw [houtcome] at hok
          cases hok
          exact .fault hid herror hne (hdenotes.mp hf)
        · rw [houtcome] at hok
          cases hok
          refine .noFault hid herror hne (fun f hf => ?_) hwhy
          rw [hdenotes.mpr hf] at hwhy
          cases hwhy
  · rename_i hid
    split at hok
    · rename_i event hevent
      unfold event? at hok
      split at hok
      · cases hok
      · rename_i target hstr
        obtain rfl := str?_eq_some_iff.mp hstr
        split at hok
        · cases hok
        · rename_i rid name hname
          cases hok
          obtain ⟨rfl, hrid, hname, hlast⟩ := eventName?_eq_some_iff.mp hname
          exact .event hid hevent hrid hname hlast
    · cases hok

theorem ofJson_of_means (h : (Json.obj members).Ordered) {m : Message} (hmeans : Means members m) :
    ofJson (.obj members) = .ok m := by
  have hnat (id : Nat) : (Json.nat id).natural? = some id := natural?_eq_some_iff.mpr rfl
  cases hmeans with
  | result hid hnone =>
    rcases outcome?_cases members with ⟨_, houtcome⟩ | ⟨error, herror, hne, _⟩
    · simp only [ofJson, hid, response?, hnat, houtcome]
    · exact absurd (hnone error herror) hne
  | @fault id error f hid herror hne hdenotes =>
    have hf := (Fault.ofJson_eq_ok_iff (ordered_of_lookup h herror)).mpr hdenotes
    have hpresent := present_eq_some_iff.mpr ⟨rfl, hne⟩
    simp only [ofJson, hid, response?, hnat, outcome?, herror, Option.bind_some, hpresent, hf]
  | noFault hid herror hne _ hwhy =>
    have hpresent := present_eq_some_iff.mpr ⟨rfl, hne⟩
    simp only [ofJson, hid, response?, hnat, outcome?, herror, Option.bind_some, hpresent, hwhy]
  | event hid hevent hrid hname hlast =>
    have hcut := eventName?_eq_some_iff.mpr ⟨rfl, hrid, hname, hlast⟩
    simp only [ofJson, hid, hevent, event?, Json.str?, hcut]

/-- A text decodes to what its members say, and to nothing else. -/
theorem decode_eq_ok_iff {m : Message} : decode text = .ok m ↔
    ∃ members, Json.parse? text = some (.obj members) ∧ Means members m := by
  unfold decode
  cases hparse : Json.parse? text with
  | none => simp
  | some j =>
    cases j with
    | obj members =>
      have hordered := Json.ordered_of_parse? hparse
      simp only [Option.some_inj, Json.obj.injEq, exists_eq_left']
      exact ⟨means_of_ofJson hordered, ofJson_of_means hordered⟩
    | _ => simp [ofJson]

/-- An inbound text decodes to what was meant and to nothing else. A result, the error object of a
fault, and a target with its data come back as they are, whatever else stands beside them. An event
is never found in an object with an id, and its resource id and name are the target again; and an
error that denotes no fault leaves the id of its request. -/
theorem decodes_as_meant (text : String) :
    (∀ members, Json.parse? text = some (.obj members) →
      (∀ id value, Dict.lookup "id" members = some (.nat id) →
        (∀ error, Dict.lookup "error" members = some error → error = .null) →
        Dict.lookup "result" members = some value →
        decode text = .ok (.response id (.ok value))) ∧
      (∀ id f, Dict.lookup "id" members = some (.nat id) → f.data ≠ some .null →
        Dict.lookup "error" members = some f.toJson →
        decode text = .ok (.response id (.error f))) ∧
      (∀ rid name, rid ≠ "" → name ≠ "" → '.' ∉ name.toList → Dict.lookup "id" members = none →
        Dict.lookup "event" members = some (.str (rid ++ "." ++ name)) →
        decode text = .ok (.event ⟨rid, name, Dict.lookup "data" members⟩)) ∧
      (∀ id error, Dict.lookup "id" members = some (.nat id) →
        Dict.lookup "error" members = some error → error ≠ .null →
        (∀ f, ¬ Fault.Denotes error f) → ∃ why, decode text = .ok (.invalidResponse id why))) ∧
    ∀ event, decode text = .ok (.event event) →
      event.rid ≠ "" ∧ event.name ≠ "" ∧ '.' ∉ event.name.toList ∧
      ∃ members, Json.parse? text = some (.obj members) ∧ Dict.lookup "id" members = none ∧
        Dict.lookup "event" members = some (.str (event.rid ++ "." ++ event.name)) ∧
        Dict.lookup "data" members = event.data := by
  refine ⟨fun members hparse => ⟨fun id value hid hnone hresult => ?_,
    fun id f hid hdata herror => ?_, fun rid name hrid hname hlast hid hevent => ?_,
    fun id error hid herror hne hnot => ?_⟩, fun event hok => ?_⟩
  · have hmeans := Means.result hid hnone
    rw [hresult, Option.getD_some] at hmeans
    exact decode_eq_ok_iff.mpr ⟨members, hparse, hmeans⟩
  · have hordered := ordered_of_lookup (Json.ordered_of_parse? hparse) herror
    have hdenotes := (Fault.ofJson_eq_ok_iff hordered).mp (Fault.ofJson_toJson hdata)
    have hne : f.toJson ≠ .null := by simp [Fault.toJson]
    exact decode_eq_ok_iff.mpr ⟨members, hparse, .fault hid herror hne hdenotes⟩
  · exact decode_eq_ok_iff.mpr ⟨members, hparse, .event hid hevent hrid hname hlast⟩
  · have hordered := ordered_of_lookup (Json.ordered_of_parse? hparse) herror
    cases hof : Fault.ofJson error with
    | ok f => exact absurd ((Fault.ofJson_eq_ok_iff hordered).mp hof) (hnot f)
    | error why =>
      exact ⟨why, decode_eq_ok_iff.mpr ⟨members, hparse, .noFault hid herror hne hnot hof⟩⟩
  · obtain ⟨members, hparse, hmeans⟩ := decode_eq_ok_iff.mp hok
    cases hmeans with
    | event hid hevent hrid hname hlast =>
      exact ⟨hrid, hname, hlast, members, hparse, hid, hevent, rfl⟩

def doneText : String := "\x7b\"id\":7,\"result\":[true]\x7d"

def refusedText : String :=
  "\x7b\"error\":\x7b\"message\":\"gone\",\"code\":\"system.notFound\"\x7d,\"id\":7\x7d"

def changedText : String := "\x7b\"event\":\"users.42.change\",\"data\":null\x7d"

def garbledText : String :=
  "\x7b\"id\":7,\"error\":\x7b\"code\":404,\"message\":\"gone\"\x7d\x7d"

set_option maxRecDepth 8192 in
theorem decodes_as_meant_texts :
    decode doneText = .ok (.response 7 (.ok (.arr [.bool true]))) ∧
    decode refusedText = .ok (.response 7 (.error (.make "system.notFound" "gone"))) ∧
    decode changedText = .ok (.event ⟨"users.42", "change", some .null⟩) ∧
    ∃ why, decode garbledText = .ok (.invalidResponse 7 why) := by
  have hdone : Json.parse? doneText =
      some (.obj [("id", .nat 7), ("result", .arr [.bool true])]) := rfl
  have hrefused : Json.parse? refusedText =
      some (.obj [("error", (Fault.make "system.notFound" "gone").toJson), ("id", .nat 7)]) :=
    rfl
  have hchanged : Json.parse? changedText =
      some (.obj [("data", .null), ("event", .str ("users.42" ++ "." ++ "change"))]) := rfl
  have hgarbled : Json.parse? garbledText =
      some (.obj [("error", .obj [("code", .nat 404), ("message", .str "gone")]),
        ("id", .nat 7)]) := rfl
  refine ⟨((decodes_as_meant doneText).1 _ hdone).1 7 _ rfl (fun _ h => nomatch h) rfl,
    ((decodes_as_meant refusedText).1 _ hrefused).2.1 7 _ rfl (by simp [Fault.make]) rfl,
    ((decodes_as_meant changedText).1 _ hchanged).2.2.1 "users.42" "change" (by simp) (by simp)
      (by decide) rfl rfl,
    ((decodes_as_meant garbledText).1 _ hgarbled).2.2.2 7 _ rfl rfl (by simp) fun f hf => ?_⟩
  cases hf with
  | object hcode _ => cases hcode

end Message

end LiveResource
