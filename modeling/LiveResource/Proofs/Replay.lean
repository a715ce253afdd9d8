import LiveResource.Proofs.Operations

set_option autoImplicit false

/-!
# Replaying events

What a snapshot and the events after it amount to can be read off the wire, without a store. A store
comes to the same contents, up to the normal form: what it has read of a token, and written for an
event, is equal to what the token and the event say.
-/

namespace LiveResource

namespace Value

def ofToken? : Json → Option Value
  | .null => some null
  | .bool b => some (bool b)
  | .num n => some (number n)
  | .str t => some (string t)
  | .arr _ => none
  | .obj members =>
    match Dict.lookup "rid" members with
    | some target =>
      target.str?.map fun rid => if Store.isSoft members then soft rid else hard ⟨rid, .model, 0⟩
    | none =>
      match Dict.lookup "data" members with
      | some j => some (data j)
      | none => if Store.isDeletion members then some delete else none

def ofStored? (token : Json) : Option Value := (ofToken? token).filter (!·.isDelete)

def ofEntries? (read : Json → Option Value) (entries : List (String × Json)) :
    Option (List (String × Value)) :=
  entries.mapM fun e => (read e.2).map fun v => (e.1, v)

end Value

def Batch.content? (batch : Batch) (rid : String) : Option Content :=
  match batch.models.get? rid, batch.collections.get? rid with
  | some tokens, _ =>
    (Value.ofEntries? Value.ofStored? tokens.entries).map fun vs => .model (Dict.ofList vs)
  | none, some tokens => (tokens.mapM Value.ofStored?).map .collection
  | none, none => none

namespace Store

variable {s : Store} {token : Json} {v : Value}

theorem normal_parseRef {rid : String} (h : s.parseRef rid = .ok v) :
    v.normal = .hard ⟨rid, .model, 0⟩ := by
  unfold parseRef at h
  split at h
  · cases h
  · split at h
    · cases h
      rfl
    · cases h

theorem ofToken?_of_parse (h : s.parse token = .ok v) :
    ∃ u, Value.ofToken? token = some u ∧ u.normal = v.normal := by
  cases token with
  | null => cases h; exact ⟨_, rfl, rfl⟩
  | bool b => cases h; exact ⟨_, rfl, rfl⟩
  | num n => cases h; exact ⟨_, rfl, rfl⟩
  | str t => cases h; exact ⟨_, rfl, rfl⟩
  | arr items => cases h
  | obj members =>
    cases hrid : Dict.lookup "rid" members with
    | some target =>
      cases hstr : target.str? with
      | none =>
        simp only [parse, hrid, hstr] at h
        cases h
      | some rid =>
        simp only [parse, hrid, hstr] at h
        simp only [Value.ofToken?, hrid, hstr, Option.map_some]
        cases hsoft : isSoft members with
        | true =>
          rw [hsoft, if_pos rfl] at h
          cases h
          exact ⟨_, rfl, rfl⟩
        | false =>
          rw [hsoft, if_neg (by simp)] at h
          exact ⟨_, rfl, (normal_parseRef h).symm⟩
    | none =>
      cases hdata : Dict.lookup "data" members with
      | some data =>
        simp only [parse, hrid, hdata] at h
        cases h
        exact ⟨.data data, by simp only [Value.ofToken?, hrid, hdata], rfl⟩
      | none =>
        simp only [parse, hrid, hdata] at h
        split at h
        · rename_i hdeletion
          cases h
          exact ⟨.delete, by simp only [Value.ofToken?, hrid, hdata, hdeletion, if_true], rfl⟩
        · cases h

theorem ofStored?_of_parseStored (h : s.parseStored token = .ok v) :
    ∃ u, Value.ofStored? token = some u ∧ u.normal = v.normal := by
  obtain ⟨u, hu, hnormal⟩ := ofToken?_of_parse (parse_of_parseStored h)
  have hkept : u.isDelete = false := by
    rw [← Value.isDelete_normal, hnormal, Value.isDelete_normal]
    exact Value.isDelete_of_ne (parseStored_ne_delete h)
  exact ⟨u, by rw [Value.ofStored?, hu, Option.filter_some, hkept]; rfl, hnormal⟩

theorem ofEntries?_of_parseEach {read : Json → Except CacheError Value}
    {read' : Json → Option Value} (hread : ∀ token v, read token = .ok v →
      ∃ u, read' token = some u ∧ u.normal = v.normal) {entries : List (String × Json)}
    {vs : List (String × Value)} (h : parseEach read entries = .ok vs) :
    ∃ us, Value.ofEntries? read' entries = some us ∧
      us.map (fun e => (e.1, e.2.normal)) = vs.map fun e => (e.1, e.2.normal) := by
  induction entries generalizing vs with
  | nil =>
    cases h
    exact ⟨[], rfl, rfl⟩
  | cons e rest ih =>
    obtain ⟨key, token⟩ := e
    obtain ⟨v, others, hv, hvs, rfl⟩ := parseEach_cons_ok h
    obtain ⟨u, hu, hnormal⟩ := hread token v hv
    obtain ⟨us, hus, hnormals⟩ := ih hvs
    unfold Value.ofEntries? at hus ⊢
    refine ⟨(key, u) :: us, ?_, ?_⟩
    · rw [List.mapM_cons, hus, hu]
      rfl
    · rw [List.map_cons, List.map_cons, hnormal, hnormals]

theorem ofStored?_of_parseValues {tokens : List Json} {vs : List Value}
    (h : s.parseValues tokens = .ok vs) :
    ∃ us, tokens.mapM Value.ofStored? = some us ∧ us.map Value.normal = vs.map Value.normal := by
  induction tokens generalizing vs with
  | nil =>
    cases h
    exact ⟨[], rfl, rfl⟩
  | cons token rest ih =>
    obtain ⟨v, others, hv, hvs, rfl⟩ := parseValues_cons_ok h
    obtain ⟨u, hu, hnormal⟩ := ofStored?_of_parseStored hv
    obtain ⟨us, hus, hnormals⟩ := ih hvs
    refine ⟨u :: us, ?_, ?_⟩
    · rw [List.mapM_cons, hus, hu]
      rfl
    · rw [List.map_cons, List.map_cons, hnormal, hnormals]

end Store

namespace Dict

variable {α β : Type}

theorem map_ofList (f : α → β) (l : List (String × α)) :
    (ofList l).map f = ofList (l.map fun e => (e.1, f e.2)) := by
  have hfold (l : List (String × α)) (d : Dict α) :
      (l.foldl (fun d e => d.insert e.1 e.2) d).map f =
        (l.map fun e => (e.1, f e.2)).foldl (fun d e => d.insert e.1 e.2) (d.map f) := by
    induction l generalizing d with
    | nil => rfl
    | cons e rest ih => rw [List.foldl_cons, ih, map_insert, List.map_cons, List.foldl_cons]
  exact hfold l empty

end Dict

theorem normal_ofList {us vs : List (String × Value)}
    (h : us.map (fun e => (e.1, e.2.normal)) = vs.map fun e => (e.1, e.2.normal)) :
    (Dict.ofList us).map Value.normal = (Dict.ofList vs).map Value.normal := by
  rw [Dict.map_ofList, Dict.map_ofList, h]

theorem Store.content?_of_snapshot {s : Store} {batch : Batch} {rid : String} {kind : Kind}
    {content : Content} (hdisjoint : batch.Disjoint) (hlists : batch.Lists rid kind)
    (hkind : kind ≠ .error) (h : s.snapshot batch rid kind = .ok content) :
    ∃ snapshot, batch.content? rid = some snapshot := by
  unfold Batch.content?
  cases kind with
  | model =>
    obtain ⟨tokens, htokens⟩ := Dict.contains_iff.mp hlists
    obtain ⟨vs, hvs, _⟩ := snapshot_model h
    rw [htokens, Option.getD_some] at hvs
    obtain ⟨us, hus, _⟩ := ofEntries?_of_parseEach (fun _ _ => ofStored?_of_parseStored) hvs
    exact ⟨.model (Dict.ofList us), by rw [htokens]; simp only [hus, Option.map_some]⟩
  | collection =>
    obtain ⟨tokens, htokens⟩ := Dict.contains_iff.mp hlists
    have hmodel : batch.models.get? rid = none := by
      refine Option.eq_none_iff_forall_ne_some.mpr fun fields hfields => ?_
      cases hdisjoint rid .model .collection (Dict.contains_iff.mpr ⟨fields, hfields⟩) hlists
    obtain ⟨vs, hvs, _⟩ := snapshot_collection h
    rw [htokens, Option.getD_some] at hvs
    obtain ⟨us, hus, _⟩ := ofStored?_of_parseValues hvs
    exact ⟨.collection us, by rw [hmodel, htokens]; simp only [hus, Option.map_some]⟩
  | error => exact absurd rfl hkind

/-- What a store reads of a snapshot is what the batch has. -/
theorem Store.normal_snapshot {s : Store} {batch : Batch} {rid : String} {kind : Kind}
    {content snapshot : Content} (hdisjoint : batch.Disjoint) (hlists : batch.Lists rid kind)
    (hsnapshot : batch.content? rid = some snapshot)
    (h : s.snapshot batch rid kind = .ok content) : content.normal = snapshot.normal := by
  unfold Batch.content? at hsnapshot
  cases hmodel : batch.models.get? rid with
  | some tokens =>
    have hkind : kind = .model :=
      hdisjoint rid kind .model hlists (Dict.contains_iff.mpr ⟨tokens, hmodel⟩)
    subst hkind
    rw [hmodel] at hsnapshot
    obtain ⟨vs, hvs, rfl, _⟩ := snapshot_model h
    rw [hmodel, Option.getD_some] at hvs
    obtain ⟨us, hus, hnormal⟩ :=
      ofEntries?_of_parseEach (fun _ _ => ofStored?_of_parseStored) hvs
    change (Value.ofEntries? Value.ofStored? tokens.entries).map _ = some snapshot at hsnapshot
    rw [hus] at hsnapshot
    cases hsnapshot
    exact congrArg Content.model (normal_ofList hnormal).symm
  | none =>
    rw [hmodel] at hsnapshot
    cases hcollection : batch.collections.get? rid with
    | some tokens =>
      have hkind : kind = .collection :=
        hdisjoint rid kind .collection hlists (Dict.contains_iff.mpr ⟨tokens, hcollection⟩)
      subst hkind
      rw [hcollection] at hsnapshot
      obtain ⟨vs, hvs, rfl⟩ := snapshot_collection h
      rw [hcollection, Option.getD_some] at hvs
      obtain ⟨us, hus, hnormal⟩ := ofStored?_of_parseValues hvs
      change (tokens.mapM Value.ofStored?).map _ = some snapshot at hsnapshot
      rw [hus] at hsnapshot
      cases hsnapshot
      exact congrArg Content.collection hnormal.symm
    | none =>
      rw [hcollection] at hsnapshot
      cases hsnapshot

def patched (fields changes : Fields) : Fields :=
  changes.entries.foldl
    (fun fields e => if e.2.isDelete then fields.erase e.1 else fields.insert e.1 e.2) fields

theorem get?_patched (fields changes : Fields) (k : String) : (patched fields changes).get? k =
    match changes.get? k with
    | some v => if v.isDelete then none else some v
    | none => fields.get? k := by
  obtain ⟨entries, hsorted⟩ := changes
  change (entries.foldl _ fields).get? k = match Dict.lookup k entries with
    | some v => if v.isDelete then none else some v
    | none => fields.get? k
  induction entries generalizing fields with
  | nil => rfl
  | cons e rest ih =>
    obtain ⟨key, v⟩ := e
    rw [List.pairwise_cons] at hsorted
    rw [List.foldl_cons, ih _ hsorted.2]
    by_cases hk : key = k
    · subst hk
      rw [Dict.lookup_eq_none_of_lt hsorted.1]
      cases hdelete : v.isDelete <;>
        simp [Dict.lookup, hdelete, Dict.get?_erase, Dict.get?_insert]
    · cases hdelete : v.isDelete <;>
        simp [Dict.lookup, hk, Dict.get?_erase, Dict.get?_insert]

namespace Content

/-- The contents after an event, if it is a valid one. Only changes concern a model, and only values
that are added or removed a collection. -/
def after? (content : Content) (name : String) (data : Option Json) : Option Content :=
  let members := Op.membersOf data
  match content with
  | model fields =>
    if name = "change" then
      ((Dict.lookup "values" members).bind Json.members?).bind fun tokens =>
        (Value.ofEntries? Value.ofToken? tokens).map fun changes =>
          model (patched fields (Dict.ofList changes))
    else some (model fields)
  | collection values =>
    if name = "add" then
      ((Dict.lookup "idx" members).bind Json.natural?).bind fun index =>
        ((Dict.lookup "value" members).bind Value.ofStored?).bind fun value =>
          if index ≤ values.length then some (collection (values.insertIdx index value)) else none
    else if name = "remove" then
      ((Dict.lookup "idx" members).bind Json.natural?).bind fun index =>
        if index < values.length then some (collection (values.eraseIdx index)) else none
    else some (collection values)
  | error fault => some (error fault)

/-- The contents after some events, if all of them are valid. -/
def replay? (content : Content) : List IncomingEvent → Option Content
  | [] => some content
  | event :: rest => (content.after? event.name event.data).bind (·.replay? rest)

theorem replay?_append (content : Content) (events later : List IncomingEvent) :
    content.replay? (events ++ later) = (content.replay? events).bind (·.replay? later) := by
  induction events generalizing content with
  | nil => rfl
  | cons first rest ih =>
    rw [List.cons_append, replay?, replay?, Option.bind_assoc]
    congr 1
    funext content'
    exact ih content'

def Follows (name : String) (data : Option Json) (content content' : Content) : Prop :=
  ∀ p : Content, p.normal = content.normal →
    ∃ p', p.after? name data = some p' ∧ p'.normal = content'.normal

variable {data : Option Json} {name : String}

theorem exists_of_normal_model {p : Content} {fields : Fields}
    (h : p.normal = (model fields).normal) :
    ∃ fields', p = model fields' ∧ fields'.map Value.normal = fields.map Value.normal := by
  cases p with
  | model fields' =>
    unfold normal at h
    injection h with heq
    exact ⟨fields', rfl, heq⟩
  | _ => cases h

theorem exists_of_normal_collection {p : Content} {values : List Value}
    (h : p.normal = (collection values).normal) :
    ∃ values', p = collection values' ∧ values'.map Value.normal = values.map Value.normal := by
  cases p with
  | collection values' =>
    unfold normal at h
    injection h with heq
    exact ⟨values', rfl, heq⟩
  | _ => cases h

theorem normal_overwritten {old : Option Value} {u v : Value} (hclean : old ≠ some .delete)
    (h : u.normal = v.normal) : (Change.overwritten old v).map Value.normal =
      (if u.isDelete then none else some u).map Value.normal := by
  have hdelete : u.isDelete = v.isDelete := by
    rw [← Value.isDelete_normal, h, Value.isDelete_normal]
  rw [hdelete]
  unfold Change.overwritten
  cases hsame : (old.getD .delete == v) with
  | false =>
    rw [if_neg (by simp)]
    cases v.isDelete with
    | true => rfl
    | false => exact congrArg some h.symm
  | true =>
    rw [if_pos rfl]
    cases old with
    | none =>
      have hv : v = .delete := by
        by_contra hne
        rw [Option.getD_none, Value.delete_beq hne] at hsame
        cases hsame
      rw [hv]
      rfl
    | some w =>
      rw [Option.getD_some] at hsame
      have hv : v ≠ .delete := by
        rintro rfl
        rw [Value.beq_delete fun heq => hclean (congrArg some heq)] at hsame
        cases hsame
      rw [Value.isDelete_of_ne hv]
      exact congrArg some (((Value.beq_iff_normal w v).mp hsame).trans h.symm)

theorem follows_change {s : Store} {tokens : List (String × Json)} {fields changes : Fields}
    (htokens : (Dict.lookup "values" (Op.membersOf data)).bind Json.members? = some tokens)
    (hchanges : s.parseChanges tokens = .ok changes) (hclean : (model fields).Clean) :
    Follows "change" data (model fields)
      (model (Change.writeAll fields .none changes.entries).1) := by
  intro p hp
  obtain ⟨fields', rfl, hfields⟩ := exists_of_normal_model hp
  unfold Store.parseChanges at hchanges
  cases hvs : Store.parseEach s.parse tokens with
  | error err =>
    rw [hvs] at hchanges
    cases hchanges
  | ok vs =>
    rw [hvs] at hchanges
    cases hchanges
    obtain ⟨us, hus, hnormals⟩ :=
      Store.ofEntries?_of_parseEach (fun _ _ => Store.ofToken?_of_parse) hvs
    have hafter : (model fields').after? "change" data =
        some (model (patched fields' (Dict.ofList us))) := by
      simp only [after?, if_true, htokens, Option.bind_some]
      rw [hus]
      rfl
    refine ⟨_, hafter, congrArg model (Dict.ext_get? fun k => ?_)⟩
    have hread := congrArg (Dict.get? · k) (normal_ofList hnormals)
    have hkey := congrArg (Dict.get? · k) hfields
    have hlookup : Dict.lookup k (Dict.ofList vs).entries = (Dict.ofList vs).get? k := rfl
    simp only [Dict.get?_map] at hread hkey
    rw [Dict.get?_map, Dict.get?_map, get?_patched, Change.get?_writeAll (Dict.ofList vs).sorted,
      hlookup]
    cases hv : (Dict.ofList vs).get? k with
    | none =>
      rw [hv, Option.map_none, Option.map_eq_none_iff] at hread
      rw [hread]
      exact hkey
    | some v =>
      rw [hv, Option.map_some] at hread
      obtain ⟨u, hu, hnormal⟩ := Option.map_eq_some_iff.mp hread
      rw [hu]
      exact (normal_overwritten (hclean k) hnormal).symm

theorem follows_add {s : Store} {token : Json} {value : Value} {values : List Value} {index : Nat}
    (hindex : (Dict.lookup "idx" (Op.membersOf data)).bind Json.natural? = some index)
    (htoken : Dict.lookup "value" (Op.membersOf data) = some token)
    (hvalue : s.parseStored token = .ok value) (hrange : index ≤ values.length) :
    Follows "add" data (collection values) (collection (values.insertIdx index value)) := by
  intro p hp
  obtain ⟨values', rfl, hvalues⟩ := exists_of_normal_collection hp
  obtain ⟨u, hu, hnormal⟩ := Store.ofStored?_of_parseStored hvalue
  have hlength := congrArg List.length hvalues
  rw [List.length_map, List.length_map] at hlength
  have hafter : (collection values').after? "add" data =
      some (collection (values'.insertIdx index u)) := by
    simp only [after?, if_true, hindex, htoken, Option.bind_some, hu, hlength, hrange]
  refine ⟨_, hafter, congrArg collection ?_⟩
  rw [List.map_insertIdx, List.map_insertIdx, hvalues, hnormal]

theorem follows_remove {values : List Value} {index : Nat}
    (hindex : (Dict.lookup "idx" (Op.membersOf data)).bind Json.natural? = some index)
    (hrange : index < values.length) :
    Follows "remove" data (collection values) (collection (values.eraseIdx index)) := by
  intro p hp
  obtain ⟨values', rfl, hvalues⟩ := exists_of_normal_collection hp
  have hlength := congrArg List.length hvalues
  rw [List.length_map, List.length_map] at hlength
  have hname : ("remove" : String) ≠ "add" := by decide
  have hafter : (collection values').after? "remove" data =
      some (collection (values'.eraseIdx index)) := by
    simp only [after?, if_neg hname, if_true, hindex, Option.bind_some, hlength, hrange]
  refine ⟨_, hafter, congrArg collection ?_⟩
  rw [← List.eraseIdx_map, ← List.eraseIdx_map, hvalues]

theorem follows_self {content : Content}
    (hmodel : ∀ fields, content = model fields → name ≠ "change")
    (hcollection : ∀ values, content = collection values → name ≠ "add" ∧ name ≠ "remove") :
    Follows name data content content := by
  intro p hp
  refine ⟨p, ?_, hp⟩
  cases content with
  | model fields =>
    obtain ⟨fields', rfl, _⟩ := exists_of_normal_model hp
    simp only [after?, if_neg (hmodel fields rfl)]
  | collection values =>
    obtain ⟨values', rfl, _⟩ := exists_of_normal_collection hp
    obtain ⟨hadd, hremove⟩ := hcollection values rfl
    simp only [after?, if_neg hadd, if_neg hremove]
  | error fault =>
    cases p with
    | error fault' => rfl
    | _ => cases hp

end Content

end LiveResource
