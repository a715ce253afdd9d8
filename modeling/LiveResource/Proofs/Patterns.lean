import LiveResource.Pattern
import Mathlib.Data.List.Basic

set_option autoImplicit false

/-!
# What a pattern map finds

A pattern is a list of tokens: texts that stand for themselves, `*` for any one token, and a last
`>` for one or more. Among the patterns that match the same resource id one comes first, token by
token from the left: a text before `*`, and `*` before `>`. The search through the tree goes back
whenever a better branch fails further down; what it ends with is the value of that first pattern.

A tree is looked at through `PatternTree.at?`, the value that stands under a pattern. A refused
pattern leaves branches behind in the tree, but no value under any pattern.
-/

namespace LiveResource

namespace Text

theorem splitDots_ne_nil (cs : List Char) : splitDots cs ≠ [] := by
  cases cs with
  | nil => simp [splitDots]
  | cons c cs =>
    simp only [splitDots]
    split
    · simp
    · split <;> simp

theorem intercalate_splitDots (cs : List Char) : ['.'].intercalate (splitDots cs) = cs := by
  induction cs with
  | nil => rfl
  | cons c cs ih =>
    have hne := splitDots_ne_nil cs
    simp only [splitDots]
    cases hsplit : splitDots cs with
    | nil => exact absurd hsplit hne
    | cons token tokens =>
      rw [hsplit] at ih
      by_cases hc : c = '.'
      · rw [if_pos hc, hc]
        simpa [List.intercalate] using ih
      · rw [if_neg hc]
        cases tokens with
        | nil => simpa [List.intercalate] using ih
        | cons next tokens => simpa [List.intercalate] using ih

theorem tokens_injective : Function.Injective tokens := by
  intro s s' h
  have hsplit : splitDots s.toList = splitDots s'.toList :=
    List.map_injective_iff.mpr (fun _ _ => String.ofList_injective) h
  have hlist : s.toList = s'.toList := by
    rw [← intercalate_splitDots s.toList, hsplit, intercalate_splitDots]
  exact String.toList_injective hlist

end Text

inductive PatternToken
  | exact (text : String)
  | any
  | rest
deriving DecidableEq, Repr

namespace PatternToken

def of (token : String) : PatternToken :=
  if token = "*" then any else if token = ">" then rest else exact token

theorem of_injective : Function.Injective of := by
  intro s s' h
  simp only [of] at h
  grind

def parse (pattern : String) : List PatternToken := (Text.tokens pattern).map of

theorem parse_injective : Function.Injective parse :=
  (List.map_injective_iff.mpr of_injective).comp Text.tokens_injective

/-- Some token is empty, or a `>` is not the last one. -/
def Malformed (tokens : List String) : Prop := "" ∈ tokens ∨ ">" ∈ tokens.dropLast

instance (tokens : List String) : Decidable (Malformed tokens) :=
  inferInstanceAs (Decidable (_ ∨ _))

/-- A text matches itself, `*` any one token, and a last `>` one or more. -/
inductive Matches : List PatternToken → List String → Prop
  | nil : Matches [] []
  | exact (text : String) {ps : List PatternToken} {ts : List String} :
    Matches ps ts → Matches (.exact text :: ps) (text :: ts)
  | any (text : String) {ps : List PatternToken} {ts : List String} :
    Matches ps ts → Matches (.any :: ps) (text :: ts)
  | rest (text : String) (ts : List String) : Matches [.rest] (text :: ts)

theorem matches_nil_iff {ps : List PatternToken} : Matches ps [] ↔ ps = [] := by
  constructor
  · intro h
    cases h
    rfl
  · rintro rfl
    exact .nil

theorem matches_cons_iff {ps : List PatternToken} {text : String} {ts : List String} :
    Matches ps (text :: ts) ↔ (∃ qs, ps = exact text :: qs ∧ Matches qs ts) ∨
      (∃ qs, ps = any :: qs ∧ Matches qs ts) ∨ ps = [rest] := by
  constructor
  · intro h
    cases h with
    | exact _ h => exact .inl ⟨_, rfl, h⟩
    | any _ h => exact .inr (.inl ⟨_, rfl, h⟩)
    | rest => exact .inr (.inr rfl)
  · rintro (⟨qs, rfl, h⟩ | ⟨qs, rfl, h⟩ | rfl)
    · exact .exact text h
    · exact .any text h
    · exact .rest text ts

def rank : PatternToken → Nat
  | exact _ => 0
  | any => 1
  | rest => 2

/-- A pattern goes before another one by the first token at which they differ in kind. -/
def Before (ps qs : List PatternToken) : Prop := ps.map rank < qs.map rank

theorem before_of_rank {p q : PatternToken} (h : p.rank < q.rank) (ps qs : List PatternToken) :
    Before (p :: ps) (q :: qs) := by
  simp [Before, List.cons_lt_cons_iff, h]

theorem Before.cons {ps qs : List PatternToken} (h : Before ps qs) (p : PatternToken) :
    Before (p :: ps) (p :: qs) := by
  simpa [Before, List.cons_lt_cons_iff] using h

theorem Before.asymm {ps qs : List PatternToken} (h : Before ps qs) : ¬ Before qs ps :=
  List.lt_asymm h

end PatternToken

open PatternToken

namespace PatternTree

variable {α : Type}

def at? (t : PatternTree α) : List PatternToken → Option α
  | [] => t.value?
  | .exact text :: ps => (t.branch text).at? ps
  | .any :: ps => t.any.at? ps
  | [.rest] => t.rest?
  | .rest :: _ :: _ => none

theorem at?_empty (ps : List PatternToken) : (empty : PatternTree α).at? ps = none := by
  induction ps with
  | nil => rfl
  | cons p ps ih =>
    cases p with
    | exact text => exact ih
    | any => exact ih
    | rest => cases ps <;> rfl

theorem at?_setValue (t : PatternTree α) (value : α) (ps : List PatternToken) :
    (t.setValue value).at? ps = if [] = ps then some value else t.at? ps := by
  cases ps with
  | nil => rfl
  | cons p ps =>
    cases p with
    | exact text => rfl
    | any => rfl
    | rest => cases ps <;> rfl

theorem at?_setRest (t : PatternTree α) (value : α) (ps : List PatternToken) :
    (t.setRest value).at? ps = if [.rest] = ps then some value else t.at? ps := by
  cases ps with
  | nil => rfl
  | cons p ps =>
    cases p with
    | exact text => rfl
    | any => rfl
    | rest => cases ps <;> rfl

theorem at?_setAny (t child : PatternTree α) (ps : List PatternToken) :
    (t.setAny child).at? ps = match ps with
      | .any :: qs => child.at? qs
      | _ => t.at? ps := by
  cases ps with
  | nil => rfl
  | cons p ps =>
    cases p with
    | exact text => rfl
    | any => rfl
    | rest => cases ps <;> rfl

theorem branch_setBranch (t child : PatternTree α) (token text : String) :
    (t.setBranch token child).branch text = if token = text then child else t.branch text := by
  simp only [branch, setBranch, PatternTree.exact, Dict.lookup_place]
  split <;> rfl

theorem at?_setBranch (t child : PatternTree α) (token : String) (ps : List PatternToken) :
    (t.setBranch token child).at? ps = match ps with
      | .exact text :: qs => if token = text then child.at? qs else t.at? ps
      | _ => t.at? ps := by
  cases ps with
  | nil => rfl
  | cons p ps =>
    cases p with
    | exact text =>
      simp only [at?, branch_setBranch]
      split <;> rfl
    | any => rfl
    | rest => cases ps <;> rfl

theorem insert_rest (t : PatternTree α) (value : α) (tokens : List String) :
    t.insert value (">" :: tokens) =
      if tokens.isEmpty then
        if t.rest?.isSome then (.error .conflict, t) else (.ok (), t.setRest value)
      else (.error .malformed, t) := rfl

theorem insert_any (t : PatternTree α) (value : α) (tokens : List String) :
    t.insert value ("*" :: tokens) =
      ((t.any.insert value tokens).1, t.setAny (t.any.insert value tokens).2) := rfl

theorem insert_exact {token : String} (hempty : token ≠ "") (hrest : token ≠ ">")
    (hany : token ≠ "*") (t : PatternTree α) (value : α) (tokens : List String) :
    t.insert value (token :: tokens) = (((t.branch token).insert value tokens).1,
      t.setBranch token ((t.branch token).insert value tokens).2) := by
  simp [insert, hempty, hrest, hany]

/-- Whether a registration succeeds: the tokens are well-formed and nothing stands there yet. -/
theorem insert_outcome (t : PatternTree α) (value : α) (tokens : List String) :
    (t.insert value tokens).1 =
      if Malformed tokens then .error .malformed
      else if (t.at? (tokens.map of)).isSome then .error .conflict
      else .ok () := by
  induction tokens generalizing t with
  | nil =>
    simp only [insert, List.map_nil, at?]
    split <;> simp_all [Malformed]
  | cons token tokens ih =>
    by_cases hempty : token = ""
    · simp [hempty, insert, Malformed]
    by_cases hrest : token = ">"
    · subst hrest
      rw [insert_rest]
      cases tokens with
      | nil =>
        simp only [List.isEmpty_nil, if_true]
        split <;> simp_all [Malformed, of, at?]
      | cons next tokens => simp [Malformed]
    have hmalformed : Malformed (token :: tokens) ↔ Malformed tokens := by
      cases tokens <;> simp [Malformed, Ne.symm hempty, Ne.symm hrest]
    simp only [hmalformed]
    by_cases hany : token = "*"
    · subst hany
      exact ih t.any
    · rw [insert_exact hempty hrest hany]
      simpa [of, hany, hrest, at?] using ih (t.branch token)

/-- Under any other pattern everything stands as it did, whatever becomes of a registration. -/
theorem at?_insert_of_ne (t : PatternTree α) (value : α) {tokens : List String}
    {ps : List PatternToken} (hne : tokens.map of ≠ ps) :
    (t.insert value tokens).2.at? ps = t.at? ps := by
  induction tokens generalizing t ps with
  | nil =>
    simp only [insert]
    split
    · rfl
    · rw [at?_setValue]
      exact if_neg hne
  | cons token tokens ih =>
    by_cases hempty : token = ""
    · simp [hempty, insert]
    by_cases hrest : token = ">"
    · subst hrest
      rw [insert_rest]
      split
      · rename_i hnil
        obtain rfl : tokens = [] := by simpa using hnil
        split
        · rfl
        · rw [at?_setRest]
          exact if_neg hne
      · rfl
    by_cases hany : token = "*"
    · subst hany
      rw [insert_any, at?_setAny]
      split
      · exact ih t.any fun h => hne (congrArg (PatternToken.any :: ·) h)
      · rfl
    · rw [insert_exact hempty hrest hany, at?_setBranch]
      split
      · split
        · rename_i htext
          subst htext
          exact ih (t.branch token) fun h => hne (by simp [of, hany, hrest, h])
        · rfl
      · rfl

/-- Under its own pattern the value stands afterwards if the registration succeeds; a refused one
    leaves there what stood there. -/
theorem at?_insert_self (t : PatternTree α) (value : α) (tokens : List String) :
    ((t.insert value tokens).1 = .ok () →
      (t.insert value tokens).2.at? (tokens.map of) = some value) ∧
    ∀ refusal, (t.insert value tokens).1 = .error refusal →
      (t.insert value tokens).2.at? (tokens.map of) = t.at? (tokens.map of) := by
  induction tokens generalizing t with
  | nil =>
    simp only [insert]
    split <;> simp [at?_setValue]
  | cons token tokens ih =>
    by_cases hempty : token = ""
    · simp [hempty, insert]
    by_cases hrest : token = ">"
    · subst hrest
      rw [insert_rest]
      split
      · rename_i hnil
        obtain rfl : tokens = [] := by simpa using hnil
        split <;> simp [at?_setRest, of]
      · simp
    by_cases hany : token = "*"
    · subst hany
      exact ih t.any
    · have hof : of token = .exact token := by simp [of, hany, hrest]
      rw [insert_exact hempty hrest hany, List.map_cons, hof]
      simpa [at?, branch_setBranch] using ih (t.branch token)

theorem at?_insert_of_ok {t : PatternTree α} {value : α} {tokens : List String}
    (h : (t.insert value tokens).1 = .ok ()) (ps : List PatternToken) :
    (t.insert value tokens).2.at? ps = if tokens.map of = ps then some value else t.at? ps := by
  split
  · rename_i heq
    rw [← heq, (at?_insert_self t value tokens).1 h]
  · rename_i hne
    exact at?_insert_of_ne t value hne

theorem at?_insert_of_error {t : PatternTree α} {value : α} {tokens : List String}
    {refusal : Refusal} (h : (t.insert value tokens).1 = .error refusal)
    (ps : List PatternToken) : (t.insert value tokens).2.at? ps = t.at? ps := by
  by_cases heq : tokens.map of = ps
  · rw [← heq, (at?_insert_self t value tokens).2 refusal h]
  · exact at?_insert_of_ne t value heq

theorem find?_nil (t : PatternTree α) : t.find? [] = t.value? := by cases t <;> rfl

theorem find?_cons (t : PatternTree α) (text : String) (ts : List String) :
    t.find? (text :: ts) = ((t.branch text).find? ts <|> t.any.find? ts <|> t.rest?) := by
  cases t with
  | node => rfl
  | empty =>
    have hnone : (empty : PatternTree α).find? ts = none := by cases ts <;> rfl
    simp [find?, branch, any, rest?, PatternTree.exact, Dict.lookup, hnone]

/-- Nothing is found exactly if nothing stands under any pattern that matches. -/
theorem find?_eq_none_iff {t : PatternTree α} {ts : List String} :
    t.find? ts = none ↔ ∀ ps, Matches ps ts → t.at? ps = none := by
  induction ts generalizing t with
  | nil => simp [find?_nil, matches_nil_iff, at?]
  | cons text ts ih =>
    simp only [find?_cons, Option.orElse_eq_orElse, Option.orElse_eq_or, Option.or_eq_none_iff, ih, matches_cons_iff]
    constructor
    · rintro ⟨hexact, hany, hrest⟩ ps (⟨qs, rfl, h⟩ | ⟨qs, rfl, h⟩ | rfl)
      · exact hexact qs h
      · exact hany qs h
      · exact hrest
    · intro h
      exact ⟨fun ps hps => h _ (.inl ⟨ps, rfl, hps⟩), fun ps hps => h _ (.inr (.inl ⟨ps, rfl, hps⟩)),
        h _ (.inr (.inr rfl))⟩

/-- A pattern with a value that matches and goes before every other one. -/
def Best (t : PatternTree α) (ts : List String) (ps : List PatternToken) (value : α) : Prop :=
  t.at? ps = some value ∧ Matches ps ts ∧
    ∀ qs, t.at? qs ≠ none → Matches qs ts → ps = qs ∨ Before ps qs

theorem Best.unique {t : PatternTree α} {ts : List String} {ps qs : List PatternToken}
    {value other : α} (h : t.Best ts ps value) (h' : t.Best ts qs other) : value = other := by
  have heq : ps = qs := by
    rcases h.2.2 qs (by simp [h'.1]) h'.2.1 with heq | hbefore
    · exact heq
    · rcases h'.2.2 ps (by simp [h.1]) h.2.1 with heq | hafter
      · exact heq.symm
      · exact absurd hafter hbefore.asymm
  subst heq
  exact Option.some.inj (h.1.symm.trans h'.1)

/-- The search ends with the best pattern: at each token the branches are tried in the order in
    which their patterns come, and a later one only if nothing in an earlier one matches. -/
theorem exists_best_of_find? {t : PatternTree α} {ts : List String} {value : α}
    (h : t.find? ts = some value) : ∃ ps, t.Best ts ps value := by
  induction ts generalizing t with
  | nil =>
    refine ⟨[], by rw [← h, find?_nil, at?], .nil, fun qs _ hqs => .inl ?_⟩
    exact (matches_nil_iff.mp hqs).symm
  | cons text ts ih =>
    rw [find?_cons] at h
    cases hexact : (t.branch text).find? ts with
    | some found =>
      obtain rfl : found = value := by simpa [hexact] using h
      obtain ⟨ps, hat, hps, hbest⟩ := ih hexact
      refine ⟨.exact text :: ps, hat, .exact text hps, fun qs hne hqs => ?_⟩
      rcases matches_cons_iff.mp hqs with ⟨qs, rfl, hqs'⟩ | ⟨qs, rfl, hqs'⟩ | rfl
      · exact (hbest qs hne hqs').imp (congrArg _) fun hbefore => hbefore.cons _
      · exact .inr (before_of_rank (by simp [rank]) ps qs)
      · exact .inr (before_of_rank (by simp [rank]) ps [])
    | none =>
      have hbranch := find?_eq_none_iff.mp hexact
      cases hany : t.any.find? ts with
      | some found =>
        obtain rfl : found = value := by simpa [hexact, hany] using h
        obtain ⟨ps, hat, hps, hbest⟩ := ih hany
        refine ⟨.any :: ps, hat, .any text hps, fun qs hne hqs => ?_⟩
        rcases matches_cons_iff.mp hqs with ⟨qs, rfl, hqs'⟩ | ⟨qs, rfl, hqs'⟩ | rfl
        · exact absurd (hbranch qs hqs') hne
        · exact (hbest qs hne hqs').imp (congrArg _) fun hbefore => hbefore.cons _
        · exact .inr (before_of_rank (by simp [rank]) ps [])
      | none =>
        have hstar := find?_eq_none_iff.mp hany
        have hrest : t.rest? = some value := by simpa [hexact, hany] using h
        refine ⟨[.rest], hrest, .rest text ts, fun qs hne hqs => ?_⟩
        rcases matches_cons_iff.mp hqs with ⟨qs, rfl, hqs'⟩ | ⟨qs, rfl, hqs'⟩ | rfl
        · exact absurd (hbranch qs hqs') hne
        · exact absurd (hstar qs hqs') hne
        · exact .inl rfl

theorem find?_eq_some_iff {t : PatternTree α} {ts : List String} {value : α} :
    t.find? ts = some value ↔ ∃ ps, t.Best ts ps value := by
  refine ⟨exists_best_of_find?, fun ⟨ps, hbest⟩ => ?_⟩
  cases hfind : t.find? ts with
  | none =>
    have hnone := find?_eq_none_iff.mp hfind ps hbest.2.1
    simp [hbest.1] at hnone
  | some found =>
    obtain ⟨qs, hfound⟩ := exists_best_of_find? hfind
    rw [hfound.unique hbest]

end PatternTree

namespace PatternMap

variable {α : Type}

/-- The map after a sequence of registrations, each made whatever became of those before it. -/
def insertAll (m : PatternMap α) (adds : List (String × α)) : PatternMap α :=
  adds.foldl (fun m add => (m.insert add.1 add.2).2) m

def accepted (m : PatternMap α) : List (String × α) → List (String × α)
  | [] => []
  | add :: adds =>
    match m.insert add.1 add.2 with
    | (.ok (), grown) => add :: grown.accepted adds
    | (.error _, left) => left.accepted adds

@[simp] theorem insert_tree (m : PatternMap α) (pattern : String) (value : α) :
    (m.insert pattern value).2.tree = (m.tree.insert value (Text.tokens pattern)).2 := by
  unfold insert
  split <;> simp_all

theorem insert_size (m : PatternMap α) (pattern : String) (value : α) :
    (m.insert pattern value).2.size =
      if (m.insert pattern value).1 = .ok () then m.size + 1 else m.size := by
  unfold insert
  split <;> simp

theorem insert_ok_iff {m : PatternMap α} {pattern : String} {value : α} :
    (m.insert pattern value).1 = .ok () ↔
      (m.tree.insert value (Text.tokens pattern)).1 = .ok () := by
  unfold insert
  split <;> simp_all

theorem insert_outcome (m : PatternMap α) (pattern : String) (value : α) :
    (m.insert pattern value).1 =
      if Malformed (Text.tokens pattern) then .error (.malformed pattern)
      else if (m.tree.at? (parse pattern)).isSome then .error (.conflict pattern)
      else .ok () := by
  have houtcome := PatternTree.insert_outcome m.tree value (Text.tokens pattern)
  unfold insert
  split <;> rename_i heq <;> rw [heq] at houtcome <;> simp only [parse] <;> grind

/-- What stands in the tree are the accepted registrations, each under its pattern. -/
structure Lists (m : PatternMap α) (taken : List (String × α)) : Prop where
  size : m.size = taken.length
  stands : ∀ ps value, m.tree.at? ps = some value ↔
    ∃ pattern, (pattern, value) ∈ taken ∧ parse pattern = ps

theorem lists_empty : (empty : PatternMap α).Lists [] where
  size := rfl
  stands ps value := by simp [empty, PatternTree.at?_empty]

section

variable {m : PatternMap α} {taken : List (String × α)} {pattern : String} {value : α}

theorem Lists.isSome_at?_iff (h : m.Lists taken) :
    (m.tree.at? (parse pattern)).isSome ↔ pattern ∈ taken.map (·.1) := by
  rw [Option.isSome_iff_exists, List.mem_map]
  constructor
  · rintro ⟨v, hv⟩
    obtain ⟨p, hp, heq⟩ := (h.stands _ v).mp hv
    exact ⟨(p, v), hp, parse_injective heq⟩
  · rintro ⟨⟨p, v⟩, hp, rfl⟩
    exact ⟨v, (h.stands _ v).mpr ⟨p, hp, rfl⟩⟩

theorem Lists.outcome (h : m.Lists taken) (pattern : String) (value : α) :
    (m.insert pattern value).1 =
      if Malformed (Text.tokens pattern) then .error (.malformed pattern)
      else if pattern ∈ taken.map (·.1) then .error (.conflict pattern)
      else .ok () := by
  simp only [insert_outcome, h.isSome_at?_iff]

theorem Lists.insert_of_ok (h : m.Lists taken) (hok : (m.insert pattern value).1 = .ok ()) :
    (m.insert pattern value).2.Lists (taken ++ [(pattern, value)]) where
  size := by simp [insert_size, hok, h.size]
  stands ps v := by
    have hnew : pattern ∉ taken.map (·.1) := by
      intro hmem
      rw [h.outcome, if_pos hmem] at hok
      split at hok <;> cases hok
    rw [insert_tree, PatternTree.at?_insert_of_ok (insert_ok_iff.mp hok)]
    split
    · rename_i heq
      subst heq
      constructor
      · rintro ⟨⟩
        exact ⟨pattern, by simp, rfl⟩
      · rintro ⟨p, hp, heq⟩
        obtain rfl := parse_injective heq
        rcases List.mem_append.mp hp with hp | hp
        · exact absurd (List.mem_map_of_mem hp) hnew
        · simp_all
    · rename_i hne
      rw [h.stands]
      constructor
      · rintro ⟨p, hp, heq⟩
        exact ⟨p, List.mem_append_left _ hp, heq⟩
      · rintro ⟨p, hp, heq⟩
        rcases List.mem_append.mp hp with hp | hp
        · exact ⟨p, hp, heq⟩
        · obtain ⟨rfl, rfl⟩ : p = pattern ∧ v = value := by simpa using hp
          exact absurd heq hne

theorem Lists.insert_of_error (h : m.Lists taken) {e : PatternError}
    (herror : (m.insert pattern value).1 = .error e) :
    (m.insert pattern value).2.Lists taken where
  size := by simp [insert_size, herror, h.size]
  stands ps v := by
    cases hrefusal : (m.tree.insert value (Text.tokens pattern)).1 with
    | ok => simp [insert_ok_iff.mpr hrefusal] at herror
    | error refusal =>
      rw [insert_tree, PatternTree.at?_insert_of_error hrefusal]
      exact h.stands ps v

theorem Lists.insertAll (h : m.Lists taken) (adds : List (String × α)) :
    (m.insertAll adds).Lists (taken ++ m.accepted adds) := by
  induction adds generalizing m taken with
  | nil => simpa [PatternMap.insertAll, accepted] using h
  | cons add adds ih =>
    have hstep : m.insertAll (add :: adds) = (m.insert add.1 add.2).2.insertAll adds := rfl
    rw [hstep, accepted]
    split
    · rename_i grown heq
      have hgrown := ih (h.insert_of_ok (congrArg Prod.fst heq))
      simpa [heq] using hgrown
    · rename_i left heq
      have hleft := ih (h.insert_of_error (congrArg Prod.fst heq))
      simpa [heq] using hleft

/-- A well-formed pattern stands in the tree once it has been registered: by the first
    registration, since only that can succeed. -/
theorem Lists.mem_accepted_iff (h : m.Lists taken) (hwell : ¬ Malformed (Text.tokens pattern))
    (adds : List (String × α)) : pattern ∈ (taken ++ m.accepted adds).map (·.1) ↔
      pattern ∈ taken.map (·.1) ∨ pattern ∈ adds.map (·.1) := by
  induction adds generalizing m taken with
  | nil => simp [accepted]
  | cons add adds ih =>
    rw [accepted]
    split
    · rename_i grown heq
      have hgrown := ih (h.insert_of_ok (congrArg Prod.fst heq))
      simp_all
      grind
    · rename_i e left heq
      have hleft := ih (h.insert_of_error (congrArg Prod.fst heq))
      have houtcome := h.outcome add.1 add.2
      have hagain : pattern = add.1 → pattern ∈ taken.map (·.1) := by
        rintro rfl
        rw [heq, if_neg hwell] at houtcome
        by_contra hmem
        rw [if_neg hmem] at houtcome
        cases houtcome
      rw [heq] at hleft
      rw [hleft, List.map_cons, List.mem_cons]
      grind

end

def subject (rid : String) : List String := Text.tokens (Text.withoutQuery rid)

theorem Lists.get?_eq_none_iff {m : PatternMap α} {taken : List (String × α)} (h : m.Lists taken)
    (rid : String) :
    m.get? rid = none ↔ ∀ add ∈ taken, ¬ Matches (parse add.1) (subject rid) := by
  simp only [get?, PatternTree.find?_eq_none_iff]
  constructor
  · intro hnone add hadd hmatch
    have hstands := (h.stands (parse add.1) add.2).mpr ⟨add.1, hadd, rfl⟩
    simp [hnone _ hmatch] at hstands
  · intro hnone ps hps
    by_contra hne
    obtain ⟨v, hv⟩ := Option.ne_none_iff_exists'.mp hne
    obtain ⟨p, hp, rfl⟩ := (h.stands ps v).mp hv
    exact hnone (p, v) hp hps

theorem Lists.get?_eq_some_iff {m : PatternMap α} {taken : List (String × α)} (h : m.Lists taken)
    (rid : String) (value : α) : m.get? rid = some value ↔
      ∃ pattern, (pattern, value) ∈ taken ∧ Matches (parse pattern) (subject rid) ∧
        ∀ add ∈ taken, Matches (parse add.1) (subject rid) →
          add.1 = pattern ∨ Before (parse pattern) (parse add.1) := by
  simp only [get?, PatternTree.find?_eq_some_iff, PatternTree.Best, h.stands]
  constructor
  · rintro ⟨ps, ⟨p, hp, rfl⟩, hmatch, hbest⟩
    refine ⟨p, hp, hmatch, fun add hadd hadd' => ?_⟩
    have hne : m.tree.at? (parse add.1) ≠ none := by
      rw [(h.stands _ add.2).mpr ⟨add.1, hadd, rfl⟩]
      simp
    exact (hbest _ hne hadd').imp_left fun heq => (parse_injective heq).symm
  · rintro ⟨p, hp, hmatch, hbest⟩
    refine ⟨parse p, ⟨p, hp, rfl⟩, hmatch, fun qs hne hqs => ?_⟩
    obtain ⟨v, hv⟩ := Option.ne_none_iff_exists'.mp hne
    obtain ⟨q, hq, rfl⟩ := (h.stands qs v).mp hv
    exact (hbest (q, v) hq hqs).imp_left fun heq => congrArg parse heq.symm

/-- What `add` answers is the outcome of the registration, with the map after it. -/
theorem add_eq (m : PatternMap α) (pattern : String) (value : α) :
    m.add pattern value = (m.insert pattern value).1.map fun _ => (m.insert pattern value).2 := by
  unfold add
  split <;> simp_all [Except.map]

/-- After any sequence of registrations: a further one is malformed exactly if a token is empty or a
    `>` is not last, else in conflict exactly if its pattern was registered before, and else it
    succeeds; the size is the number of those that succeeded; a look-up finds the value of the best
    accepted pattern that matches, and nothing exactly if none does; and one that is refused, even
    after it has made branches, changes neither the size nor any look-up. -/
theorem get?_is_best_accepted (adds : List (String × α)) :
    let m : PatternMap α := empty.insertAll adds
    let taken := (empty : PatternMap α).accepted adds
    (∀ pattern value, (m.insert pattern value).1 =
      if Malformed (Text.tokens pattern) then .error (.malformed pattern)
      else if pattern ∈ adds.map (·.1) then .error (.conflict pattern)
      else .ok ()) ∧
    m.size = taken.length ∧
    (∀ rid, m.get? rid = none ↔ ∀ add ∈ taken, ¬ Matches (parse add.1) (subject rid)) ∧
    (∀ rid value, m.get? rid = some value ↔
      ∃ pattern, (pattern, value) ∈ taken ∧ Matches (parse pattern) (subject rid) ∧
        ∀ add ∈ taken, Matches (parse add.1) (subject rid) →
          add.1 = pattern ∨ Before (parse pattern) (parse add.1)) ∧
    ∀ pattern value e, (m.insert pattern value).1 = .error e →
      (m.insert pattern value).2.size = m.size ∧
      ∀ rid, (m.insert pattern value).2.get? rid = m.get? rid := by
  intro m taken
  have hlists : m.Lists taken := by simpa using lists_empty.insertAll adds
  refine ⟨fun pattern value => ?_, hlists.size, hlists.get?_eq_none_iff, hlists.get?_eq_some_iff,
    fun pattern value e herror => ?_⟩
  · rw [hlists.outcome]
    split
    · rfl
    · rename_i hwell
      have hmem := lists_empty.mem_accepted_iff hwell adds
      simp only [List.nil_append, List.map_nil, List.not_mem_nil, false_or] at hmem
      simp only [taken, hmem]
  · have hleft := hlists.insert_of_error herror
    refine ⟨hleft.size.trans hlists.size.symm, fun rid => Option.ext fun v => ?_⟩
    rw [hleft.get?_eq_some_iff, hlists.get?_eq_some_iff]

/-- Three patterns, and one that is refused at its fourth token. -/
theorem get?_after_refused :
    let m := (empty : PatternMap Nat).insertAll [("a.b.c", 0), ("a.*.c", 1), ("a.>", 2)]
    (m.insert "a.b.d..e" 3).1 = .error (.malformed "a.b.d..e") ∧
    ((m.insert "a.b.d..e" 3).2.size = m.size ∧
      ∀ rid, (m.insert "a.b.d..e" 3).2.get? rid = m.get? rid) := by
  intro m
  have hrefused : (m.insert "a.b.d..e" 3).1 = .error (.malformed "a.b.d..e") := by decide
  have hbest := get?_is_best_accepted [("a.b.c", 0), ("a.*.c", 1), ("a.>", 2)]
  exact ⟨hrefused, hbest.2.2.2.2 "a.b.d..e" 3 _ hrefused⟩

example :
    let m := (empty : PatternMap Nat).insertAll [("a.b.c", 0), ("a.*.c", 1), ("a.>", 2)]
    m.get? "a.b.c?limit=10" = some 0 ∧ m.get? "a.x.c" = some 1 ∧ m.get? "a.b" = some 2 ∧
      m.get? "a" = none := by decide

end PatternMap

end LiveResource
