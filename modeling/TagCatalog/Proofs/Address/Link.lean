import TagCatalog.Address.Link
import TagCatalog.Proofs.Text.Percent
import TagCatalog.Proofs.Text.Split

/-!
# Addresses in Links

An address that was put into a link is the address that the link carries.

The address is percent-coded a second time as a whole. Some of the marks of an
address stay as they are there, but none that means anything in a link: no
ampersand, so the parameter is not cut short, and no question mark, so it is
the one behind the page that begins the parameters.

What a link carries depends on its parameters alone, and among these on the
first one that is a `query` with an equals sign. `HasParameters` says what the
parameters of a text are without taking it apart, and
`carriedAddress?_eq_some_iff` and `carriedAddress?_eq_none_iff` say what is
carried, and when nothing is, for every text. The other parameters may be
anything, question marks and equals signs included. Links that were made here
are one case of it.

## Main definitions

* `HasParameters`: The parameters of a text.
* `IsQuery`: A parameter that is a `query` with an equals sign.
* `LeadsWith`: The first such parameter, by its value.

## Theorems

* `hasParameters_iff`: A text has one list of parameters.
* `findQuery_eq`: The parameter that the reader stops at.
* `carriedAddress?_eq_some_iff`, `carriedAddress?_eq_none_iff`: What a text
  carries, by its parameters.
* `carriedAddress?_joinWith`: An address among other parameters.
* `toList_deepLink`: The characters of a link.
* `carriedAddress?_deepLink`: A link carries the address it was made for.
* `linked_query_among_parameters`: The request of a link among other
  parameters, and the texts without one.
-/

namespace TagCatalog

open Text Percent

/-- The parameters of a text are what follows its first question mark, or all
    of it if it has none, taken apart at the ampersands. -/
structure HasParameters (link : List Char) (parameters : List (List Char)) : Prop where
  placed : ('?' ∉ link ∧ link = joinWith '&' parameters) ∨
    ∃ page, '?' ∉ page ∧ link = page ++ '?' :: joinWith '&' parameters
  ne_nil : parameters ≠ []
  not_mem : ∀ p ∈ parameters, '&' ∉ p

/-- A text has one list of parameters, the one that the reader looks through. -/
theorem hasParameters_iff (link : List Char) (parameters : List (List Char)) :
    HasParameters link parameters ↔
      parameters = splitOn '&' (((cut? '?' link).map Prod.snd).getD link) := by
  constructor
  · intro h
    have hsplit := splitOn_joinWith '&' parameters h.ne_nil h.not_mem
    -- Wherever the parameters stand, the cut leaves exactly their joined text.
    rcases h.placed with ⟨hnot, hlink⟩ | ⟨page, hnot, hlink⟩
    · rw [(cut?_eq_none_iff '?' link).mpr hnot, Option.map_none, Option.getD_none, hlink, hsplit]
    · rw [hlink, cut?_append '?' page _ hnot, Option.map_some, Option.getD_some, hsplit]
  · rintro rfl
    refine ⟨?_, splitOn_ne_nil _ _, fun p hp => not_mem_of_mem_splitOn '&' _ p hp⟩
    rw [joinWith_splitOn]
    cases hcut : cut? '?' link with
    | none => exact Or.inl ⟨(cut?_eq_none_iff '?' link).mp hcut, rfl⟩
    | some halves =>
      rcases (cut?_eq_some_iff '?' link halves.1 halves.2).mp hcut with ⟨hlink, hnot⟩
      exact Or.inr ⟨halves.1, hnot, hlink⟩

/-- A parameter is a `query` with an equals sign. -/
def IsQuery (parameter : List Char) : Prop :=
  "query=".toList <+: parameter

instance (parameter : List Char) : Decidable (IsQuery parameter) :=
  inferInstanceAs (Decidable ("query=".toList <+: parameter))

/-- The first `query` among some parameters has the given value. -/
def LeadsWith (parameters : List (List Char)) (value : List Char) : Prop :=
  ∃ before behind, parameters = before ++ ("query=".toList ++ value) :: behind ∧
    ∀ p ∈ before, ¬ IsQuery p

theorem stripStart?_eq_none_iff_not_isQuery (p : List Char) :
    stripStart? "query=".toList p = none ↔ ¬ IsQuery p := by
  rw [Option.eq_none_iff_forall_ne_some, IsQuery, List.IsPrefix, not_exists]
  exact forall_congr' fun value => not_congr (by rw [stripStart?_eq_some_iff, eq_comm])

/-- A parameter that is cut at its first equals sign has the name `query`
    exactly when it begins with that name and the sign. -/
theorem cut?_query (p value : List Char) :
    cut? '=' p = some ("query".toList, value) ↔ stripStart? "query=".toList p = some value := by
  rw [cut?_eq_some_iff, stripStart?_eq_some_iff]
  exact ⟨fun h => h.1, fun h => ⟨h, by decide⟩⟩

/-- The reader stops at the first `query` with an equals sign and passes over
    everything else, parameters without an equals sign included. -/
theorem findQuery_eq (parameters : List (List Char)) :
    (parameters.filterMap (cut? '=')).find? (fun f => decide (f.1 = "query".toList)) =
      (parameters.findSome? (stripStart? "query=".toList)).map
        fun value => ("query".toList, value) := by
  induction parameters with
  | nil => rfl
  | cons p ps ih =>
    cases hstrip : stripStart? "query=".toList p with
    | some value =>
      have hfirst : ∀ fs : List (List Char × List Char),
          (("query".toList, value) :: fs).find? (fun f => decide (f.1 = "query".toList)) =
            some ("query".toList, value) :=
        fun fs => List.find?_cons_of_pos (decide_eq_true rfl)
      rw [List.filterMap_cons_some ((cut?_query p value).mpr hstrip), hfirst, List.findSome?_cons,
        hstrip]
      rfl
    | none =>
      rw [List.findSome?_cons, hstrip, ← ih]
      cases hcut : cut? '=' p with
      | none => rw [List.filterMap_cons_none hcut]
      | some field =>
        -- The parameter has another name.
        have hname : field.1 ≠ "query".toList := by
          intro hname
          have hvalue := (cut?_query p field.2).mp (by rw [hcut, ← hname])
          exact absurd (hstrip.symm.trans hvalue) (Option.some_ne_none _).symm
        rw [List.filterMap_cons_some hcut, List.find?_cons_of_neg (by simpa using hname)]

theorem findSome?_eq_some_iff_leadsWith (parameters : List (List Char)) (value : List Char) :
    parameters.findSome? (stripStart? "query=".toList) = some value ↔
      LeadsWith parameters value := by
  rw [List.findSome?_eq_some_iff, LeadsWith]
  constructor
  · rintro ⟨before, p, behind, rfl, hp, hbefore⟩
    rw [stripStart?_eq_some_iff] at hp
    exact ⟨before, behind, by rw [hp],
      fun q hq => (stripStart?_eq_none_iff_not_isQuery q).mp (hbefore q hq)⟩
  · rintro ⟨before, behind, rfl, hbefore⟩
    exact ⟨before, _, behind, rfl, (stripStart?_eq_some_iff _ _ _).mpr rfl,
      fun q hq => (stripStart?_eq_none_iff_not_isQuery q).mpr (hbefore q hq)⟩

theorem findSome?_eq_none_iff_not_isQuery (parameters : List (List Char)) :
    parameters.findSome? (stripStart? "query=".toList) = none ↔ ∀ p ∈ parameters, ¬ IsQuery p := by
  rw [List.findSome?_eq_none_iff]
  exact forall₂_congr fun p _ => stripStart?_eq_none_iff_not_isQuery p

/-- A text carries what its first `query` is the coded form of. -/
theorem carriedAddress?_eq_some_iff {link : List Char} {parameters : List (List Char)}
    (h : HasParameters link parameters) (address : String) :
    carriedAddress? link = some address ↔
      ∃ value, LeadsWith parameters value ∧ value ≠ [] ∧ address = unescape value := by
  rw [(hasParameters_iff link parameters).mp h, carriedAddress?, findQuery_eq]
  simp only [← findSome?_eq_some_iff_leadsWith]
  cases (splitOn '&' (((cut? '?' link).map Prod.snd).getD link)).findSome?
      (stripStart? "query=".toList) with
  | none => simp
  | some value =>
    have hempty : value.isEmpty = true ↔ value = [] := List.isEmpty_iff
    simp only [Option.map_some, Option.some.injEq, exists_eq_left', ne_eq, ← hempty]
    cases value.isEmpty <;> simp [eq_comm]

/-- A text carries nothing exactly when none of its parameters is a `query`
    or the first one that is has no value. -/
theorem carriedAddress?_eq_none_iff {link : List Char} {parameters : List (List Char)}
    (h : HasParameters link parameters) :
    carriedAddress? link = none ↔
      (∀ p ∈ parameters, ¬ IsQuery p) ∨ LeadsWith parameters [] := by
  rw [(hasParameters_iff link parameters).mp h, carriedAddress?, findQuery_eq]
  simp only [← findSome?_eq_some_iff_leadsWith, ← findSome?_eq_none_iff_not_isQuery]
  cases (splitOn '&' (((cut? '?' link).map Prod.snd).getD link)).findSome?
      (stripStart? "query=".toList) with
  | none => simp
  | some value => simp

/-- An address is carried among other parameters, if none of those before it
    is a `query`. -/
theorem carriedAddress?_joinWith (page : List Char) (before behind : List (List Char))
    (address : String) (hpage : '?' ∉ page) (hne : address ≠ "")
    (hjoint : ∀ p ∈ before ++ behind, '&' ∉ p) (hbefore : ∀ p ∈ before, ¬ IsQuery p) :
    carriedAddress? (page ++ '?' :: joinWith '&'
      (before ++ ("query=".toList ++ escapeComponent address) :: behind)) = some address := by
  have hquery : '&' ∉ "query=".toList ++ escapeComponent address := by
    rw [List.mem_append, not_or]
    exact ⟨by decide, not_mem_encode holdsDigits_component (by decide)⟩
  -- Only the coded address has to be looked at, the others have no ampersand already.
  have hparameters : HasParameters (page ++ '?' :: joinWith '&'
      (before ++ ("query=".toList ++ escapeComponent address) :: behind))
      (before ++ ("query=".toList ++ escapeComponent address) :: behind) := by
    refine ⟨Or.inr ⟨page, hpage, rfl⟩,
      List.append_ne_nil_of_right_ne_nil _ (List.cons_ne_nil _ _), ?_⟩
    intro p hp
    rw [List.mem_append, List.mem_cons] at hp
    rcases hp with hp | rfl | hp
    · exact hjoint p (List.mem_append_left behind hp)
    · exact hquery
    · exact hjoint p (List.mem_append_right before hp)
  rw [carriedAddress?_eq_some_iff hparameters]
  exact ⟨escapeComponent address, ⟨before, behind, rfl, hbefore⟩,
    fun h => hne ((escapeComponent_eq_nil_iff address).mp h),
    (unescape_escapeComponent address).symm⟩

/-- The address is the only parameter of a link. -/
theorem toList_deepLink (home address : String) :
    (deepLink home address).toList = (home.toList ++ "/static".toList) ++
      '?' :: joinWith '&' ([] ++ ("query=".toList ++ escapeComponent address) :: []) := by
  have hcoded : (String.ofList (escapeComponent address)).toList = escapeComponent address :=
    String.toList_ofList
  have hparameter : "/static?query=".toList = "/static".toList ++ '?' :: "query=".toList := rfl
  rw [deepLink, String.toList_append, String.toList_append, hcoded, hparameter, List.nil_append,
    joinWith_singleton]
  simp only [List.append_assoc, List.cons_append]

/-- A link carries the address it was made for, if the page has no question
    mark in its own name. -/
theorem carriedAddress?_deepLink (home address : String) (hhome : '?' ∉ home.toList)
    (hne : address ≠ "") : carriedAddress? (deepLink home address).toList = some address := by
  have hpage : '?' ∉ home.toList ++ "/static".toList := by
    rw [List.mem_append, not_or]
    exact ⟨hhome, by decide⟩
  rw [toList_deepLink]
  exact carriedAddress?_joinWith _ [] [] address hpage hne (fun p hp => absurd hp List.not_mem_nil)
    fun p hp => absurd hp List.not_mem_nil

/-- A link gives the request of the address that it carries, whatever its other
    parameters are, so that a link to a page without a question mark in its
    name gives back the request it was made for. A text gives none exactly
    when none of its parameters is a `query` or the first one has no value. -/
theorem linked_query_among_parameters (r : Reading) :
    (∀ (page : List Char) (before behind : List (List Char)) (address : String),
      '?' ∉ page → address ≠ "" → (∀ p ∈ before ++ behind, '&' ∉ p) →
      (∀ p ∈ before, ¬ IsQuery p) →
      r.linkedQuery? (page ++ '?' :: joinWith '&'
        (before ++ ("query=".toList ++ escapeComponent address) :: behind)) =
          some (r.query address.toList)) ∧
      (∀ home address : String, '?' ∉ home.toList → address ≠ "" →
        r.linkedQuery? (deepLink home address).toList = some (r.query address.toList)) ∧
      ∀ link : List Char, ∃ parameters,
        (∀ ps, HasParameters link ps ↔ ps = parameters) ∧
          (r.linkedQuery? link = none ↔
            (∀ p ∈ parameters, ¬ IsQuery p) ∨ LeadsWith parameters []) := by
  refine ⟨?_, ?_, ?_⟩
  · intro page before behind address hpage hne hjoint hbefore
    rw [Reading.linkedQuery?,
      carriedAddress?_joinWith page before behind address hpage hne hjoint hbefore, Option.map_some]
  · intro home address hhome hne
    rw [Reading.linkedQuery?, carriedAddress?_deepLink home address hhome hne, Option.map_some]
  · intro link
    refine ⟨_, hasParameters_iff link, ?_⟩
    rw [Reading.linkedQuery?, Option.map_eq_none_iff]
    exact carriedAddress?_eq_none_iff ((hasParameters_iff link _).mpr rfl)

/-- A parameter with a question mark and a `query` without an equals sign stand
    before the address, a further `query` behind it. -/
theorem linked_query_among_parameters_first :
    let r : Reading := ⟨.ofList [("n", { type := .integer })], .utc⟩
    let before := ["a?b=c".toList, "query".toList]
    let behind := ["query=z".toList]
    '?' ∉ "https://h".toList ∧ (∀ p ∈ before ++ behind, '&' ∉ p) ∧ (∀ p ∈ before, ¬ IsQuery p) ∧
      r.linkedQuery? "https://h?a?b=c&query&query=s%2Fn%3D1%26%3F&query=z".toList =
        some (r.query "s/n=1&?".toList) := by
  intro r before behind
  have hpage : '?' ∉ "https://h".toList := by decide
  have hjoint : ∀ p ∈ before ++ behind, '&' ∉ p := by decide
  have hbefore : ∀ p ∈ before, ¬ IsQuery p := by decide
  have htext : "https://h?a?b=c&query&query=s%2Fn%3D1%26%3F&query=z".toList =
      "https://h".toList ++ '?' :: joinWith '&'
        (before ++ ("query=".toList ++ escapeComponent "s/n=1&?") :: behind) := by decide
  refine ⟨hpage, hjoint, hbefore, ?_⟩
  rw [htext]
  exact (linked_query_among_parameters r).1 _ before behind "s/n=1&?" hpage (by decide)
    hjoint hbefore

end TagCatalog
