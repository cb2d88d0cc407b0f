import TagCatalog.Proofs.Number.Numeral
import TagCatalog.Proofs.Time.Stamp
import TagCatalog.Proofs.Time.Zone

/-!
# Distances from Universal Time

Where a point in time says how far it is from universal time.

A distance stands at the end of a text and can be found there in one way only: it is a
letter, or it has six characters of which the last is a digit. Of the forms in which a
point in time may be written just one has a distance, but three of the others have
something like it. A date has two dashes with digits behind them, and a time of day has
two digits, a colon and two digits at its end. That the two never meet is due to the day
between them. A dash is followed by all digits that belong to the number behind it, and
no pattern goes on with a colon there, which is `not_endsInDistance_of_read?`.

So whether a text that was accepted ends in a distance is whether it was accepted as a
timestamp that names its own, and a suffix behind it is then a second one.

## Main definitions

* `Stamp.EndsInDistance`: A text that ends in a distance.
* `Stamp.StatesOnce`: A text that ends in one distance.

## Theorems

* `distance_unique`: A text ends in one distance at most.
* `isDistance_suffix`: The suffix of a zone is a distance.
* `endsInDistance_of_isComplete`: A timestamp that names its own distance ends in one.
* `not_endsInDistance_of_read?`: What follows a pattern does not.
* `endsInDistance_iff_isComplete`: Which points in time end in a distance.
* `statesOnce_append_suffix_iff`: When a suffix is the only distance.
-/

namespace TagCatalog

open Text

namespace Stamp

/-- A text that ends in a distance from universal time. -/
def EndsInDistance (cs : List Char) : Prop :=
  ∃ front distance, cs = front ++ distance ∧ isDistance distance = true

/-- A text that ends in a distance from universal time and has no other one in front of it,
    whatever blanks may stand between. -/
def StatesOnce (cs : List Char) : Prop :=
  ∃ front distance, cs = front ++ distance ∧ isDistance distance = true ∧
    ¬ EndsInDistance (trim front)

/-- The last character of a distance tells its length. -/
theorem length_of_isDistance {cs : List Char} (h : isDistance cs = true) :
    ∃ c, cs.getLast? = some c ∧ cs.length = if c.isDigit then 6 else 1 := by
  rcases isDistance_cases h with rfl | rfl | ⟨s, h₁, h₂, m₁, m₂, rfl, _, hdigits⟩
  · exact ⟨'Z', rfl, rfl⟩
  · exact ⟨'z', rfl, rfl⟩
  · refine ⟨m₂, rfl, ?_⟩
    rw [if_pos (hdigits m₂ (by simp))]
    rfl

theorem distance_unique {front front' distance distance' : List Char}
    (heq : front ++ distance = front' ++ distance') (h : isDistance distance = true)
    (h' : isDistance distance' = true) : front = front' ∧ distance = distance' := by
  rcases length_of_isDistance h with ⟨c, hlast, hlength⟩
  rcases length_of_isDistance h' with ⟨c', hlast', hlength'⟩
  have hc := congrArg List.getLast? heq
  rw [List.getLast?_append, List.getLast?_append, hlast, hlast', Option.some_or, Option.some_or,
    Option.some.injEq] at hc
  refine List.append_inj' heq ?_
  rw [hlength, hlength', hc]

/-- Two digits are read as the number that they were written for. -/
theorem fixed?_twoDigits {n : Nat} (hn : n < 100) (r : List Char) :
    fixed? 2 (Zone.twoDigits n ++ r) = some (n, r) := by
  have hwritten : ∀ n < 100, (Zone.twoDigits n).length = 2 ∧
      (Zone.twoDigits n).all Char.isDigit = true ∧
      Nat.ofDigitChars 10 (Zone.twoDigits n) 0 = n := by
    decide
  rcases hwritten n hn with ⟨hlength, hdigits, hvalue⟩
  simp only [fixed?]
  rw [← hlength, List.take_left, List.drop_left, if_pos ⟨rfl, hdigits⟩, hvalue]

/-- What is appended for a zone is a distance, as the zone is less than a day. -/
theorem isDistance_suffix (zone : Zone) : isDistance zone.suffix.toList = true := by
  have hday := zone.within_day
  have hhours := fixed?_twoDigits (n := zone.seconds.natAbs / 60 / 60) (by omega)
    (':' :: Zone.twoDigits (zone.seconds.natAbs / 60 % 60))
  have hminutes := fixed?_twoDigits (n := zone.seconds.natAbs / 60 % 60) (by omega) []
  rw [List.append_nil] at hminutes
  have hrange : zone.seconds.natAbs / 60 / 60 ≤ 23 ∧ zone.seconds.natAbs / 60 % 60 ≤ 59 := by omega
  rw [Zone.suffix, String.toList_ofList]
  by_cases hsign : zone.seconds < 0
  · simp [isDistance, hsign, hhours, hminutes, oneOf?, hrange.1, hrange.2]
  · simp [isDistance, hsign, hhours, hminutes, oneOf?, hrange.1, hrange.2]

theorem endsInDistance_of_isComplete {cs : List Char} (h : isComplete cs = true) :
    EndsInDistance cs := by
  unfold isComplete at h
  split at h
  · next m r hread =>
    rcases leftAfter_moment? hread with ⟨front, hcs, _⟩
    exact ⟨front, r, hcs, (Bool.and_eq_true_iff.mp h).2⟩
  · exact Bool.noConfusion h

/-- With none of a kind behind either of two characters of the kind, both are the last one. -/
theorem eq_of_last (kind : Char → Bool) {front front' back back' : List Char} {c c' : Char}
    (heq : front ++ c :: back = front' ++ c' :: back') (hc : kind c = true) (hc' : kind c' = true)
    (hback : ∀ x ∈ back, kind x = false) (hback' : ∀ x ∈ back', kind x = false) : back = back' := by
  rcases List.append_eq_append_iff.mp heq with ⟨between, _, h⟩ | ⟨between, _, h⟩
  · cases between with
    | nil => exact (List.cons.inj h).2
    | cons x xs =>
      have hmem : c' ∈ back := (List.cons.inj h).2 ▸ List.mem_append_right xs List.mem_cons_self
      exact absurd hc' (by simp [hback c' hmem])
  · cases between with
    | nil => exact (List.cons.inj h).2.symm
    | cons x xs =>
      have hmem : c ∈ back' := (List.cons.inj h).2 ▸ List.mem_append_right xs List.mem_cons_self
      exact absurd hc (by simp [hback' c hmem])

theorem isBlank_eq_false_of_isDigit {c : Char} (h : c.isDigit = true) : isBlank c = false := by
  have hbounds : 48 ≤ c.toNat ∧ c.toNat ≤ 57 := by
    simpa [Char.isDigit, UInt32.le_iff_toNat_le] using h
  simp only [isBlank, Bool.or_eq_false_iff, Bool.and_eq_false_iff, decide_eq_false_iff_not]
  omega

/-- A number takes both of two digits that stand at its place. -/
theorem number?_two_digits {d₁ d₂ : Char} {r r' : List Char} {n : Nat} (h₁ : d₁.isDigit = true)
    (h₂ : d₂.isDigit = true) (h : Pattern.number? 2 (trimStart (d₁ :: d₂ :: r)) = some (n, r')) :
    r' = r := by
  have htrim : trimStart (d₁ :: d₂ :: r) = d₁ :: d₂ :: r := by
    rw [trimStart, List.dropWhile_cons_of_neg (by simp [isBlank_eq_false_of_isDigit h₁])]
  rw [htrim] at h
  simp only [Pattern.number?, List.take_succ_cons, List.take_zero, List.takeWhile_cons, h₁, h₂,
    if_true, List.takeWhile_nil] at h
  exact (Prod.mk.inj (Option.some.inj h)).2.symm

/-- Whether a character is a sign. -/
def isSign (c : Char) : Bool := c = '+' || c = '-'

theorem isSign_eq_false_of_isDigit {c : Char} (h : c.isDigit = true) : isSign c = false := by
  have hplus : c ≠ '+' := by
    rintro rfl
    exact absurd h (by decide)
  have hdash : c ≠ '-' := by
    rintro rfl
    exact absurd h (by decide)
  simp [isSign, hplus, hdash]

/-- What may follow the date of a pattern: nothing that takes a sign or a letter of a distance,
    and nothing that begins with a colon. -/
structure FollowsDate (rest : Pattern) : Prop where
  signs : ∀ item ∈ rest, ['+', '-'].any item.takes = false
  letters : ∀ item ∈ rest, ['Z', 'z', '\u2212'].any item.takes = false
  colon : ∀ m cs, rest.read? m (':' :: cs) = none

section Date

variable {rest : Pattern} {m m' : Moment} {cs : List Char}

theorem letter_notMem_of_read? (hrest : FollowsDate rest)
    (h : (Pattern.date ++ rest).read? m cs = some m') : ∀ c ∈ ['Z', 'z', '\u2212'], c ∉ cs := by
  have hdate : ∀ item ∈ Pattern.date, ['Z', 'z', '\u2212'].any item.takes = false := by decide
  intro c hc hmem
  rcases Pattern.takes_of_read? h c hmem with ⟨item, hitem, htakes⟩
  rcases List.mem_append.mp hitem with hitem | hitem
  · exact List.any_eq_false.mp (hdate item hitem) c hc htakes
  · exact List.any_eq_false.mp (hrest.letters item hitem) c hc htakes

/-- The last sign of a date is the second dash, and the day is behind it. -/
theorem day_of_read? (hrest : FollowsDate rest) (h : (Pattern.date ++ rest).read? m cs = some m') :
    ∃ front day n r m₁, cs = front ++ '-' :: day ∧ (∀ c ∈ day, isSign c = false) ∧
      Pattern.number? 2 (trimStart day) = some (n, r) ∧ rest.read? m₁ r = some m' := by
  simp only [Pattern.date, List.cons_append, List.nil_append, Pattern.read?_cons_eq_some_iff] at h
  rcases h with ⟨_, r₁, hyear, _, r₂, hdash, _, r₃, hmonth, _, day, hdash', m₁, r, hday, hread⟩
  rcases Option.map_eq_some_iff.mp hdash' with ⟨s, hstrip, heq⟩
  obtain rfl : s = day := (Prod.mk.inj heq).2
  have hr₃ : r₃ = '-' :: s := (stripStart?_eq_some_iff _ _ _).mp hstrip
  have hsuffix : r₃ <:+ cs :=
    ((Pattern.leftAfter_step? hmonth).suffix.trans (Pattern.leftAfter_step? hdash).suffix).trans
      (Pattern.leftAfter_step? hyear).suffix
  rcases hsuffix with ⟨front, hfront⟩
  rcases Option.map_eq_some_iff.mp hday with ⟨⟨n, r'⟩, hnumber, heq'⟩
  obtain rfl : r' = r := (Prod.mk.inj heq').2
  refine ⟨front, s, n, r', m₁, by rw [← hfront, hr₃], fun c hc => ?_, hnumber, hread⟩
  -- The day takes no sign, and neither does what follows.
  by_contra hsign
  rw [Bool.not_eq_false, isSign, Bool.or_eq_true, decide_eq_true_eq, decide_eq_true_eq] at hsign
  have hmem : c ∈ ['+', '-'] := by simpa using hsign
  have hleft : c ∈ r' := (Pattern.leftAfter_step? hday).mem hc
    (by rcases hsign with rfl | rfl <;> decide)
  rcases Pattern.takes_of_read? hread c hleft with ⟨item, hitem, htakes⟩
  exact List.any_eq_false.mp (hrest.signs item hitem) c hmem htakes

/-- What follows a pattern of a date, with or without a time of day, ends in no distance. -/
theorem not_endsInDistance_of_read? (hrest : FollowsDate rest)
    (h : (Pattern.date ++ rest).read? m cs = some m') : ¬ EndsInDistance cs := by
  rintro ⟨front, distance, hcs, hdistance⟩
  have hletters := letter_notMem_of_read? hrest h
  rcases isDistance_cases hdistance with rfl | rfl | ⟨s, h₁, h₂, m₁, m₂, rfl, hs, hdigits⟩
  · exact hletters 'Z' (by decide) (hcs ▸ List.mem_append_right front List.mem_cons_self)
  · exact hletters 'z' (by decide) (hcs ▸ List.mem_append_right front List.mem_cons_self)
  · have hsign : isSign s = true := by
      rcases hs with rfl | rfl | rfl
      · rfl
      · rfl
      · exact absurd (hcs ▸ List.mem_append_right front List.mem_cons_self)
          (hletters '\u2212' (by decide))
    rcases day_of_read? hrest h with ⟨front', day, n, r, m₀, hcs', hday, hnumber, hread⟩
    -- The sign of the distance is the dash in front of the day.
    have heq : day = [h₁, h₂, ':', m₁, m₂] := by
      refine eq_of_last isSign (hcs'.symm.trans hcs) rfl hsign hday fun x hx => ?_
      by_cases hcolon : x = ':'
      · rw [hcolon]
        rfl
      · exact isSign_eq_false_of_isDigit (hdigits x (by simpa [hcolon] using hx))
    -- So the day has two digits, and a colon follows them.
    rw [heq] at hnumber
    have hr := number?_two_digits (hdigits h₁ (by simp)) (hdigits h₂ (by simp)) hnumber
    rw [hr, hrest.colon] at hread
    exact nomatch hread

end Date

/-- All patterns begin with a date, and none goes on with a sign, a letter of a distance or a
    colon. -/
theorem exists_followsDate (p : Pattern) (hp : p ∈ Pattern.date :: Pattern.moments) :
    ∃ rest, p = Pattern.date ++ rest ∧ FollowsDate rest := by
  simp only [Pattern.moments, List.mem_cons, List.not_mem_nil, or_false] at hp
  rcases hp with rfl | rfl | rfl | rfl | rfl
  · exact ⟨[], rfl, by decide, by decide, fun _ _ => rfl⟩
  all_goals exact ⟨_, rfl, by decide, by decide, fun _ _ => rfl⟩

/-- Points in time that end in a distance are timestamps that name their own. -/
theorem endsInDistance_iff_isComplete {cs : List Char} (h : isMoment cs = true) :
    EndsInDistance cs ↔ isComplete cs = true := by
  refine ⟨fun hends => ?_, endsInDistance_of_isComplete⟩
  -- What follows a pattern ends in none.
  have hpattern : ∀ p ∈ Pattern.date :: Pattern.moments, p.accepts cs = false := by
    intro p hp
    rw [Bool.eq_false_iff]
    intro haccepts
    rcases exists_followsDate p hp with ⟨rest, rfl, hrest⟩
    rcases Option.isSome_iff_exists.mp (Option.isSome_of_any haccepts) with ⟨m, hread⟩
    exact not_endsInDistance_of_read? hrest hread hends
  have hmoments : (Pattern.moments.any fun p => p.accepts cs) = false :=
    List.any_eq_false.mpr fun p hp => by simp [hpattern p (List.mem_cons_of_mem _ hp)]
  rw [isMoment, hpattern Pattern.date List.mem_cons_self, hmoments, Bool.false_or,
    Bool.or_false] at h
  exact h

/-- A suffix is the only distance of a text exactly if there is none in front of it. -/
theorem statesOnce_append_suffix_iff (cs : List Char) (zone : Zone) :
    StatesOnce (cs ++ zone.suffix.toList) ↔ ¬ EndsInDistance (trim cs) := by
  constructor
  · rintro ⟨front, distance, heq, hdistance, hfront⟩
    rw [(distance_unique heq (isDistance_suffix zone) hdistance).1]
    exact hfront
  · exact fun h => ⟨cs, zone.suffix.toList, rfl, isDistance_suffix zone, h⟩

end Stamp

end TagCatalog
