import Mathlib.Data.List.TakeWhile
import TagCatalog.Proofs.Number.Numeral
import TagCatalog.Proofs.Text.Split
import TagCatalog.Time.Stamp

/-!
# The Alphabet of Dates and Times

What a text that names a date or a point in time is made of.

A reader of a part takes characters off the front of a text and leaves the rest. Which
characters it can take is known from the part alone: digits for a number, blanks in front
of it, a sign for a year, and the separators of the pattern. `LeftAfter` relates a text to
what is left of it after characters of a kind, and it goes from reader to reader by
transitivity.

It is used in two ways. A text that is read to its end has nothing left, so all of it is
of the kinds that were taken: no point in time has a comma. And what is left is an ending
of the text, with all characters in it that no reader before could take.

A distance from universal time is short enough to be written out, as it is in
`isDistance_cases`.

## Main definitions

* `LeftAfter`: What is left of a text after characters of a kind.
* `PatternItem.takes`: The characters that a place of a pattern can take.

## Theorems

* `LeftAfter.trans`, `LeftAfter.mono`, `LeftAfter.mem`: The relation from reader to reader.
* `leftAfter_number?`, `leftAfter_year?`, `leftAfter_step?`: The readers of patterns.
* `takes_of_read?`: A text that follows a pattern is made of what its places take.
* `leftAfter_moment?`, `isDistance_cases`: The parts of a timestamp with its own distance.
* `comma_notMem_of_isMoment`: Points in time have no comma.
-/

namespace TagCatalog

open Text

/-- What is left of a text after some characters of a kind. -/
def LeftAfter (kind : Char → Bool) (cs rest : List Char) : Prop :=
  ∃ taken, cs = taken ++ rest ∧ ∀ c ∈ taken, kind c = true

namespace LeftAfter

variable {kind kind' : Char → Bool} {cs rest rest' : List Char}

theorem refl (cs : List Char) : LeftAfter kind cs cs :=
  ⟨[], rfl, fun _ h => absurd h List.not_mem_nil⟩

theorem trans (h : LeftAfter kind cs rest) (h' : LeftAfter kind rest rest') :
    LeftAfter kind cs rest' := by
  rcases h with ⟨taken, rfl, htaken⟩
  rcases h' with ⟨taken', rfl, htaken'⟩
  refine ⟨taken ++ taken', by rw [List.append_assoc], fun c hc => ?_⟩
  rcases List.mem_append.mp hc with hc | hc
  · exact htaken c hc
  · exact htaken' c hc

theorem mono (h : LeftAfter kind cs rest) (hkind : ∀ c, kind c = true → kind' c = true) :
    LeftAfter kind' cs rest := by
  rcases h with ⟨taken, hcs, htaken⟩
  exact ⟨taken, hcs, fun c hc => hkind c (htaken c hc)⟩

theorem cons {c : Char} (hc : kind c = true) (rest : List Char) : LeftAfter kind (c :: rest) rest :=
  ⟨[c], rfl, fun _ h => List.mem_singleton.mp h ▸ hc⟩

/-- A character of another kind is left. -/
theorem mem (h : LeftAfter kind cs rest) {c : Char} (hc : c ∈ cs) (hkind : kind c = false) :
    c ∈ rest := by
  rcases h with ⟨taken, rfl, htaken⟩
  rcases List.mem_append.mp hc with hc | hc
  · exact absurd (htaken c hc) (by simp [hkind])
  · exact hc

theorem suffix (h : LeftAfter kind cs rest) : rest <:+ cs := by
  rcases h with ⟨taken, rfl, _⟩
  exact List.suffix_append taken rest

theorem dropWhile (kind : Char → Bool) (cs : List Char) : LeftAfter kind cs (cs.dropWhile kind) :=
  ⟨cs.takeWhile kind, List.takeWhile_append_dropWhile.symm, fun _ hc => List.mem_takeWhile_imp hc⟩

theorem trimStart (cs : List Char) : LeftAfter isBlank cs (trimStart cs) := dropWhile isBlank cs

end LeftAfter

/-- The blanks around a text are no commas. -/
theorem comma_mem_trim (cs : List Char) (h : ',' ∈ cs) : ',' ∈ trim cs := by
  have hstart : ∀ ds : List Char, ',' ∈ ds → ',' ∈ trimStart ds := fun ds hds =>
    (LeftAfter.trimStart ds).mem hds (by decide)
  exact List.mem_reverse.mpr (hstart _ (List.mem_reverse.mpr (hstart cs h)))

/-- The characters that a place of a pattern can take. -/
def PatternItem.takes : PatternItem → Char → Bool
  | year, c => c.isDigit || isBlank c || c = '+' || c = '-'
  | fraction, c => c.isDigit || c = '.'
  | blanks, c => isBlank c
  | literal d, c => c = d
  | _, c => c.isDigit || isBlank c

namespace Pattern

theorem leftAfter_number? {width n : Nat} {cs r : List Char} (h : number? width cs = some (n, r)) :
    LeftAfter Char.isDigit cs r := by
  simp only [number?] at h
  split at h
  · exact absurd h.symm (Option.some_ne_none _)
  · rw [Option.some.injEq, Prod.mk.injEq] at h
    -- The digits are a beginning of the text.
    have hdigits : (cs.take width).takeWhile Char.isDigit <+: cs :=
      (List.takeWhile_prefix _).trans (List.take_prefix width cs)
    refine ⟨(cs.take width).takeWhile Char.isDigit, ?_, fun _ hc => List.mem_takeWhile_imp hc⟩
    rw [← h.2]
    exact (List.prefix_iff_eq_append.mp hdigits).symm

theorem leftAfter_year? {cs r : List Char} {n : Int} (h : year? cs = some (n, r)) :
    LeftAfter (fun c => c.isDigit || c = '+' || c = '-') cs r := by
  have hdigits : ∀ {s : List Char}, LeftAfter Char.isDigit s r →
      LeftAfter (fun c => c.isDigit || c = '+' || c = '-') s r := fun hs =>
    hs.mono fun c hc => by simp [hc]
  unfold year? at h
  split at h <;> rcases Option.map_eq_some_iff.mp h with ⟨⟨m, s⟩, hread, heq⟩ <;>
    obtain rfl : s = r := (Prod.mk.inj heq).2
  · exact (LeftAfter.cons (by decide) _).trans (hdigits (leftAfter_number? hread))
  · exact (LeftAfter.cons (by decide) _).trans (hdigits (leftAfter_number? hread))
  · exact hdigits (leftAfter_number? hread)

theorem leftAfter_fraction? {cs r : List Char} (h : fraction? cs = some r) :
    LeftAfter (fun c => c.isDigit || c = '.') cs r := by
  unfold fraction? at h
  split at h
  · next s =>
    split at h
    · exact absurd h.symm (Option.some_ne_none _)
    · rw [← Option.some.inj h]
      exact (LeftAfter.cons (by decide) s).trans
        ((LeftAfter.dropWhile Char.isDigit s).mono fun c hc => by simp [hc])
  · exact Option.some.inj h ▸ .refl cs

theorem leftAfter_step? {item : PatternItem} {m m' : Moment} {cs r : List Char}
    (h : step? item m cs = some (m', r)) : LeftAfter item.takes cs r := by
  -- Fields are numbers behind blanks.
  have hfield : ∀ {n s}, number? 2 (trimStart cs) = some (n, s) →
      LeftAfter (fun c => c.isDigit || isBlank c) cs s := fun hread =>
    ((LeftAfter.trimStart cs).mono fun c hc => by simp [hc]).trans
      ((leftAfter_number? hread).mono fun c hc => by simp [hc])
  unfold step? at h
  cases item with
  | year =>
    rcases Option.map_eq_some_iff.mp h with ⟨⟨n, s⟩, hread, heq⟩
    obtain rfl : s = r := (Prod.mk.inj heq).2
    refine LeftAfter.trans ((LeftAfter.trimStart cs).mono fun c hc => ?_)
      ((leftAfter_year? hread).mono fun c hc => ?_)
    · simp [PatternItem.takes, hc]
    · simp only [Bool.or_eq_true] at hc
      rcases hc with (hc | hc) | hc <;> simp [PatternItem.takes, hc]
  | month | day | hour | minute | second =>
    rcases Option.map_eq_some_iff.mp h with ⟨⟨n, s⟩, hread, heq⟩
    obtain rfl : s = r := (Prod.mk.inj heq).2
    exact hfield hread
  | fraction =>
    rcases Option.map_eq_some_iff.mp h with ⟨s, hread, heq⟩
    obtain rfl : s = r := (Prod.mk.inj heq).2
    exact leftAfter_fraction? hread
  | blanks =>
    rw [← (Prod.mk.inj (Option.some.inj h)).2]
    exact .trimStart cs
  | literal c =>
    rcases Option.map_eq_some_iff.mp h with ⟨s, hread, heq⟩
    obtain rfl : s = r := (Prod.mk.inj heq).2
    rw [(stripStart?_eq_some_iff _ _ _).mp hread]
    exact .cons (decide_eq_true rfl) s

theorem read?_cons_eq_some_iff {item : PatternItem} {items : Pattern} {m m' : Moment}
    {cs : List Char} :
    read? (item :: items) m cs = some m' ↔
      ∃ m₁ r, step? item m cs = some (m₁, r) ∧ read? items m₁ r = some m' := by
  rw [read?]
  cases step? item m cs with
  | none => exact iff_of_false (nomatch ·) fun ⟨_, _, h, _⟩ => nomatch h
  | some x =>
    refine ⟨fun h => ⟨x.1, x.2, rfl, h⟩, fun ⟨m₁, r, hstep, h⟩ => ?_⟩
    obtain rfl : x = (m₁, r) := Option.some.inj hstep
    exact h

/-- A text that follows a pattern is made of what the places of the pattern take. -/
theorem takes_of_read? {pattern : Pattern} {m m' : Moment} {cs : List Char}
    (h : read? pattern m cs = some m') : ∀ c ∈ cs, ∃ item ∈ pattern, item.takes c = true := by
  -- What a place does not take is left for the places behind it.
  induction pattern generalizing m cs with
  | nil =>
    cases cs with
    | nil => exact fun c hc => absurd hc List.not_mem_nil
    | cons c r => exact absurd h.symm (Option.some_ne_none _)
  | cons item items ih =>
    intro c hc
    rcases read?_cons_eq_some_iff.mp h with ⟨m₁, r, hstep, hread⟩
    by_cases htakes : item.takes c = true
    · exact ⟨item, List.mem_cons_self, htakes⟩
    · rw [Bool.not_eq_true] at htakes
      rcases ih hread c ((leftAfter_step? hstep).mem hc htakes) with ⟨other, hother, hc⟩
      exact ⟨other, List.mem_cons_of_mem item hother, hc⟩

theorem comma_notMem_of_accepts (pattern : Pattern) (hpattern : .literal ',' ∉ pattern)
    (cs : List Char) (h : pattern.accepts cs = true) : ',' ∉ cs := by
  rcases Option.isSome_iff_exists.mp (Option.isSome_of_any h) with ⟨m, hread⟩
  intro hc
  rcases takes_of_read? hread ',' hc with ⟨item, hitem, htakes⟩
  cases item with
  | literal c => exact hpattern (of_decide_eq_true htakes ▸ hitem)
  | year | month | day | hour | minute | second | fraction | blanks =>
    exact absurd htakes (by decide)

end Pattern

namespace Stamp

theorem fixed?_eq_some {width n : Nat} {cs r : List Char} (h : fixed? width cs = some (n, r)) :
    ∃ digits, cs = digits ++ r ∧ digits.length = width ∧ digits.all Char.isDigit = true ∧
      n = Nat.ofDigitChars 10 digits 0 := by
  simp only [fixed?] at h
  split at h
  · next hdigits =>
    rw [Option.some.injEq, Prod.mk.injEq] at h
    refine ⟨cs.take width, ?_, hdigits.1, hdigits.2, h.1.symm⟩
    rw [← h.2, List.take_append_drop]
  · exact absurd h.symm (Option.some_ne_none _)

theorem oneOf?_eq_some {accepted cs r : List Char} (h : oneOf? accepted cs = some r) :
    ∃ c ∈ accepted, cs = c :: r := by
  cases cs with
  | nil => exact absurd h.symm (Option.some_ne_none _)
  | cons c s =>
    rw [oneOf?] at h
    split at h
    · next hmem => exact ⟨c, List.contains_iff_mem.mp hmem, congrArg (c :: ·) (Option.some.inj h)⟩
    · exact absurd h.symm (Option.some_ne_none _)

/-- The characters of a date and a time of day in which every number has its full width. -/
def isMomentChar (c : Char) : Bool := c.isDigit || "-Tt :.".toList.contains c

theorem leftAfter_moment? {cs r : List Char} {m : Moment} (h : moment? cs = some (m, r)) :
    LeftAfter isMomentChar cs r := by
  have hnumber : ∀ {width n cs r}, fixed? width cs = some (n, r) → LeftAfter isMomentChar cs r := by
    intro width n cs r hread
    rcases fixed?_eq_some hread with ⟨digits, hcs, _, hdigits, _⟩
    exact ⟨digits, hcs, fun c hc => by simp [isMomentChar, List.all_eq_true.mp hdigits c hc]⟩
  have hmark : ∀ {accepted cs r}, oneOf? accepted cs = some r →
      accepted.all isMomentChar = true → LeftAfter isMomentChar cs r := by
    intro accepted cs r hread haccepted
    rcases oneOf?_eq_some hread with ⟨c, hc, rfl⟩
    exact .cons (List.all_eq_true.mp haccepted c hc) r
  simp only [moment?, Option.bind_eq_bind, Option.bind_eq_some_iff, Prod.exists] at h
  rcases h with ⟨year, r₁, hyear, r₂, hdash, month, r₃, hmonth, r₄, hdash', day, r₅, hday, r₆,
    hletter, hour, r₇, hhour, r₈, hcolon, minute, r₉, hminute, r', hcolon', second, s, hsecond,
    t, hfraction, heq⟩
  rw [← (Prod.mk.inj (Option.some.inj heq)).2]
  have hdate : LeftAfter isMomentChar cs r₅ :=
    (hnumber hyear).trans <| (hmark hdash (by decide)).trans <| (hnumber hmonth).trans <|
      (hmark hdash' (by decide)).trans (hnumber hday)
  have htime : LeftAfter isMomentChar r₅ s :=
    (hmark hletter (by decide)).trans <| (hnumber hhour).trans <|
      (hmark hcolon (by decide)).trans <| (hnumber hminute).trans <|
      (hmark hcolon' (by decide)).trans (hnumber hsecond)
  refine hdate.trans (htime.trans ((Pattern.leftAfter_fraction? hfraction).mono fun c hc => ?_))
  rcases Bool.or_eq_true_iff.mp hc with hc | hc
  · simp [isMomentChar, hc]
  · rw [of_decide_eq_true hc]
    decide

/-- A distance is a letter alone, or a sign with hours and minutes. -/
theorem isDistance_cases {cs : List Char} (h : isDistance cs = true) :
    cs = ['Z'] ∨ cs = ['z'] ∨ ∃ s h₁ h₂ m₁ m₂, cs = [s, h₁, h₂, ':', m₁, m₂] ∧
      (s = '+' ∨ s = '-' ∨ s = '\u2212') ∧ ∀ c ∈ [h₁, h₂, m₁, m₂], c.isDigit = true := by
  cases cs with
  | nil => exact Bool.noConfusion h
  | cons c r =>
    rw [isDistance] at h
    split at h
    · next hletter =>
      rw [List.isEmpty_iff.mp h]
      rcases hletter with rfl | rfl
      · exact Or.inl rfl
      · exact Or.inr (Or.inl rfl)
    · split at h
      · next hsign =>
        split at h
        · next hours minutes rest hread =>
          simp only [Option.bind_eq_bind, Option.bind_eq_some_iff, Prod.exists] at hread
          rcases hread with ⟨n, r₁, hhours, r₂, hcolon, m, r₃, hminutes, heq⟩
          rw [Option.some.injEq, Prod.mk.injEq, Prod.mk.injEq] at heq
          rw [Bool.and_eq_true, List.isEmpty_iff] at h
          rcases fixed?_eq_some hhours with ⟨ds, rfl, hlength, hds, _⟩
          rcases oneOf?_eq_some hcolon with ⟨d, hd, rfl⟩
          rcases fixed?_eq_some hminutes with ⟨ds', rfl, hlength', hds', _⟩
          rcases List.length_eq_two.mp hlength with ⟨h₁, h₂, rfl⟩
          rcases List.length_eq_two.mp hlength' with ⟨m₁, m₂, rfl⟩
          rw [List.mem_singleton.mp hd, heq.2.2, h.2]
          refine Or.inr (Or.inr ⟨c, h₁, h₂, m₁, m₂, rfl, hsign, ?_⟩)
          intro x hx
          rcases List.mem_append.mp (show x ∈ [h₁, h₂] ++ [m₁, m₂] from hx) with hx | hx
          · exact List.all_eq_true.mp hds x hx
          · exact List.all_eq_true.mp hds' x hx
        · exact Bool.noConfusion h
      · exact Bool.noConfusion h

theorem comma_notMem_of_isDistance (cs : List Char) (h : isDistance cs = true) : ',' ∉ cs := by
  rcases isDistance_cases h with rfl | rfl | ⟨s, h₁, h₂, m₁, m₂, rfl, hsign, hdigits⟩
  · decide
  · decide
  · intro hc
    rcases List.mem_cons.mp hc with rfl | hc
    · exact absurd hsign (by decide)
    · -- Behind the sign there are digits and a colon.
      have hdigit : ∀ d ∈ [h₁, h₂, m₁, m₂], ',' ≠ d := by
        rintro _ hd rfl
        exact absurd (hdigits _ hd) (by decide)
      simp only [List.mem_cons, List.not_mem_nil, or_false] at hc hdigit
      rcases hc with hc | hc | hc | hc | hc
      · exact hdigit _ (Or.inl rfl) hc
      · exact hdigit _ (Or.inr (Or.inl rfl)) hc
      · exact absurd hc (by decide)
      · exact hdigit _ (Or.inr (Or.inr (Or.inl rfl))) hc
      · exact hdigit _ (Or.inr (Or.inr (Or.inr rfl))) hc

theorem comma_notMem_of_isComplete (cs : List Char) (h : isComplete cs = true) : ',' ∉ cs := by
  unfold isComplete at h
  split at h
  · next m r hread =>
    rw [Bool.and_eq_true] at h
    exact fun hc => comma_notMem_of_isDistance r h.2 ((leftAfter_moment? hread).mem hc (by decide))
  · exact Bool.noConfusion h

theorem comma_notMem_of_isMoment (cs : List Char) (h : isMoment cs = true) : ',' ∉ cs := by
  simp only [isMoment, Bool.or_eq_true, List.any_eq_true] at h
  rcases h with (h | h) | ⟨p, hp, h⟩
  · exact Pattern.comma_notMem_of_accepts _ (by decide) cs h
  · exact comma_notMem_of_isComplete cs h
  · have hpatterns : ∀ p ∈ Pattern.moments, PatternItem.literal ',' ∉ p := by decide
    exact Pattern.comma_notMem_of_accepts p (hpatterns p hp) cs h

end Stamp

end TagCatalog
