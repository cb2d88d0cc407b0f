import Mathlib.Data.List.DropRight
import TagCatalog.Text.Split

/-!
# Splitting Undoes Joining

What each way to cut a text does, said without its recursion.

A cut at every separator is the library's `List.splitOn`, so that joining and
splitting undo each other by the library's own lemmas. The other cuts are
characterised outright: a text is cut at a place exactly when it is put
together from the two halves there and the first half is free of the
separator. These equivalences are what later proofs use in both directions,
to compute the cut of a text that was written and to learn the form of a text
that has been cut.

## Main definitions

* `EndsWith`: A text is empty or ends in a separator.

## Theorems

* `splitOn_eq`: Splitting is the library's.
* `splitOn_joinWith`, `joinWith_splitOn`: Splitting and joining undo each other.
* `not_mem_of_mem_splitOn`: No piece has the separator.
* `mem_joinWith`, `not_mem_joinWith`, `count_joinWith`: The characters of joined
  pieces.
* `cut?_eq_some_iff`, `cut?_eq_none_iff`: Cutting at the first separator.
* `throughLast_spec`, `throughLast_append`: Cutting after the last separator.
* `append_cons_inj_of_not_mem`: A text has one last separator.
* `stripStart?_eq_some_iff`, `stripEnd?_eq_some_iff`: Taking away a
  beginning or an ending.
* `takeWhile_append_cons`, `dropWhile_append_cons`, `mem_dropWhile`: The longest
  beginning of characters of a kind.
* `cut?_getD_fst`, `throughLast_snd`: The part that is kept, as such a beginning or
  ending.
-/

namespace TagCatalog

namespace Text

theorem splitOn_eq (sep : Char) (cs : List Char) : splitOn sep cs = List.splitOn sep cs := by
  induction cs with
  | nil => rfl
  | cons c r ih =>
    rw [splitOn, List.splitOn_cons_eq_if_modifyHead]
    by_cases h : c = sep
    · rw [if_pos h, if_pos (beq_iff_eq.mpr h), ih]
    · rw [if_neg h, if_neg (fun hb => h (beq_iff_eq.mp hb)), ih]
      rcases List.exists_cons_of_ne_nil (List.splitOn_ne_nil sep r) with ⟨p, ps, hp⟩
      rw [hp]
      rfl

theorem splitOn_ne_nil (sep : Char) (cs : List Char) : splitOn sep cs ≠ [] := by
  rw [splitOn_eq]
  exact List.splitOn_ne_nil sep cs

/-- Joined pieces are split into themselves, if the separator stands in none
    of them. -/
theorem splitOn_joinWith (sep : Char) (pieces : List (List Char)) (hne : pieces ≠ [])
    (hsep : ∀ p ∈ pieces, sep ∉ p) : splitOn sep (joinWith sep pieces) = pieces := by
  rw [splitOn_eq, joinWith, List.splitOn_intercalate sep hsep hne]

theorem joinWith_splitOn (sep : Char) (cs : List Char) : joinWith sep (splitOn sep cs) = cs := by
  rw [splitOn_eq, joinWith, List.intercalate_splitOn]

/-- No piece of a text has the separator. -/
theorem not_mem_of_mem_splitOn (sep : Char) (cs p : List Char) (hp : p ∈ splitOn sep cs) :
    sep ∉ p := by
  induction cs generalizing p with
  | nil =>
    rw [splitOn, List.mem_singleton] at hp
    exact hp ▸ List.not_mem_nil
  | cons c r ih =>
    rw [splitOn] at hp
    by_cases h : c = sep
    · rw [if_pos h, List.mem_cons] at hp
      rcases hp with rfl | hp
      · exact List.not_mem_nil
      · exact ih p hp
    · -- The character stands before the first piece of the rest.
      rw [if_neg h] at hp
      rcases List.exists_cons_of_ne_nil (splitOn_ne_nil sep r) with ⟨q, qs, hq⟩
      simp only [hq] at hp ih
      rcases List.mem_cons.mp hp with rfl | hp
      · rw [List.mem_cons, not_or]
        exact ⟨fun he => h he.symm, ih q List.mem_cons_self⟩
      · exact ih p (List.mem_cons_of_mem q hp)

theorem joinWith_singleton (sep : Char) (p : List Char) : joinWith sep [p] = p :=
  List.intercalate_singleton

theorem joinWith_cons_cons (sep : Char) (p q : List Char) (ps : List (List Char)) :
    joinWith sep (p :: q :: ps) = p ++ sep :: joinWith sep (q :: ps) := by
  simp only [joinWith, List.intercalate_cons_cons, List.append_assoc, List.singleton_append]

/-- A character of joined pieces is the separator or comes from a piece. -/
theorem mem_joinWith (sep : Char) (pieces : List (List Char)) (c : Char)
    (h : c ∈ joinWith sep pieces) : c = sep ∨ ∃ p ∈ pieces, c ∈ p := by
  induction pieces with
  | nil => exact absurd h List.not_mem_nil
  | cons p ps ih =>
    cases ps with
    | nil =>
      rw [joinWith, List.intercalate_singleton] at h
      exact Or.inr ⟨p, List.mem_singleton_self p, h⟩
    | cons q qs =>
      rw [joinWith_cons_cons, List.mem_append, List.mem_cons] at h
      rcases h with h | h | h
      · exact Or.inr ⟨p, List.mem_cons_self, h⟩
      · exact Or.inl h
      · rcases ih h with hs | ⟨r, hr, hc⟩
        · exact Or.inl hs
        · exact Or.inr ⟨r, List.mem_cons_of_mem p hr, hc⟩

theorem not_mem_joinWith (sep : Char) (pieces : List (List Char)) (c : Char) (hsep : c ≠ sep)
    (h : ∀ p ∈ pieces, c ∉ p) : c ∉ joinWith sep pieces := by
  intro hc
  rcases mem_joinWith sep pieces c hc with hs | ⟨p, hp, hc⟩
  · exact hsep hs
  · exact h p hp hc

/-- Between each two pieces there is one separator. -/
theorem count_joinWith (sep : Char) (pieces : List (List Char)) (hsep : ∀ p ∈ pieces, sep ∉ p) :
    (joinWith sep pieces).count sep = pieces.length - 1 := by
  induction pieces with
  | nil => rfl
  | cons p ps ih =>
    have hp : p.count sep = 0 := List.count_eq_zero.mpr (hsep p List.mem_cons_self)
    cases ps with
    | nil => rw [joinWith_singleton, hp, List.length_singleton]
    | cons q qs =>
      rw [joinWith_cons_cons, List.count_append, hp, List.count_cons_self,
        ih fun r hr => hsep r (List.mem_cons_of_mem p hr)]
      simp only [List.length_cons]
      omega

/-- A text is cut into two halves exactly when it is the two halves with the
    separator between them and the separator is not in the first one. -/
theorem cut?_eq_some_iff (sep : Char) (cs a b : List Char) :
    cut? sep cs = some (a, b) ↔ cs = a ++ sep :: b ∧ sep ∉ a := by
  induction cs generalizing a with
  | nil => simp [cut?]
  | cons c r ih =>
    rw [cut?]
    by_cases h : c = sep
    · -- The cut is here, so a first half that goes on would have the separator.
      rw [if_pos h, Option.some.injEq, Prod.mk.injEq]
      constructor
      · rintro ⟨rfl, rfl⟩
        exact ⟨by rw [h, List.nil_append], List.not_mem_nil⟩
      · rintro ⟨hcs, ha⟩
        cases a with
        | nil => exact ⟨rfl, (List.cons.inj hcs).2⟩
        | cons x a =>
          rw [List.cons_append, List.cons.injEq] at hcs
          exact absurd (hcs.1 ▸ h ▸ List.mem_cons_self) ha
    · -- The cut is further on, behind this character.
      rw [if_neg h]
      cases a with
      | nil =>
        simp only [Option.map_eq_some_iff, Prod.mk.injEq, reduceCtorEq, false_and, and_false,
          exists_false, false_iff, List.nil_append, List.cons.injEq, not_and]
        exact fun hc => absurd hc.1 h
      | cons x a =>
        simp only [Option.map_eq_some_iff, Prod.mk.injEq, Prod.exists, List.cons.injEq,
          List.cons_append, List.mem_cons, not_or]
        constructor
        · rintro ⟨a', b', hr, ⟨rfl, rfl⟩, rfl⟩
          rcases (ih a').mp hr with ⟨hr, ha⟩
          exact ⟨⟨rfl, hr⟩, fun hc => h hc.symm, ha⟩
        · rintro ⟨⟨rfl, hr⟩, _, ha⟩
          exact ⟨a, b, (ih a).mpr ⟨hr, ha⟩, ⟨rfl, rfl⟩, rfl⟩

theorem cut?_append (sep : Char) (a b : List Char) (h : sep ∉ a) :
    cut? sep (a ++ sep :: b) = some (a, b) :=
  (cut?_eq_some_iff sep _ a b).mpr ⟨rfl, h⟩

theorem cut?_eq_none_iff (sep : Char) (cs : List Char) : cut? sep cs = none ↔ sep ∉ cs := by
  induction cs with
  | nil => exact iff_of_true rfl List.not_mem_nil
  | cons c r ih =>
    rw [cut?, List.mem_cons, not_or, ← ih]
    by_cases h : c = sep
    · rw [if_pos h]
      exact iff_of_false (Option.some_ne_none _) fun hc => hc.1 h.symm
    · rw [if_neg h, Option.map_eq_none_iff]
      exact ⟨fun hc => ⟨fun he => h he.symm, hc⟩, fun hc => hc.2⟩

/-- A text is empty or ends in a separator. -/
def EndsWith (sep : Char) (cs : List Char) : Prop :=
  cs = [] ∨ ∃ front, cs = front ++ [sep]

theorem endsWith_cons (sep c : Char) (cs : List Char) (h : EndsWith sep cs)
    (hc : cs ≠ [] ∨ c = sep) : EndsWith sep (c :: cs) := by
  rcases h with rfl | ⟨front, rfl⟩
  · rcases hc with hc | hc
    · exact absurd rfl hc
    · exact Or.inr ⟨[], by rw [hc, List.nil_append]⟩
  · exact Or.inr ⟨c :: front, rfl⟩

/-- A text is taken apart after its last separator: nothing is lost, the first
    half ends in the separator if there is one, the second half has none. -/
theorem throughLast_spec (sep : Char) (cs : List Char) :
    (throughLast sep cs).1 ++ (throughLast sep cs).2 = cs ∧
      EndsWith sep (throughLast sep cs).1 ∧ sep ∉ (throughLast sep cs).2 := by
  induction cs with
  | nil => exact ⟨rfl, Or.inl rfl, List.not_mem_nil⟩
  | cons c r ih =>
    rcases hr : throughLast sep r with ⟨a, b⟩
    rw [hr] at ih
    rcases ih with ⟨happ, hend, hb⟩
    simp only [throughLast, hr]
    by_cases h : (a.isEmpty && decide (c ≠ sep)) = true
    · -- There is no separator yet, and this is none either.
      rw [if_pos h]
      rw [Bool.and_eq_true, List.isEmpty_iff, decide_eq_true_eq] at h
      simp only [] at happ hb ⊢
      rw [h.1, List.nil_append] at happ
      refine ⟨by rw [List.nil_append, happ], Or.inl rfl, ?_⟩
      rw [List.mem_cons, not_or]
      exact ⟨fun he => h.2 he.symm, hb⟩
    · rw [if_neg h]
      refine ⟨congrArg (c :: ·) happ, endsWith_cons sep c a hend ?_, hb⟩
      rw [Bool.and_eq_true, List.isEmpty_iff, decide_eq_true_eq, Classical.not_and_iff_not_or_not,
        Classical.not_not] at h
      exact h

/-- What stands at the end of a text that ends in a separator, and has none,
    is nothing. -/
theorem eq_nil_of_endsWith (sep : Char) (a d : List Char) (h : EndsWith sep (a ++ d))
    (hd : sep ∉ d) : d = [] := by
  rcases h with h | ⟨front, h⟩
  · exact (List.append_eq_nil_iff.mp h).2
  · rcases List.eq_nil_or_concat d with rfl | ⟨l, x, rfl⟩
    · rfl
    · rw [List.concat_eq_append, ← List.append_assoc] at h
      have hx : [x] = [sep] := List.append_inj_right' h rfl
      rw [List.concat_eq_append, hx] at hd
      exact absurd (List.mem_append_right l (List.mem_singleton_self sep)) hd

theorem eq_of_append_of_endsWith (sep : Char) (a b a' b' : List Char) (h : a ++ b = a' ++ b')
    (ha : EndsWith sep a) (hb : sep ∉ b) (ha' : EndsWith sep a') (hb' : sep ∉ b') : a = a' := by
  -- One first half is the other one and something without a separator.
  rcases List.append_eq_append_iff.mp h with ⟨d, hd, hd'⟩ | ⟨d, hd, hd'⟩
  · rw [hd] at ha' ⊢
    rw [hd', List.mem_append, not_or] at hb
    rw [eq_nil_of_endsWith sep a d ha' hb.1, List.append_nil]
  · rw [hd] at ha ⊢
    rw [hd', List.mem_append, not_or] at hb'
    rw [eq_nil_of_endsWith sep a' d ha hb'.1, List.append_nil]

/-- A text is taken apart at its last separator in one way. -/
theorem append_cons_inj_of_not_mem (sep : Char) (a b a' b' : List Char)
    (h : a ++ sep :: b = a' ++ sep :: b') (hb : sep ∉ b) (hb' : sep ∉ b') : a = a' ∧ b = b' := by
  have hfront : a ++ [sep] = a' ++ [sep] := by
    refine eq_of_append_of_endsWith sep _ b _ b' ?_ (Or.inr ⟨a, rfl⟩) hb (Or.inr ⟨a', rfl⟩) hb'
    rw [List.append_assoc, List.append_assoc, List.singleton_append, List.singleton_append, h]
  have ha : a = a' := List.append_inj_left' hfront rfl
  rw [ha, List.append_cancel_left_eq, List.cons.injEq] at h
  exact ⟨ha, h.2⟩

/-- A base and what follows it are told apart again, if the base is empty or
    ends in the separator and the separator is not in what follows. -/
theorem throughLast_append (sep : Char) (a b : List Char) (ha : EndsWith sep a) (hb : sep ∉ b) :
    throughLast sep (a ++ b) = (a, b) := by
  rcases throughLast_spec sep (a ++ b) with ⟨happ, hend, hnot⟩
  have h := eq_of_append_of_endsWith sep _ _ _ _ happ hend hnot ha hb
  rw [h] at happ
  exact Prod.ext h (List.append_cancel_left happ)

theorem stripStart?_eq_some_iff (start cs r : List Char) :
    stripStart? start cs = some r ↔ cs = start ++ r := by
  induction start generalizing cs with
  | nil => rw [stripStart?, Option.some.injEq, List.nil_append]
  | cons p ps ih =>
    cases cs with
    | nil => simp [stripStart?]
    | cons c cs =>
      rw [stripStart?, List.cons_append, List.cons.injEq, ← ih]
      by_cases h : p = c
      · rw [if_pos h]
        exact ⟨fun hs => ⟨h.symm, hs⟩, fun hs => hs.2⟩
      · rw [if_neg h]
        exact iff_of_false (Option.some_ne_none r).symm fun hs => h hs.1.symm

theorem stripEnd?_eq_some_iff (ending cs r : List Char) :
    stripEnd? ending cs = some r ↔ cs = r ++ ending := by
  rw [stripEnd?, Option.map_eq_some_iff]
  constructor
  · rintro ⟨s, hs, rfl⟩
    rw [stripStart?_eq_some_iff] at hs
    rw [← List.reverse_reverse cs, hs, List.reverse_append, List.reverse_reverse]
  · rintro rfl
    exact ⟨r.reverse, by rw [stripStart?_eq_some_iff, List.reverse_append], List.reverse_reverse r⟩

/-- The longest beginning of characters of a kind, where another character
    follows them. -/
theorem takeWhile_append_cons (kind : Char → Bool) (a r : List Char) (c : Char)
    (ha : ∀ x ∈ a, kind x = true) (hc : kind c = false) :
    (a ++ c :: r).takeWhile kind = a := by
  rw [List.takeWhile_append_of_pos ha,
    List.takeWhile_cons_of_neg (by rw [hc]; exact Bool.noConfusion), List.append_nil]

theorem dropWhile_append_cons (kind : Char → Bool) (a r : List Char) (c : Char)
    (ha : ∀ x ∈ a, kind x = true) (hc : kind c = false) :
    (a ++ c :: r).dropWhile kind = c :: r := by
  rw [List.dropWhile_append_of_pos ha,
    List.dropWhile_cons_of_neg (by rw [hc]; exact Bool.noConfusion)]

/-- A character of another kind stays behind. -/
theorem mem_dropWhile (kind : Char → Bool) (c : Char) (hc : kind c = false) (cs : List Char)
    (h : c ∈ cs) : c ∈ cs.dropWhile kind := by
  induction cs with
  | nil => exact h
  | cons d r ih =>
    rw [List.dropWhile_cons]
    split
    · next hd =>
      have hne : c ≠ d := by
        rintro rfl
        exact absurd (hc.symm.trans hd) Bool.noConfusion
      exact ih (List.mem_of_ne_of_mem hne h)
    · exact h

-- What precedes the first separator, or the whole text if there is none.
theorem cut?_getD_fst (sep : Char) (cs : List Char) :
    ((cut? sep cs).getD (cs, [])).1 = cs.takeWhile (· ≠ sep) := by
  cases h : cut? sep cs with
  | none =>
    have hnot := (cut?_eq_none_iff sep cs).mp h
    rw [Option.getD_none, List.takeWhile_eq_self_iff.mpr]
    exact fun c hc => decide_eq_true (ne_of_mem_of_not_mem hc hnot)
  | some ab =>
    rcases ab with ⟨a, b⟩
    rcases (cut?_eq_some_iff sep cs a b).mp h with ⟨rfl, ha⟩
    rw [Option.getD_some, takeWhile_append_cons _ a b sep _ (by simp)]
    exact fun c hc => decide_eq_true (ne_of_mem_of_not_mem hc ha)

-- What follows the last separator, or the whole text if there is none.
theorem throughLast_snd (sep : Char) (cs : List Char) :
    (throughLast sep cs).2 = cs.rtakeWhile (· ≠ sep) := by
  rcases throughLast_spec sep cs with ⟨happ, hend, hnot⟩
  have hkept : ∀ c ∈ (throughLast sep cs).2.reverse, decide (c ≠ sep) = true := fun c hc =>
    decide_eq_true (ne_of_mem_of_not_mem (List.mem_reverse.mp hc) hnot)
  have hstop : (throughLast sep cs).1.reverse.takeWhile (· ≠ sep) = [] := by
    rcases hend with hnil | ⟨front, hfront⟩
    · rw [hnil, List.reverse_nil, List.takeWhile_nil]
    · rw [hfront, List.reverse_concat, List.takeWhile_cons_of_neg (by simp)]
  conv_rhs => rw [← happ]
  rw [List.rtakeWhile, List.reverse_append, List.takeWhile_append_of_pos hkept, hstop,
    List.append_nil, List.reverse_reverse]

end Text

end TagCatalog
