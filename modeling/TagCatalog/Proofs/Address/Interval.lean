import TagCatalog.Address.Interval
import TagCatalog.Proofs.Text.Split

/-!
# The Form of Intervals

Which texts are read as intervals, and with which bounds.

A text may be put together from two bounds in several ways when the bounds
have commas in them. Reading takes the last comma that leaves something
behind it, so among these ways the one is read whose upper bound has no comma
except perhaps as its very last character. `read?_eq_some_iff` is that
statement. It is exact in both directions, because writing and reading an
interval is exactly as faithful as it says.

`read?_eq_none_iff` forgets which bounds are read: a text is no interval when
it cannot be put together from two bounds at all.

## Main definitions

* `IsInterval`: A text that can be put together from two bounds.

## Theorems

* `lastComma?_eq_some_iff`, `lastComma?_eq_none_iff`: The last comma with
  something behind it.
* `read?_eq_some_iff`: The bounds that are read.
* `read?_eq_none_iff`: The texts that are no intervals.
-/

namespace TagCatalog

namespace Interval

open Text

theorem lastComma?_eq_none_iff (cs : List Char) : lastComma? cs = none ↔ ',' ∉ cs.dropLast := by
  induction cs with
  | nil => exact iff_of_true rfl List.not_mem_nil
  | cons c r ih =>
    cases r with
    | nil => simp [lastComma?]
    | cons d r =>
      rw [List.dropLast_cons_of_ne_nil (List.cons_ne_nil d r), List.mem_cons, not_or, ← ih,
        lastComma?]
      cases h : lastComma? (d :: r) with
      | some ab => exact iff_of_false (Option.some_ne_none _) fun hc => Option.some_ne_none _ hc.2
      | none =>
        by_cases hc : c = ','
        · rw [if_pos ⟨hc, List.cons_ne_nil d r⟩]
          exact iff_of_false (Option.some_ne_none _) fun hn => hn.1 hc.symm
        · rw [if_neg fun hn => hc hn.1]
          exact iff_of_true rfl ⟨fun hn => hc hn.symm, rfl⟩

/-- Of all ways to cut a text at a comma with something behind it, the one is
    taken that leaves no other such comma. -/
theorem lastComma?_eq_some_iff (cs a b : List Char) :
    lastComma? cs = some (a, b) ↔ cs = a ++ ',' :: b ∧ b ≠ [] ∧ ',' ∉ b.dropLast := by
  induction cs generalizing a with
  | nil => simp [lastComma?]
  | cons c r ih =>
    rw [lastComma?]
    cases h : lastComma? r with
    | some ab =>
      rcases ab with ⟨a', b'⟩
      rw [Option.some.injEq, Prod.mk.injEq]
      have hr := (ih a').mp
      cases a with
      | nil =>
        -- A cut at the first character would leave the comma that `r` has.
        refine iff_of_false (fun hc => List.cons_ne_nil _ _ hc.1) fun hc => ?_
        rw [List.nil_append, List.cons.injEq] at hc
        rw [← hc.1.2, ← lastComma?_eq_none_iff, h] at hc
        exact Option.some_ne_none _ hc.2.2
      | cons x a =>
        rw [List.cons_append, List.cons.injEq, List.cons.injEq, and_assoc, and_assoc, ← ih a, h,
          Option.some.injEq, Prod.mk.injEq]
    | none =>
      have hnone : ',' ∉ r.dropLast := (lastComma?_eq_none_iff r).mp h
      by_cases hc : c = ',' ∧ r ≠ []
      · rw [if_pos hc, Option.some.injEq, Prod.mk.injEq]
        constructor
        · rintro ⟨rfl, rfl⟩
          exact ⟨by rw [hc.1, List.nil_append], hc.2, hnone⟩
        · rintro ⟨hcs, hb, hd⟩
          cases a with
          | nil => exact ⟨rfl, (List.cons.inj hcs).2⟩
          | cons x a =>
            rw [List.cons_append, List.cons.injEq] at hcs
            have := (ih a).mpr ⟨hcs.2, hb, hd⟩
            rw [h] at this
            exact absurd this.symm (Option.some_ne_none _)
      · rw [if_neg hc]
        refine iff_of_false (Option.some_ne_none _).symm ?_
        rintro ⟨hcs, hb, hd⟩
        cases a with
        | nil =>
          rw [List.nil_append, List.cons.injEq] at hcs
          exact hc ⟨hcs.1, hcs.2 ▸ hb⟩
        | cons x a =>
          rw [List.cons_append, List.cons.injEq] at hcs
          have := (ih a).mpr ⟨hcs.2, hb, hd⟩
          rw [h] at this
          exact absurd this.symm (Option.some_ne_none _)

/-- A text that can be put together from two bounds. -/
def IsInterval (cs : List Char) : Prop :=
  ∃ low high, cs = '(' :: low ++ ',' :: high ++ [')'] ∧ low ≠ [] ∧ high ≠ [] ∧
    '\n' ∉ low ∧ '\n' ∉ high

theorem no_lineFeed_iff (c : Char) (a b : List Char) :
    '\n' ∉ c :: (a ++ ',' :: b) ↔ '\n' ∉ c :: a ∧ '\n' ∉ b := by
  have hcomma : '\n' ≠ ',' := by decide
  simp only [List.mem_cons, List.mem_append, not_or, hcomma, not_false_eq_true, true_and, and_assoc]

/-- The two bounds that are read: neither is empty nor has a line feed, and no
    comma in the upper one has something behind it. -/
theorem read?_eq_some_iff (cs low high : List Char) :
    read? cs = some (low, high) ↔ cs = '(' :: low ++ ',' :: high ++ [')'] ∧ low ≠ [] ∧
      high ≠ [] ∧ '\n' ∉ low ∧ '\n' ∉ high ∧ ',' ∉ high.dropLast := by
  unfold read?
  constructor
  · intro h
    split at h
    · exact absurd h.symm (Option.some_ne_none _)
    · next inner hinner =>
      split at h
      · next c r hr =>
        split at h
        · exact absurd h.symm (Option.some_ne_none _)
        · next hlf =>
          rcases Option.map_eq_some_iff.mp h with ⟨⟨a, b⟩, hab, heq⟩
          rcases Prod.mk.inj heq with ⟨rfl, rfl⟩
          rcases (lastComma?_eq_some_iff r a b).mp hab with ⟨rfl, hb, hcomma⟩
          rw [stripStart?_eq_some_iff] at hinner
          rw [stripEnd?_eq_some_iff] at hr
          rw [no_lineFeed_iff] at hlf
          exact ⟨by rw [hinner, hr]; rfl, List.cons_ne_nil c a, hb, hlf.1, hlf.2, hcomma⟩
      · exact absurd h.symm (Option.some_ne_none _)
  · rintro ⟨rfl, hlow, hhigh, hl, hh, hcomma⟩
    rcases List.exists_cons_of_ne_nil hlow with ⟨c, a, rfl⟩
    have hstart : stripStart? ['('] ('(' :: (c :: a) ++ ',' :: high ++ [')']) =
        some (c :: (a ++ ',' :: high) ++ [')']) := by
      rw [stripStart?_eq_some_iff]
      rfl
    have hend : stripEnd? [')'] (c :: (a ++ ',' :: high) ++ [')']) =
        some (c :: (a ++ ',' :: high)) := by
      rw [stripEnd?_eq_some_iff]
    have hlf : '\n' ∉ c :: (a ++ ',' :: high) := (no_lineFeed_iff c a high).mpr ⟨hl, hh⟩
    have hlast : lastComma? (a ++ ',' :: high) = some (a, high) :=
      (lastComma?_eq_some_iff _ a high).mpr ⟨rfl, hhigh, hcomma⟩
    simp only [hstart, hend, if_neg hlf, hlast, Option.map_some]

/-- A text is read as no interval exactly when it cannot be put together from
    two bounds. -/
theorem read?_eq_none_iff (cs : List Char) : read? cs = none ↔ ¬ IsInterval cs := by
  constructor
  · rintro h ⟨low, high, rfl, hlow, hhigh, hl, hh⟩
    rcases List.exists_cons_of_ne_nil hlow with ⟨c, a, rfl⟩
    -- Some comma has something behind it, so a last such comma is found.
    have hmem : ',' ∈ (a ++ ',' :: high).dropLast := by
      rw [List.dropLast_append_of_ne_nil (List.cons_ne_nil _ _),
        List.dropLast_cons_of_ne_nil hhigh]
      exact List.mem_append_right a List.mem_cons_self
    cases hlast : lastComma? (a ++ ',' :: high) with
    | none => exact (lastComma?_eq_none_iff _).mp hlast hmem
    | some ab =>
      rcases ab with ⟨a', b'⟩
      rcases (lastComma?_eq_some_iff _ a' b').mp hlast with ⟨heq, hb, hcomma⟩
      have hlf := (no_lineFeed_iff c a high).mpr ⟨hl, hh⟩
      rw [heq, no_lineFeed_iff] at hlf
      have hread := (read?_eq_some_iff ('(' :: (c :: a') ++ ',' :: b' ++ [')']) (c :: a') b').mpr
        ⟨rfl, List.cons_ne_nil c a', hb, hlf.1, hlf.2, hcomma⟩
      have hsame : '(' :: (c :: a) ++ ',' :: high ++ [')'] =
          '(' :: (c :: a') ++ ',' :: b' ++ [')'] := by
        simp only [List.cons_append, heq]
      rw [hsame, hread] at h
      exact Option.some_ne_none _ h
  · intro h
    cases hr : read? cs with
    | none => rfl
    | some b =>
      rcases b with ⟨low, high⟩
      rcases (read?_eq_some_iff cs low high).mp hr with ⟨hcs, hlow, hhigh, hl, hh, _⟩
      exact absurd ⟨low, high, hcs, hlow, hhigh, hl, hh⟩ h

end Interval

end TagCatalog
