import TagCatalog.Proofs.Number.Numeral
import TagCatalog.Time.Zone

/-!
# The Form of Zone Suffixes

What the text that follows a point in time is made of.

Readers of addresses need little of it: that it is never empty and that no
mark of an interval comes from inside it. Both follow from the characters it
is made of, and these are digits, a sign and a colon. Whoever reads with another
zone than was written with needs that no suffix ends in another one.

## Theorems

* `mem_suffix`: The characters of a suffix.
* `not_mem_suffix`: A character that is no digit, sign or colon.
* `suffix_ne_nil`: A suffix is never empty.
* `length_suffix`: All suffixes have the same length.
-/

namespace TagCatalog

namespace Zone

theorem isDigit_of_mem_twoDigits (n : Nat) (c : Char) (h : c ∈ twoDigits n) : c.isDigit = true := by
  unfold twoDigits at h
  split at h
  · rcases List.mem_cons.mp h with rfl | h
    · rfl
    · exact Numeral.isDigit_of_mem_ofNat n c h
  · exact Numeral.isDigit_of_mem_ofNat n c h

/-- A suffix is made of digits, a sign and a colon. -/
theorem mem_suffix (zone : Zone) (c : Char) (h : c ∈ zone.suffix.toList) :
    c = '+' ∨ c = '-' ∨ c = ':' ∨ c.isDigit = true := by
  simp only [suffix, String.toList_ofList, List.mem_cons, List.mem_append] at h
  rcases h with h | h | h | h
  · split at h
    · exact Or.inr (Or.inl h)
    · exact Or.inl h
  · exact Or.inr (Or.inr (Or.inr (isDigit_of_mem_twoDigits _ c h)))
  · exact Or.inr (Or.inr (Or.inl h))
  · exact Or.inr (Or.inr (Or.inr (isDigit_of_mem_twoDigits _ c h)))

theorem not_mem_suffix (zone : Zone) (c : Char)
    (h : c ≠ '+' ∧ c ≠ '-' ∧ c ≠ ':' ∧ c.isDigit = false) : c ∉ zone.suffix.toList := by
  intro hc
  rcases mem_suffix zone c hc with he | he | he | he
  · exact h.1 he
  · exact h.2.1 he
  · exact h.2.2.1 he
  · rw [h.2.2.2] at he
    exact Bool.noConfusion he

theorem suffix_ne_nil (zone : Zone) : zone.suffix.toList ≠ [] := by
  unfold suffix
  rw [String.toList_ofList]
  exact List.cons_ne_nil _ _

theorem length_twoDigits : ∀ n < 100, (twoDigits n).length = 2 := by
  decide

/-- All suffixes have the same length, because hours and minutes have two digits. -/
theorem length_suffix (zone : Zone) : zone.suffix.toList.length = 6 := by
  have hday := zone.within_day
  have hhours := length_twoDigits (zone.seconds.natAbs / 60 / 60) (by omega)
  have hminutes := length_twoDigits (zone.seconds.natAbs / 60 % 60) (by omega)
  simp only [suffix, String.toList_ofList, List.length_cons, List.length_append, hhours, hminutes]

end Zone

end TagCatalog
