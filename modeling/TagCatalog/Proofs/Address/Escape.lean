import TagCatalog.Proofs.Address.Item

/-!
# Escaped Texts

What an escaped text is made of, and that escaping loses nothing.

Names and values are escaped before they are put into an address, and an address is
escaped before it is put into a link. Both leave ASCII letters and digits and some marks
as they are. The marks are fewer for a name, and none of them means anything in an
address. All else is written in bytes, each as a percent sign with two digits behind it.

`IsEscaped` says so of a text without a word on what it was written for. A percent sign
belongs to a byte wherever in the text it stands, and so the condition is on every suffix
that begins with one. It passes from a text to the same text with a character or with a
coded byte in front, `EveryPercentCodes.cons` and `EveryPercentCodes.codedByte`, and with
these it follows the way a text is written, one character after another.

Reading needs no such condition. It is defined for every text, and what has no percent
sign is read as it stands.

## Main definitions

* `Percent.isUpperHex`: The digits that are written.
* `Percent.EveryPercentCodes`: Behind each percent sign stand two of them.
* `Percent.IsEscaped`: Made of letters, digits, some marks and coded bytes.

## Theorems

* `EveryPercentCodes.cons`, `EveryPercentCodes.codedByte`: Written texts that grow.
* `everyPercentCodes_encode`: Each percent sign that is written codes a byte.
* `isEscaped_encode`, `isEscaped_escape`, `isEscaped_escapeComponent`: What escaped texts
  are made of.
* `unescape_of_not_mem`: What has no percent sign is read as it stands.
* `unescape_eq_empty_iff`: Only nothing is read as the empty text.
* `escaping_invertible`: Escaping loses nothing and writes no mark of the grammar.
-/

namespace TagCatalog

namespace Percent

/-- A digit with which bytes are written. -/
def isUpperHex (c : Char) : Bool :=
  ('0' ≤ c && c ≤ '9') || ('A' ≤ c && c ≤ 'F')

/-- Behind each percent sign stand two digits. -/
def EveryPercentCodes (cs : List Char) : Prop :=
  ∀ r, '%' :: r <:+ cs → ∃ a b t, r = a :: b :: t ∧ isUpperHex a = true ∧ isUpperHex b = true

/-- A text of ASCII letters and digits, the given marks and coded bytes. -/
structure IsEscaped (marks : List Char) (cs : List Char) : Prop where
  alphabet : ∀ c ∈ cs, c.isAlphanum = true ∨ c ∈ marks ∨ c = '%'
  coded : EveryPercentCodes cs

theorem isUpperHex_hexDigit : ∀ n < 16, isUpperHex (hexDigit n) = true := by
  decide

theorem hexDigit_ne_percent : ∀ n < 16, hexDigit n ≠ '%' := by
  decide

theorem everyPercentCodes_nil : EveryPercentCodes [] :=
  fun _ h => absurd (List.suffix_nil.mp h) (List.cons_ne_nil _ _)

/-- Another character in front begins no coded byte. -/
theorem EveryPercentCodes.cons {c : Char} {cs : List Char} (hc : c ≠ '%')
    (h : EveryPercentCodes cs) : EveryPercentCodes (c :: cs) := by
  intro r hr
  rcases List.suffix_cons_iff.mp hr with heq | hr
  · exact absurd (List.cons.inj heq).1.symm hc
  · exact h r hr

/-- A coded byte in front has one percent sign, and two digits behind it. -/
theorem EveryPercentCodes.codedByte {cs : List Char} (b : UInt8) (h : EveryPercentCodes cs) :
    EveryPercentCodes (codedByte b ++ cs) := by
  have hb : b.toNat < 256 := b.toNat_lt
  have hhigh : b.toNat / 16 < 16 := by omega
  have hlow : b.toNat % 16 < 16 := by omega
  intro r hr
  -- A percent sign is either the one in front or stands behind the two digits.
  rcases List.suffix_cons_iff.mp hr with heq | hr
  · exact ⟨_, _, cs, (List.cons.inj heq).2, isUpperHex_hexDigit _ hhigh,
      isUpperHex_hexDigit _ hlow⟩
  · exact (h.cons (hexDigit_ne_percent _ hlow)).cons (hexDigit_ne_percent _ hhigh) r hr

/-- The same for all bytes of a character. -/
theorem EveryPercentCodes.codedBytes {cs : List Char} (bs : List UInt8)
    (h : EveryPercentCodes cs) : EveryPercentCodes (bs.flatMap Percent.codedByte ++ cs) := by
  induction bs with
  | nil => exact h
  | cons b bs ih =>
    rw [List.flatMap_cons, List.append_assoc]
    exact ih.codedByte b

/-- Each percent sign that is written codes a byte, since none stays as it is. -/
theorem everyPercentCodes_encode (keep : Char → Bool) (hkeep : keep '%' = false)
    (cs : List Char) : EveryPercentCodes (encode keep cs) := by
  unfold encode
  induction cs with
  | nil => exact everyPercentCodes_nil
  | cons c cs ih =>
    rw [List.flatMap_cons]
    by_cases hc : keep c = true
    · rw [if_pos hc, List.singleton_append]
      exact ih.cons (ne_percent_of_kept hkeep hc)
    · rw [if_neg hc]
      exact ih.codedBytes _

/-- A written text has only letters, digits, marks that stay and coded bytes. -/
theorem isEscaped_encode {keep : Char → Bool} {marks : List Char} (hkeep : keep '%' = false)
    (hdigits : HoldsDigits keep) (hmarks : ∀ c, keep c = true → c.isAlphanum = true ∨ c ∈ marks)
    (cs : List Char) :
    IsEscaped marks (encode keep cs) where
  alphabet := by
    intro c hc
    rcases mem_encode hdigits hc with hkept | hpercent
    · exact (hmarks c hkept).imp_right Or.inl
    · exact Or.inr (Or.inr hpercent)
  coded := everyPercentCodes_encode keep hkeep cs

/-- Without a percent sign a text stands for its own bytes. -/
theorem decodeBytes_of_not_mem (cs : List Char) (h : '%' ∉ cs) :
    decodeBytes cs = Utf8.bytes cs := by
  induction cs with
  | nil => rfl
  | cons c cs ih =>
    rw [List.mem_cons, not_or] at h
    rw [decodeBytes_cons c cs (Ne.symm h.1), ih h.2, Utf8.bytes, Utf8.bytes, List.flatMap_cons]

end Percent

open Percent

theorem isEscaped_escape (s : String) : IsEscaped ['-', '_', '.', '*'] (escape s) :=
  isEscaped_encode rfl holdsDigits_name
    (fun c hc => by simpa [keptInName, or_assoc] using hc) s.toList

theorem isEscaped_escapeComponent (s : String) :
    IsEscaped ['-', '_', '.', '*', '!', '~', '\'', '(', ')'] (escapeComponent s) :=
  isEscaped_encode rfl holdsDigits_component
    (fun c hc => by simpa [keptInComponent, keptInName, or_assoc] using hc) s.toList

/-- What has no percent sign is read as it stands. -/
theorem unescape_of_not_mem (cs : List Char) (h : '%' ∉ cs) : unescape cs = String.ofList cs := by
  rw [unescape, decode, decodeBytes_of_not_mem cs h, Utf8.decode_bytes]

/-- Only nothing is read as the empty text, whatever bytes a text stands for. -/
theorem unescape_eq_empty_iff (cs : List Char) : unescape cs = "" ↔ cs = [] := by
  constructor
  · intro h
    by_contra hne
    exact unescape_ne_empty cs hne h
  · rintro rfl
    rfl

/-- An escaped text is read as what it was written for, and so no two texts are escaped
    alike. It is made of ASCII letters and digits, a few marks and coded bytes, an escaped
    name has no mark of the grammar, and only the empty text is escaped as nothing. Every
    text can be read, something never as nothing, and what has no percent sign is read as
    it stands. -/
theorem escaping_invertible :
    (∀ s, unescape (escape s) = s ∧ (escape s = [] ↔ s = "") ∧
      IsEscaped ['-', '_', '.', '*'] (escape s) ∧ ∀ c ∈ escape s, isPlain c = true) ∧
    (∀ s, unescape (escapeComponent s) = s ∧ (escapeComponent s = [] ↔ s = "") ∧
      IsEscaped ['-', '_', '.', '*', '!', '~', '\'', '(', ')'] (escapeComponent s)) ∧
    Function.Injective escape ∧ Function.Injective escapeComponent ∧
    ∀ cs, (unescape cs = "" ↔ cs = []) ∧ ('%' ∉ cs → unescape cs = String.ofList cs) := by
  refine ⟨fun s => ?_, fun s => ?_, escape_injective, escapeComponent_injective, fun cs => ?_⟩
  · exact ⟨unescape_escape s, escape_eq_nil_iff s, isEscaped_escape s, isPlain_of_mem_escape s⟩
  · exact ⟨unescape_escapeComponent s, escapeComponent_eq_nil_iff s, isEscaped_escapeComponent s⟩
  · exact ⟨unescape_eq_empty_iff cs, unescape_of_not_mem cs⟩

/-- A text with a mark of the grammar and a character of two bytes is read as it stands,
    and as itself again after it was escaped. -/
theorem escaping_invertible_accent :
    '%' ∉ "(é)".toList ∧ unescape "(é)".toList = "(é)" ∧
      escape "(é)" = "%28%C3%A9%29".toList ∧ unescape "%28%C3%A9%29".toList = "(é)" := by
  have hplain : '%' ∉ "(é)".toList := by decide
  have hwritten : escape "(é)" = "%28%C3%A9%29".toList := by decide
  rcases escaping_invertible with ⟨hname, _, _, _, hread⟩
  refine ⟨hplain, (hread _).2 hplain, hwritten, ?_⟩
  rw [← hwritten]
  exact (hname "(é)").1

end TagCatalog
