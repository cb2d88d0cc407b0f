import TagCatalog.Proofs.Text.Utf8
import TagCatalog.Text.Percent

/-!
# Reading Back Percent Coding

A percent-coded text is read as the text it was written for. Reading takes the
characters to bytes first and the bytes to characters afterwards, so the
statement splits at the bytes: `decodeBytes_encode` says that the bytes of the
written text are those of the original one, whatever text follows, and
`Utf8.decode_bytes` does the rest.

The characters that stay must not contain the percent sign. That is the only
condition on `keep`, and both alphabets meet it, so names and whole addresses
share one proof.

`mem_encode` is the other half of the design. Where the digits stay, as they do
in both alphabets, a written text has only characters that stay and percent
signs, which is why no mark of a grammar can come from inside a name.

## Main definitions

* `HoldsDigits`: The characters that stay hold the hexadecimal digits.

## Theorems

* `decodeBytes_encode`: The bytes of a written text.
* `decode_encode`: A written text is read as itself.
* `unescape_escape`, `unescape_escapeComponent`: The same for names and for
  whole addresses.
* `holdsDigits_name`, `holdsDigits_component`: Both alphabets do.
* `mem_encode`, `not_mem_encode`: The characters of a written text.
* `escape_eq_nil_iff`: Only the empty text is written as nothing.
* `unescape_ne_empty`: Something is never read as the empty text.
-/

namespace TagCatalog

namespace Percent

theorem hexValue?_hexDigit : ∀ n < 16, hexValue? (hexDigit n) = some n := by
  decide

theorem isAlphanum_hexDigit : ∀ n < 16, (hexDigit n).isAlphanum = true := by
  decide

/-- The three characters of a byte are read as that byte. -/
theorem decodeBytes_codedByte (b : UInt8) (r : List Char) :
    decodeBytes (codedByte b ++ r) = b :: decodeBytes r := by
  have hb : b.toNat < 256 := b.toNat_lt
  have hval : 16 * (b.toNat / 16) + b.toNat % 16 = b.toNat := by omega
  simp only [codedByte, List.cons_append, List.nil_append, decodeBytes,
    hexValue?_hexDigit _ (by omega : b.toNat / 16 < 16),
    hexValue?_hexDigit _ (by omega : b.toNat % 16 < 16), hval, UInt8.ofNat_toNat]

theorem decodeBytes_codedBytes (bs : List UInt8) (r : List Char) :
    decodeBytes (bs.flatMap codedByte ++ r) = bs ++ decodeBytes r := by
  induction bs with
  | nil => rfl
  | cons b bs ih =>
    rw [List.flatMap_cons, List.append_assoc, decodeBytes_codedByte, ih, List.cons_append]

/-- A character other than the percent sign stands for itself. -/
theorem decodeBytes_cons (c : Char) (r : List Char) (h : c ≠ '%') :
    decodeBytes (c :: r) = String.utf8EncodeChar c ++ decodeBytes r := by
  rw [decodeBytes]
  intro a b s hc
  exact absurd hc h

/-- A character that stays is no percent sign. -/
theorem ne_percent_of_kept {keep : Char → Bool} (hkeep : keep '%' = false) {c : Char}
    (hc : keep c = true) : c ≠ '%' := by
  intro h
  rw [h, hkeep] at hc
  exact Bool.noConfusion hc

/-- The bytes of a written text are those of the text, and reading goes on
    with what follows. -/
theorem decodeBytes_encode (keep : Char → Bool) (hkeep : keep '%' = false) (cs r : List Char) :
    decodeBytes (encode keep cs ++ r) = Utf8.bytes cs ++ decodeBytes r := by
  unfold encode Utf8.bytes
  induction cs with
  | nil => rfl
  | cons c cs ih =>
    rw [List.flatMap_cons, List.flatMap_cons, List.append_assoc, List.append_assoc, ← ih]
    by_cases hc : keep c = true
    · -- A character that stays is read as itself, since it is no percent sign.
      rw [if_pos hc, List.singleton_append, decodeBytes_cons _ _ (ne_percent_of_kept hkeep hc)]
    · rw [if_neg hc, decodeBytes_codedBytes]

/-- A written text is read as itself. -/
theorem decode_encode (keep : Char → Bool) (hkeep : keep '%' = false) (cs : List Char) :
    decode (encode keep cs) = cs := by
  have h := decodeBytes_encode keep hkeep cs []
  rw [List.append_nil, decodeBytes, List.append_nil] at h
  rw [decode, h, Utf8.decode_bytes]

/-- The characters that stay hold the digits with which bytes are written. -/
def HoldsDigits (keep : Char → Bool) : Prop := ∀ n < 16, keep (hexDigit n) = true

theorem holdsDigits_name : HoldsDigits keptInName := fun n hn => by
  rw [keptInName, isAlphanum_hexDigit n hn]
  rfl

theorem holdsDigits_component : HoldsDigits keptInComponent := fun n hn => by
  rw [keptInComponent, holdsDigits_name n hn]
  rfl

/-- A written text has only characters that stay and percent signs. -/
theorem mem_encode {keep : Char → Bool} (hdigits : HoldsDigits keep) {cs : List Char} {c : Char}
    (h : c ∈ encode keep cs) : keep c = true ∨ c = '%' := by
  rcases List.mem_flatMap.mp h with ⟨x, _, hx⟩
  by_cases hk : keep x = true
  · rw [if_pos hk, List.mem_singleton] at hx
    exact Or.inl (hx ▸ hk)
  · -- The character is one of the three that stand for a byte.
    rw [if_neg hk] at hx
    rcases List.mem_flatMap.mp hx with ⟨b, _, hb⟩
    have hlt : b.toNat < 256 := b.toNat_lt
    simp only [codedByte, List.mem_cons, List.not_mem_nil, or_false] at hb
    rcases hb with hb | hb | hb
    · exact Or.inr hb
    · exact Or.inl (hb ▸ hdigits (b.toNat / 16) (by omega))
    · exact Or.inl (hb ▸ hdigits (b.toNat % 16) (by omega))

/-- Other characters are not in a written text. -/
theorem not_mem_encode {keep : Char → Bool} (hdigits : HoldsDigits keep) {cs : List Char}
    {c : Char} (h : keep c = false ∧ c ≠ '%') : c ∉ encode keep cs := by
  intro hc
  rcases mem_encode hdigits hc with hkept | hpercent
  · exact Bool.noConfusion (h.1.symm.trans hkept)
  · exact h.2 hpercent

theorem encode_cons_ne_nil (keep : Char → Bool) (c : Char) (cs : List Char) :
    encode keep (c :: cs) ≠ [] := by
  unfold encode
  rw [List.flatMap_cons]
  by_cases hc : keep c = true
  · rw [if_pos hc]
    exact List.cons_ne_nil _ _
  · rw [if_neg hc]
    rcases List.exists_cons_of_ne_nil (String.utf8EncodeChar_ne_nil (c := c)) with ⟨b, bs, hb⟩
    rw [hb, List.flatMap_cons, codedByte]
    exact List.cons_ne_nil _ _

theorem encode_eq_nil_iff (keep : Char → Bool) (cs : List Char) :
    encode keep cs = [] ↔ cs = [] := by
  cases cs with
  | nil => exact iff_of_true rfl rfl
  | cons c r => exact iff_of_false (encode_cons_ne_nil keep c r) (List.cons_ne_nil c r)

/-- Something stands for some bytes. -/
theorem decodeBytes_ne_nil (cs : List Char) (h : cs ≠ []) : decodeBytes cs ≠ [] := by
  unfold decodeBytes
  split
  · exact absurd rfl h
  · split
    · exact List.cons_ne_nil _ _
    · exact List.cons_ne_nil _ _
  · exact List.append_ne_nil_of_left_ne_nil String.utf8EncodeChar_ne_nil _

end Percent

theorem unescape_escape (s : String) : unescape (escape s) = s := by
  rw [unescape, escape, Percent.decode_encode _ rfl, String.ofList_toList]

theorem unescape_escapeComponent (s : String) : unescape (escapeComponent s) = s := by
  rw [unescape, escapeComponent, Percent.decode_encode _ rfl, String.ofList_toList]

theorem escape_injective : Function.Injective escape :=
  Function.LeftInverse.injective unescape_escape

theorem escapeComponent_injective : Function.Injective escapeComponent :=
  Function.LeftInverse.injective unescape_escapeComponent

theorem escape_eq_nil_iff (s : String) : escape s = [] ↔ s = "" := by
  rw [escape, Percent.encode_eq_nil_iff, String.toList_eq_nil_iff]

theorem escapeComponent_eq_nil_iff (s : String) : escapeComponent s = [] ↔ s = "" := by
  rw [escapeComponent, Percent.encode_eq_nil_iff, String.toList_eq_nil_iff]

/-- Something is never read as the empty text. -/
theorem unescape_ne_empty (cs : List Char) (h : cs ≠ []) : unescape cs ≠ "" := by
  intro he
  rw [unescape, String.ofList_eq_empty_iff] at he
  exact Utf8.decode_ne_nil _ (Percent.decodeBytes_ne_nil cs h) he

end TagCatalog
