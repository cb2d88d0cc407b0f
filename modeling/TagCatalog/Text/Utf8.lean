/-!
# UTF-8, Read Without Failing

Text as bytes, and bytes as text.

Writing is the standard encoding of each character. Reading accepts every
byte sequence: where the bytes are no text, one replacement character stands
for each maximal run that could have begun a character, and reading goes on
with the byte that broke the run. The reader is a machine over single bytes.
Between characters it owes nothing; inside one it knows how many bytes are
still owed, the value of those already read, and the least and the greatest
byte that may come next. The bounds on the second byte are what excludes
surrogates, overlong forms and values past the last character.

## Main definitions

* `bytes`: The encoding of a text.
* `Partial`: A character of which some bytes have been read.
* `decode`: The text of a byte sequence, with replacement characters.
-/

namespace TagCatalog

namespace Utf8

/-- The encoding of a text. -/
def bytes (cs : List Char) : List UInt8 :=
  cs.flatMap String.utf8EncodeChar

/-- What stands for bytes that are no text. -/
def replacement : Char := '\uFFFD'

/-- A character of which some bytes have been read. -/
structure Partial where
  /-- How many bytes are owed after the next one. -/
  owed : Nat
  /-- The value of the bytes read so far. -/
  value : Nat
  /-- The least byte that may come next. -/
  least : UInt8
  /-- The greatest byte that may come next. -/
  greatest : UInt8
  deriving DecidableEq, Repr

/-- What a byte between two characters is. -/
inductive Lead where
  /-- A character of its own. -/
  | whole (c : Char)
  /-- The first of several bytes. -/
  | opens (p : Partial)
  /-- The start of no character. -/
  | invalid
  deriving DecidableEq, Repr

/-- Classify a byte that stands between two characters. -/
def lead (b : UInt8) : Lead :=
  if b ≤ 0x7F then .whole (Char.ofNat b.toNat)
  else if b < 0xC2 then .invalid
  else if b ≤ 0xDF then .opens ⟨0, b.toNat - 0xC0, 0x80, 0xBF⟩
  else if b = 0xE0 then .opens ⟨1, 0, 0xA0, 0xBF⟩
  else if b = 0xED then .opens ⟨1, 0xD, 0x80, 0x9F⟩
  else if b ≤ 0xEF then .opens ⟨1, b.toNat - 0xE0, 0x80, 0xBF⟩
  else if b = 0xF0 then .opens ⟨2, 0, 0x90, 0xBF⟩
  else if b ≤ 0xF3 then .opens ⟨2, b.toNat - 0xF0, 0x80, 0xBF⟩
  else if b = 0xF4 then .opens ⟨2, 4, 0x80, 0x8F⟩
  else .invalid

/-- Read bytes, inside a character or between two. -/
def decodeFrom : Option Partial → List UInt8 → List Char
  | none, [] => []
  | some _, [] => [replacement]
  | none, b :: r =>
    match lead b with
    | .whole c => c :: decodeFrom none r
    | .opens p => decodeFrom (some p) r
    | .invalid => replacement :: decodeFrom none r
  | some p, b :: r =>
    if p.least ≤ b ∧ b ≤ p.greatest then
      let value := p.value * 64 + (b.toNat - 0x80)
      match p.owed with
      | 0 => Char.ofNat value :: decodeFrom none r
      | owed + 1 => decodeFrom (some ⟨owed, value, 0x80, 0xBF⟩) r
    else
      replacement ::
        match lead b with
        | .whole c => c :: decodeFrom none r
        | .opens q => decodeFrom (some q) r
        | .invalid => replacement :: decodeFrom none r

/-- The text of a byte sequence, with replacement characters. -/
def decode (bs : List UInt8) : List Char :=
  decodeFrom none bs

end Utf8

end TagCatalog
