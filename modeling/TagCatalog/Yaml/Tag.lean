import TagCatalog.Text.Percent
import TagCatalog.Yaml.Glyph

/-!
# Tags

A tag says what kind of thing a node is. It is an identifier of bytes, which
ends at a zero byte, if it has one. A text writes it in full between angle
brackets, or as a handle and the rest, where the handle stands for the start
of the identifier. Two handles have a meaning without being declared. A byte
may be written as a percent sign and two digits, but such bytes have to follow
each other as those of a character do.

## Main definitions

* `Tag`: An identifier.
* `Shorthand`: A tag as it is written.
* `Shorthand.read?`: The tag that is written behind its mark.
* `Shorthand.tag?`: The tag for the meanings of the handles.
-/

namespace TagCatalog

namespace Yaml

open Glyph

/-- An identifier of the kind of a node. -/
abbrev Tag := List UInt8

/-- What handles stand for; the first meaning of a handle counts. -/
abbrev Handles := List (String × Tag)

/-- The bytes of a text. -/
def Tag.ofString (s : String) : Tag := Utf8.bytes s.toList

/-- The bytes before the first zero byte. -/
def Tag.cut (tag : Tag) : Tag := tag.takeWhile (· ≠ 0)

/-- The handles that need not be declared. -/
def Handles.standard : Handles :=
  [("!", .ofString "!"), ("!!", .ofString "tag:yaml.org,2002:")]

/-- A tag as it is written. Without a handle, the rest is all of it. -/
structure Shorthand where
  handle : String
  rest : Tag
  deriving DecidableEq, Repr

namespace Shorthand

/-- Whether a character may stand in a name. -/
def isNameChar (c : Char) : Bool := c.isAlphanum || c = '_' || c = '-'

/-- Whether a character may stand in an identifier; some may only if the
    identifier is `inFull`. -/
def isTagChar (inFull : Bool) (c : Char) : Bool :=
  isNameChar c || ";/?:@&=+$.!~*'()".toList.contains c || (inFull && ",[]".toList.contains c)

/-- A name, which may be empty, and the rest of the text. -/
def name (gs : List Glyph) : List Char × List Glyph :=
  ((gs.takeWhile fun g => isNameChar g.char).map Glyph.char,
    gs.dropWhile fun g => isNameChar g.char)

/-- How many bytes follow this one, where `owed` bytes were to come. -/
def owedAfter? (owed : Nat) (byte : UInt8) : Option Nat :=
  match owed with
  | owed + 1 => if 0x80 ≤ byte ∧ byte ≤ 0xBF then some owed else none
  | 0 =>
    if byte ≤ 0x7F then some 0
    else if byte ≤ 0xBF then none
    else if byte ≤ 0xDF then some 1
    else if byte ≤ 0xEF then some 2
    else if byte ≤ 0xF7 then some 3
    else none

/-- A byte of two digits. -/
def byte? (g h : Glyph) : Option UInt8 := do
  let x ← Percent.hexValue? g.char
  let y ← Percent.hexValue? h.char
  return UInt8.ofNat (16 * x + y)

/-- The characters of an identifier, and the rest of the text. There are `owed`
    bytes of a character to come. -/
def bytesFrom? (inFull : Bool) (owed : Nat) : List Glyph → Option (Tag × List Glyph)
  | [] => if owed = 0 then some ([], []) else none
  | g :: r =>
    if g.char = '%' then
      match r with
      | h :: l :: r => do
        let byte ← byte? h l
        let owed ← owedAfter? owed byte
        let (bytes, rest) ← bytesFrom? inFull owed r
        return (byte :: bytes, rest)
      | _ => none
    else if owed ≠ 0 then none
    else if isTagChar inFull g.char then
      (bytesFrom? inFull 0 r).map fun (bytes, rest) => (UInt8.ofNat g.char.toNat :: bytes, rest)
    else some ([], g :: r)

/-- The characters of an identifier, and the rest of the text. -/
def bytes? (inFull : Bool) (gs : List Glyph) : Option (Tag × List Glyph) := bytesFrom? inFull 0 gs

/-- An identifier in full, of which there has to be something. -/
def identifier? (gs : List Glyph) : Option (Tag × List Glyph) :=
  (bytes? true gs).bind fun (bytes, rest) =>
    if bytes.isEmpty then none else some (Tag.cut bytes, rest)

/-- A tag between angle brackets, from behind the first of them. -/
def full? (gs : List Glyph) : Option (Shorthand × List Glyph) :=
  (identifier? gs).bind fun (tag, rest) =>
    if isAt '>' rest then some (⟨"", tag⟩, rest.tail) else none

/-- A tag with a handle, from behind its mark. Where no second mark closes a
    handle, the handle is the first mark alone. A mark with nothing behind it
    is a tag itself. -/
def short? (gs : List Glyph) : Option (Shorthand × List Glyph) := do
  let (cs, rest) := name gs
  if isAt '!' rest then
    let (bytes, rest) ← bytes? false rest.tail
    if bytes.isEmpty then none
    else return (⟨String.ofList ('!' :: cs ++ ['!']), Tag.cut bytes⟩, rest)
  else
    let (bytes, rest) ← bytes? false rest
    let tag := Tag.cut (Utf8.bytes cs ++ bytes)
    if tag.isEmpty then return (⟨"", .ofString "!"⟩, rest) else return (⟨"!", tag⟩, rest)

/-- The tag that is written behind its mark, and the rest of the text. It ends
    with its word, or within brackets at a comma. -/
def read? (flow : Bool) (gs : List Glyph) : Option (Shorthand × List Glyph) :=
  (if isAt '<' gs then full? gs.tail else short? gs).bind fun (tag, rest) =>
    if atWordEnd rest || (flow && isAt ',' rest) then some (tag, rest) else none

/-- The handle that a line declares, and the rest of the line. -/
def handle? (gs : List Glyph) : Option (String × List Glyph) :=
  if isAt '!' gs then
    let (cs, rest) := name gs.tail
    if isAt '!' rest then some (String.ofList ('!' :: cs ++ ['!']), rest.tail)
    else if cs.isEmpty then some ("!", rest)
    else none
  else none

/-- The tag for the meanings of the handles. -/
def tag? (handles : Handles) (s : Shorthand) : Option Tag :=
  if s.handle.isEmpty then some s.rest
  else (handles.lookup s.handle).map fun start => start ++ s.rest

end Shorthand

end Yaml

end TagCatalog
