/-!
# Characters with Their Places

In a settings text it matters where a character stands, because nesting is
shown by columns and a key and its colon have to be on one line. So every
character goes together with its place.

## Main definitions

* `Glyph`: A character and where it stands.
* `Glyph.ofChars?`: The characters of a text, if all of them are printable.
* `Glyph.isMarker`: Whether a text goes on with a boundary of documents.
* `Glyph.gap`: A text from its next token on.
-/

namespace TagCatalog

namespace Yaml

/-- A character and where it stands. -/
structure Glyph where
  char : Char
  line : Nat
  column : Nat
  deriving DecidableEq, Repr

namespace Glyph

/-- Whether a character separates words on a line. -/
def isBlank (c : Char) : Bool := c = ' ' || c = '\t'

/-- Whether a character ends a line. -/
def isBreak (c : Char) : Bool := c = '\n' || c = '\u2028' || c = '\u2029'

/-- Whether a character may stand in a settings text. -/
def isPrintable (c : Char) : Bool :=
  let n := c.toNat
  n = 0x09 || n = 0x0A || (0x20 ≤ n && n ≤ 0x7E) || (0xA0 ≤ n && n ≤ 0xFFFD) || 0x10000 ≤ n

/-- A text in which each of the ways to end a line is a line feed. -/
def uniformBreaks : List Char → List Char
  | [] => []
  | '\r' :: '\n' :: r => '\n' :: uniformBreaks r
  | c :: r => (if c = '\r' || c = '\u0085' then '\n' else c) :: uniformBreaks r

/-- Characters with their places, from a place on. -/
def place : (line column : Nat) → List Char → List Glyph
  | _, _, [] => []
  | line, column, c :: r =>
    ⟨c, line, column⟩ :: if isBreak c then place (line + 1) 0 r else place line (column + 1) r

/-- The characters of a text, if all of them are printable. -/
def ofChars? (cs : List Char) : Option (List Glyph) :=
  let cs := uniformBreaks cs
  if cs.all isPrintable then some (place 0 0 cs) else none

/-- Whether a word ends here. -/
def atWordEnd : List Glyph → Bool
  | [] => true
  | g :: _ => isBlank g.char || isBreak g.char

/-- Whether a text goes on with a character. -/
def isAt (c : Char) : List Glyph → Bool
  | [] => false
  | g :: _ => g.char = c

/-- Whether a text goes on with three characters, as a word at the start of a
    line. -/
def isTriple (c : Char) : List Glyph → Bool
  | x :: y :: z :: r =>
    x.column = 0 && x.char = c && y.char = c && z.char = c && atWordEnd r
  | _ => false

/-- Whether a text goes on with a boundary of documents. -/
def isMarker (gs : List Glyph) : Bool := isTriple '-' gs || isTriple '.' gs

/-- A text from the end of its first line on. -/
def restOfLine : List Glyph → List Glyph
  | [] => []
  | g :: r => if isBreak g.char then g :: r else restOfLine r

/-- A text without the blanks at its start. -/
def skipBlanks (gs : List Glyph) : List Glyph := gs.dropWhile fun g => isBlank g.char

/-- A text behind its first line, of which nothing is left but blanks and a
    comment. -/
def behindLine? (gs : List Glyph) : Option (List Glyph) :=
  let gs := skipBlanks gs
  match if isAt '#' gs then restOfLine gs else gs with
  | [] => some []
  | g :: r => if isBreak g.char then some r else none

/-- Whether a character is skipped between two tokens: a blank; a tab, but not
    where a key may begin; and a mark of the order of bytes that begins a line. -/
def isSkipped (flow fresh : Bool) (g : Glyph) : Bool :=
  g.char = ' ' || (g.char = '\t' && (flow || !fresh)) || (g.char = '\uFEFF' && g.column = 0)

/-- A text from its next token on, inside a comment or not. -/
def gapFrom (flow : Bool) : (fresh comment : Bool) → List Glyph → Bool × List Glyph
  | fresh, _, [] => (fresh, [])
  | fresh, comment, g :: r =>
    if isBreak g.char then gapFrom flow (fresh || !flow) false r
    else if comment || g.char = '#' then gapFrom flow fresh true r
    else if isSkipped flow fresh g then gapFrom flow fresh false r
    else (fresh, g :: r)

/-- A text from its next token on, and whether a key may begin there. It may
    behind a break, unless the break is within brackets. -/
def gap (flow fresh : Bool) (gs : List Glyph) : Bool × List Glyph := gapFrom flow fresh false gs

end Glyph

end Yaml

end TagCatalog
