import TagCatalog.Yaml.Scalar
import TagCatalog.Yaml.Tag

/-!
# Tokens

What a settings text says, without the places at which it says it. Marks and
words of the text are tokens, and so are the start and the end of a block,
which the text shows only by columns.

Some tokens tell what they are by their first character alone. Their readers
are here; each takes the text behind that character and gives the token with
the rest of the text.

## Main definitions

* `Token`: A mark, a word, or a boundary of a block.
* `Token.directive?`: A line that says how a text is to be read.
* `Token.name?`: A name that a node is given, or by which it is used again.
-/

namespace TagCatalog

namespace Yaml

open Glyph

/-- A mark, a word, or a boundary of a block. -/
inductive Token where
  | version (major minor : Nat)
  /-- A handle with what it stands for. -/
  | handle (name : String) (meaning : Tag)
  | documentStart
  | documentEnd
  | blockSequence
  | blockMapping
  | blockEnd
  | sequenceStart
  | sequenceEnd
  | mappingStart
  | mappingEnd
  | dash
  | comma
  | key
  | value
  /-- A name for the node behind it. -/
  | anchor (name : String)
  /-- The node that has a name. -/
  | aliasOf (name : String)
  | tag (tag : Shorthand)
  | scalar (style : Style) (text : String)
  deriving DecidableEq, Repr

namespace Token

/-- The number that the digits at the start of a text are; there are nine of
    them at most. -/
def number? (gs : List Glyph) : Option (Nat × List Glyph) :=
  let digits := gs.takeWhile fun g => g.char.isDigit
  if digits.isEmpty || 9 < digits.length then none
  else
    some (digits.foldl (fun n g => 10 * n + (g.char.toNat - 0x30)) 0,
      gs.dropWhile fun g => g.char.isDigit)

/-- A version, of which the two numbers are divided by a point. -/
def version? (gs : List Glyph) : Option (Token × List Glyph) := do
  let (major, rest) ← number? (skipBlanks gs)
  if isAt '.' rest then
    let (minor, rest) ← number? rest.tail
    return (version major minor, rest)
  else none

/-- A handle and, behind blanks, what it stands for. -/
def handle? (gs : List Glyph) : Option (Token × List Glyph) := do
  let (name, rest) ← Shorthand.handle? (skipBlanks gs)
  if rest.head?.any fun g => isBlank g.char then
    let (meaning, rest) ← Shorthand.identifier? (skipBlanks rest)
    if atWordEnd rest then return (handle name meaning, rest) else none
  else none

/-- A line that says how a text is to be read, from behind its mark. -/
def directive? (gs : List Glyph) : Option (Token × List Glyph) := do
  let (name, rest) := Shorthand.name gs
  if atWordEnd rest then
    let (token, rest) ←
      if name = "YAML".toList then version? rest
      else if name = "TAG".toList then handle? rest
      else none
    return (token, ← behindLine? rest)
  else none

/-- A name, which ends with its word or at a mark. -/
def name? (gs : List Glyph) : Option (String × List Glyph) :=
  let (cs, rest) := Shorthand.name gs
  if cs.isEmpty then none
  else if atWordEnd rest || "?:,]\x7d%@\x60".toList.any fun c => isAt c rest then
    some (String.ofList cs, rest)
  else none

end Token

end Yaml

end TagCatalog
