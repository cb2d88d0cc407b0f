import TagCatalog.Text.Percent
import TagCatalog.Yaml.Glyph

/-!
# Scalars

Single texts within settings. Within quotes and without, a line break between
two words stands for a blank, and each further one for itself; a block keeps
its lines or folds them in the same way.

Every reader gives the characters of the scalar and the rest of the text. A
scalar without quotes has nothing that closes it, so the blanks and breaks
behind it are read with it, and the reader tells whether there was a break.

## Main definitions

* `Style`: How a scalar is written.
* `Joint`: What is between two words of a scalar.
* `Scalar.plain`: A scalar without quotes.
* `Scalar.single`, `Scalar.double`: Scalars within quotes.
* `Scalar.block`: A scalar of whole lines.
-/

namespace TagCatalog

namespace Yaml

open Glyph

/-- How a scalar is written. -/
inductive Style where
  | plain
  | quoted
  | literal
  | folded
  deriving DecidableEq, Repr

/-- What is between two words of a scalar. -/
inductive Joint where
  | blanks (cs : List Char)
  | breaks (first : Char) (more : List Char)
  /-- A break that was taken away, and those behind it. -/
  | joined (more : List Char)

namespace Joint

/-- What a joint stands for. -/
def chars : Joint → List Char
  | blanks cs => cs
  | breaks first more =>
    if first ≠ '\n' then first :: more else if more.isEmpty then [' '] else more
  | joined more => more

/-- A joint with a further blank or break. -/
def add (c : Char) (j : Joint) : Joint :=
  match j, isBreak c with
  | blanks _, true => breaks c []
  | breaks first more, true => breaks first (more ++ [c])
  | joined more, true => joined (more ++ [c])
  | blanks cs, false => blanks (cs ++ [c])
  | j, false => j

/-- Whether there is a break in a joint. -/
def isBroken : Joint → Bool
  | blanks _ => false
  | _ => true

end Joint

namespace Scalar

/-- A scalar with the rest of its text. -/
abbrev Result := Option (List Char × List Glyph)

/-- A scalar with more characters at its start. -/
def behind (cs : List Char) (r : Result) : Result := r.map fun (ds, rest) => (cs ++ ds, rest)

/-- Whether a character has a meaning within brackets. -/
def isBracketMark (c : Char) : Bool := ",[]\x7b\x7d".toList.contains c

/-- Whether a scalar without quotes can begin here. -/
def startsPlain (flow : Bool) : List Glyph → Bool
  | [] => false
  | g :: r =>
    if isBlank g.char || isBreak g.char then false
    else if "-?:,[]\x7b\x7d#&*!|>'\"%@\x60".toList.contains g.char then
      (g.char = '-' || (!flow && (g.char = '?' || g.char = ':'))) && !atWordEnd r
    else true

/-- Whether a scalar without quotes ends here. -/
def endsPlain (flow : Bool) : List Glyph → Bool
  | [] => true
  | g :: r => (g.char = ':' && atWordEnd r) || (flow && isBracketMark g.char)

/-- Whether there is a colon with a mark behind it, which is neither part of a
    scalar within brackets nor its end. -/
def isMisplacedColon : List Glyph → Bool
  | g :: h :: _ => g.char = ':' && (h.char = '?' || isBracketMark h.char)
  | _ => false

/-- A scalar without quotes, of which the rest begins at `rest` if it ends
    here. Its lines begin at column `least` or behind it. -/
def plainFrom (flow : Bool) (least : Nat) (joint : Joint) (rest : List Glyph) :
    List Glyph → Result
  | [] => some ([], rest)
  | g :: r =>
    if isBreak g.char then plainFrom flow least (joint.add g.char) rest r
    else if isBlank g.char then
      if g.char = '\t' && joint.isBroken && g.column < least then none
      else plainFrom flow least (joint.add g.char) rest r
    else if endsPlain flow (g :: r) || (g.char = '#' && !joint.chars.isEmpty) ||
        (!flow && joint.isBroken && g.column < least) || isMarker (g :: r) then
      some ([], rest)
    else if flow && isMisplacedColon (g :: r) then none
    else behind (joint.chars ++ [g.char]) (plainFrom flow least (.blanks []) r r)

/-- Whether a character is between words. -/
def isBetween (g : Glyph) : Bool := isBlank g.char || isBreak g.char

/-- A scalar without quotes, whether a break is behind it, and the rest behind
    the blanks and breaks. -/
def plain (flow : Bool) (least : Nat) (gs : List Glyph) :
    Option (List Char × Bool × List Glyph) :=
  (plainFrom flow least (.blanks []) gs gs).map fun (cs, rest) =>
    (cs, (rest.takeWhile isBetween).any (isBreak ·.char), rest.dropWhile isBetween)

/-- A scalar within single quotes, from behind the first of them; `quote` tells
    whether the last character was one. -/
def singleFrom (joint : Joint) : (quote : Bool) → List Glyph → Result
  | true, [] => some ([], [])
  | false, [] => none
  | true, g :: r =>
    if g.char = '\'' then behind ['\''] (singleFrom (.blanks []) false r)
    else some ([], g :: r)
  | false, g :: r =>
    if isMarker (g :: r) then none
    else if isBlank g.char || isBreak g.char then singleFrom (joint.add g.char) false r
    else if g.char = '\'' then behind joint.chars (singleFrom (.blanks []) true r)
    else behind (joint.chars ++ [g.char]) (singleFrom (.blanks []) false r)

/-- A scalar within single quotes, from behind the first of them. -/
def single (gs : List Glyph) : Result := singleFrom (.blanks []) false gs

/-- The character that stands behind a backslash for another one. -/
def escaped? (c : Char) : Option Char :=
  match c with
  | '0' => some '\x00'
  | 'a' => some '\x07'
  | 'b' => some '\x08'
  | 't' | '\t' => some '\t'
  | 'n' => some '\n'
  | 'v' => some '\x0B'
  | 'f' => some '\x0C'
  | 'r' => some '\r'
  | 'e' => some '\x1B'
  | ' ' => some ' '
  | '"' => some '"'
  | '/' => some '/'
  | '\\' => some '\\'
  | 'N' => some '\u0085'
  | '_' => some '\u00A0'
  | 'L' => some '\u2028'
  | 'P' => some '\u2029'
  | _ => none

/-- How many digits stand behind a letter for the number of a character. -/
def codeLength? (c : Char) : Option Nat :=
  match c with
  | 'x' => some 2
  | 'u' => some 4
  | 'U' => some 8
  | _ => none

/-- Where a reader within double quotes is. -/
inductive Inside where
  | text
  /-- Behind a backslash. -/
  | escape
  /-- In the number of a character, with so many digits to come. -/
  | code (digits value : Nat)

/-- A scalar within double quotes, from behind the first of them. -/
def doubleFrom : Joint → Inside → List Glyph → Result
  | _, _, [] => none
  | joint, .text, g :: r =>
    if isMarker (g :: r) then none
    else if isBlank g.char || isBreak g.char then doubleFrom (joint.add g.char) .text r
    else if g.char = '"' then some (joint.chars, r)
    else if g.char = '\\' then behind joint.chars (doubleFrom (.blanks []) .escape r)
    else behind (joint.chars ++ [g.char]) (doubleFrom (.blanks []) .text r)
  | _, .escape, g :: r =>
    if isBreak g.char then doubleFrom (.joined []) .text r
    else
      match codeLength? g.char with
      | some digits => doubleFrom (.blanks []) (.code digits 0) r
      | none =>
        match escaped? g.char with
        | some c => behind [c] (doubleFrom (.blanks []) .text r)
        | none => none
  | _, .code digits value, g :: r =>
    match Percent.hexValue? g.char with
    | none => none
    | some d =>
      let value := 16 * value + d
      if 1 < digits then doubleFrom (.blanks []) (.code (digits - 1) value) r
      else if value.isValidChar then
        behind [Char.ofNat value] (doubleFrom (.blanks []) .text r)
      else none

/-- A scalar within double quotes, from behind the first of them. -/
def double (gs : List Glyph) : Result := doubleFrom (.blanks []) .text gs

/-- Which breaks at the end of a block are kept. -/
inductive Chomping where
  | strip
  | clip
  | keep
  deriving DecidableEq, Repr

/-- The breaks at the end of a block that are kept, of the one that ends the
    last line and those behind it. -/
def Chomping.kept (chomping : Chomping) (first more : List Char) : List Char :=
  match chomping with
  | strip => []
  | clip => first
  | keep => first ++ more

/-- A chomping by its mark. -/
def Chomping.ofMark? (c : Char) : Option Chomping :=
  if c = '-' then some strip else if c = '+' then some keep else none

/-- The first column of a block, which is the greatest of the columns at which
    blank lines and the first other line end their blanks. -/
def blockColumn? (most : Nat) : List Glyph → Option Nat
  | [] => some most
  | g :: r =>
    if g.char = ' ' then blockColumn? (max most (g.column + 1)) r
    else if isBreak g.char then blockColumn? most r
    else if g.char = '\t' then none
    else some (max most g.column)

/-- The lines of a block from column `least` on, with the breaks `first` and
    `more` since the last line, which began with a blank if `blank` says so.
    While `inLine`, characters belong to a line whatever they are. -/
def blockFrom (isFolded : Bool) (chomping : Chomping) (least : Nat) (first more : List Char)
    (blank inLine : Bool) : List Glyph → Result
  | [] => some (chomping.kept first more, [])
  | g :: r =>
    if isBreak g.char then
      if inLine then blockFrom isFolded chomping least [g.char] [] blank false r
      else blockFrom isFolded chomping least first (more ++ [g.char]) blank false r
    else if inLine then
      behind [g.char] (blockFrom isFolded chomping least [] [] blank true r)
    else if g.column < least then
      if g.char = ' ' then blockFrom isFolded chomping least first more blank false r
      else if g.char = '\t' then none
      else some (chomping.kept first more, g :: r)
    else
      let breaks :=
        if isFolded && first = ['\n'] && !blank && !isBlank g.char then
          if more.isEmpty then [' '] else more
        else first ++ more
      behind (breaks ++ [g.char])
        (blockFrom isFolded chomping least [] [] (isBlank g.char) true r)

/-- The digit from 1 to 9 that a character is. -/
def indentDigit? (c : Char) : Option Nat :=
  if '1' ≤ c ∧ c ≤ '9' then some (c.toNat - 0x30) else none

/-- What stands behind the mark of a block: a chomping and an indentation in
    either order, neither of which is needed. -/
def blockHeader : List Glyph → Chomping × Option Nat × List Glyph
  | [] => (.clip, none, [])
  | g :: r =>
    match Chomping.ofMark? g.char, indentDigit? g.char with
    | some chomping, _ =>
      match r with
      | h :: r' =>
        match indentDigit? h.char with
        | some n => (chomping, some n, r')
        | none => (chomping, none, r)
      | [] => (chomping, none, [])
    | none, some n =>
      match r with
      | h :: r' =>
        match Chomping.ofMark? h.char with
        | some chomping => (chomping, some n, r')
        | none => (.clip, some n, r)
      | [] => (.clip, some n, [])
    | none, none => (.clip, none, g :: r)

/-- A scalar of whole lines, from behind its mark. Its lines begin at column
    `least` or behind it. -/
def block (isFolded : Bool) (least : Nat) (gs : List Glyph) : Result := do
  let (chomping, indent, rest) := blockHeader gs
  let lines ← behindLine? rest
  let column ←
    match indent with
    | some n => some (least - 1 + n)
    | none => (blockColumn? 0 lines).map fun n => max (max n least) 1
  blockFrom isFolded chomping column [] [] false false lines

end Scalar

end Yaml

end TagCatalog
