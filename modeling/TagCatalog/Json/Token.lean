import TagCatalog.Text.Percent

/-!
# Tokens

A text in pieces: marks, words and quoted texts. A word is a number or one of
the three names; which one it is, and whether it is any, is decided later.

A quoted text may name code units by number. Two units that form a pair are
one character, and a unit without its partner makes the text ill formed. Such
a text is still a token, because it may stand where nobody looks at it.

## Main definitions

* `Token`: A piece of a text.
* `Token.scan?`: The pieces of a text.
-/

namespace TagCatalog

namespace Json

/-- A piece of a text. -/
inductive Token where
  | openArray
  | closeArray
  | openObject
  | closeObject
  | comma
  | colon
  /-- A run of letters, digits, signs and points. -/
  | word (cs : List Char)
  /-- A quoted text, if it is well formed. -/
  | text (s : Option String)
  deriving DecidableEq, Repr

/-- What a quoted text is made of. -/
inductive Piece where
  | char (c : Char)
  /-- A code unit given by its number. -/
  | unit (n : Nat)
  deriving DecidableEq, Repr

namespace Piece

/-- The characters of a quoted text, if every pair of units is complete. -/
def chars? : List Piece → Option (List Char)
  | [] => some []
  | char c :: r => (chars? r).map (c :: ·)
  | unit n :: unit m :: r =>
    if n < 0xD800 ∨ 0xDFFF < n then (chars? (unit m :: r)).map (Char.ofNat n :: ·)
    else if n < 0xDC00 ∧ 0xDC00 ≤ m ∧ m ≤ 0xDFFF then
      (chars? r).map (Char.ofNat (0x10000 + (n - 0xD800) * 0x400 + (m - 0xDC00)) :: ·)
    else none
  | unit n :: r =>
    if n < 0xD800 ∨ 0xDFFF < n then (chars? r).map (Char.ofNat n :: ·) else none

end Piece

namespace Token

/-- Where reading stands. What was read of a token is kept last first. -/
inductive Place where
  | between
  | word (done : List Char)
  | quoted (done : List Piece)
  /-- Behind a backslash. -/
  | escaped (done : List Piece)
  /-- In the number of a code unit, with so many digits to come. -/
  | coded (done : List Piece) (digits value : Nat)

/-- Whether a character can stand in a word. -/
def isWordChar (c : Char) : Bool :=
  c.isAlphanum || c = '+' || c = '-' || c = '.'

/-- The mark that a character is. -/
def mark? (c : Char) : Option Token :=
  if c = '[' then some .openArray
  else if c = ']' then some .closeArray
  else if c = '\x7b' then some .openObject
  else if c = '\x7d' then some .closeObject
  else if c = ',' then some .comma
  else if c = ':' then some .colon
  else none

/-- Go on with a character between two tokens. -/
def start? (c : Char) : Option (List Token × Place) :=
  if c = ' ' ∨ c = '\t' ∨ c = '\n' ∨ c = '\r' then some ([], .between)
  else if c = '"' then some ([], .quoted [])
  else if isWordChar c then some ([], .word [c])
  else (mark? c).map fun t => ([t], .between)

/-- The character that stands behind a backslash for another one. -/
def escaped? (c : Char) : Option Char :=
  match c with
  | '"' => some '"'
  | '\\' => some '\\'
  | '/' => some '/'
  | 'b' => some '\x08'
  | 'f' => some '\x0C'
  | 'n' => some '\n'
  | 'r' => some '\r'
  | 't' => some '\t'
  | _ => none

/-- Go on with a character: the tokens that it completes, and where reading
    stands behind it. -/
def step? (place : Place) (c : Char) : Option (List Token × Place) :=
  match place with
  | .between => start? c
  | .word done =>
    if isWordChar c then some ([], .word (c :: done))
    else (start? c).map fun (ts, place) => (.word done.reverse :: ts, place)
  | .quoted done =>
    if c = '"' then some ([.text ((Piece.chars? done.reverse).map String.ofList)], .between)
    else if c = '\\' then some ([], .escaped done)
    else if c.toNat < 0x20 then none
    else some ([], .quoted (.char c :: done))
  | .escaped done =>
    if c = 'u' then some ([], .coded done 4 0)
    else (escaped? c).map fun c => ([], .quoted (.char c :: done))
  | .coded done digits value =>
    (Percent.hexValue? c).map fun d =>
      if digits ≤ 1 then ([], .quoted (.unit (16 * value + d) :: done))
      else ([], .coded done (digits - 1) (16 * value + d))

/-- The pieces of a text, from a place on. -/
def scanFrom? : Place → List Char → Option (List Token)
  | .between, [] => some []
  | .word done, [] => some [.word done.reverse]
  | _, [] => none
  | place, c :: r =>
    match step? place c with
    | some (ts, place) => (scanFrom? place r).map (ts ++ ·)
    | none => none

/-- The pieces of a text. -/
def scan? (cs : List Char) : Option (List Token) := scanFrom? .between cs

end Token

end Json

end TagCatalog
