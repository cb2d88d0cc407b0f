import TagCatalog.Yaml.Token

/-!
# Layout

The tokens of a settings text. A block begins where a line begins further
right than the block around it, and ends where a line begins further left.
Within brackets columns say nothing.

A key shows itself only by the colon behind it. So the place where a key may
have begun is kept, and the tokens that say that there is a key are put in at
that place when the colon comes. A key and its colon are on one line and not
far from each other, so a place is given up when the text has gone on. Outside
of brackets, what begins at the column of its block can be nothing but a key.

## Main definitions

* `Candidate`: A place where a key may have begun.
* `Layout`: What is known of a text up to a place in it.
* `Layout.step?`: What is known behind one more token.
* `Layout.tokens?`: The tokens of a text.
-/

namespace TagCatalog

namespace Yaml

open Glyph

/-- A place where a key may have begun. -/
structure Candidate where
  /-- How many tokens are before it. -/
  before : Nat
  line : Nat
  column : Nat
  /-- Whether nothing but a key can begin there. -/
  isNeeded : Bool
  deriving DecidableEq, Repr

namespace Candidate

/-- Whether a colon at a character is too late for the key. -/
def isPast (c : Candidate) (g : Glyph) : Bool := c.line < g.line || c.column + 1024 < g.column

/-- What is left of a place that is given up, which a needed one cannot be. -/
def giveUp? : Option Candidate → Option (Option Candidate)
  | some c => if c.isNeeded then none else some none
  | none => some none

/-- What is left of a place at a character. -/
def at? (g : Glyph) (c : Option Candidate) : Option (Option Candidate) :=
  if c.any (·.isPast g) then giveUp? c else some c

end Candidate

/-- What is known of a text up to a place in it. -/
structure Layout where
  /-- The tokens before the place, the last one first. -/
  tokens : List Token := []
  /-- The columns of the blocks around the place, the inner ones first. -/
  columns : List Nat := []
  /-- The place where a key may have begun. -/
  candidate : Option Candidate := none
  /-- The same outside of each bracket around the place, the inner ones first. -/
  outer : List (Option Candidate) := []
  /-- Whether a key may begin here. -/
  fresh : Bool := true
  deriving DecidableEq, Repr

namespace Layout

/-- Whether there are brackets around the place. -/
def isFlow (s : Layout) : Bool := !s.outer.isEmpty

/-- The first column at which a scalar of the innermost block may go on. -/
def least (s : Layout) : Nat :=
  match s.columns with
  | [] => 0
  | column :: _ => column + 1

/-- With a further token behind so many others. -/
def insert (s : Layout) (before : Nat) (t : Token) : Layout :=
  { s with tokens := s.tokens.insertIdx (s.tokens.length - before) t }

/-- With a further token behind all others. -/
def push (s : Layout) (t : Token) : Layout := { s with tokens := t :: s.tokens }

/-- Without the places for keys that are past at a character. -/
def expire? (s : Layout) (g : Glyph) : Option Layout := do
  let candidate ← Candidate.at? g s.candidate
  let outer ← s.outer.mapM (Candidate.at? g)
  return { s with candidate, outer }

/-- With the ends of the innermost blocks, up to the first that is kept. -/
def closeBlocks (s : Layout) (isKept : Nat → Bool) : Layout :=
  if s.isFlow then s
  else
    let closed := s.columns.takeWhile fun column => !isKept column
    { s with
      tokens := closed.map (fun _ => .blockEnd) ++ s.tokens
      columns := s.columns.drop closed.length }

/-- With the start of a block behind so many tokens, if it is at a column
    behind those of the blocks around it. -/
def openBlock (s : Layout) (column before : Nat) (t : Token) : Layout :=
  if !s.isFlow && s.least ≤ column then
    { s.insert before t with columns := column :: s.columns }
  else s

/-- Without a place where a key may have begun. -/
def giveUp? (s : Layout) : Option Layout :=
  (Candidate.giveUp? s.candidate).map fun candidate => { s with candidate }

/-- With a character as a place where a key may have begun, if one may. -/
def mark? (s : Layout) (g : Glyph) : Option Layout :=
  if s.fresh then
    s.giveUp?.map fun s =>
      let isNeeded := !s.isFlow && s.columns.head? = some g.column
      { s with candidate := some ⟨s.tokens.length, g.line, g.column, isNeeded⟩ }
  else some s

/-- Behind a mark that begins a line and ends all blocks. -/
def boundary? (s : Layout) (t : Token) : Option Layout :=
  (s.closeBlocks fun _ => false).giveUp?.map fun s => { s with fresh := false }.push t

/-- Behind an opening bracket. -/
def openBracket? (s : Layout) (g : Glyph) (t : Token) : Option Layout :=
  (s.mark? g).map fun s =>
    { s with candidate := none, outer := s.candidate :: s.outer, fresh := true }.push t

/-- Behind a closing bracket. -/
def closeBracket? (s : Layout) (t : Token) : Option Layout :=
  s.giveUp?.map fun s =>
    match s.outer with
    | [] => { s with fresh := false }.push t
    | candidate :: outer => { s with candidate, outer, fresh := false }.push t

/-- Behind a comma. -/
def comma? (s : Layout) : Option Layout :=
  s.giveUp?.map fun s => { s with fresh := true }.push .comma

/-- With the start of a block of its own for a mark, which has to begin where a
    key may; within brackets there is none. -/
def ownBlock? (s : Layout) (g : Glyph) (t : Token) : Option Layout :=
  if s.isFlow then some s
  else if s.fresh then some (s.openBlock g.column s.tokens.length t)
  else none

/-- Behind the dash of an item. -/
def dash? (s : Layout) (g : Glyph) : Option Layout := do
  let s ← s.ownBlock? g .blockSequence
  let s ← s.giveUp?
  return { s with fresh := true }.push .dash

/-- Behind a question mark, which says that a key follows. -/
def key? (s : Layout) (g : Glyph) : Option Layout := do
  let s ← s.ownBlock? g .blockMapping
  let s ← s.giveUp?
  return { s with fresh := !s.isFlow }.push .key

/-- Behind a colon. If there is a place where its key may have begun, the key
    is put in there. -/
def value? (s : Layout) (g : Glyph) : Option Layout :=
  match s.candidate with
  | some c =>
    let s := (s.insert c.before .key).openBlock c.column c.before .blockMapping
    some ({ s with candidate := none, fresh := false }.push .value)
  | none =>
    (s.ownBlock? g .blockMapping).map fun s => { s with fresh := !s.isFlow }.push .value

/-- Behind a token that may be or begin a key, which ends where `rest` begins. -/
def word? (s : Layout) (g : Glyph) (r : Option (Token × List Glyph)) :
    Option (Layout × List Glyph) := do
  let s ← s.mark? g
  let (t, rest) ← r
  return ({ s with fresh := false }.push t, rest)

/-- A token of a scalar, with the rest of the text. -/
def ofScalar (style : Style) (r : Scalar.Result) : Option (Token × List Glyph) :=
  r.map fun (cs, rest) => (.scalar style (String.ofList cs), rest)

/-- Behind a scalar of whole lines. -/
def block? (s : Layout) (isFolded : Bool) (r : List Glyph) : Option (Layout × List Glyph) := do
  let s ← s.giveUp?
  let (t, rest) ← ofScalar (if isFolded then .folded else .literal)
    (Scalar.block isFolded s.least r)
  return ({ s with fresh := true }.push t, rest)

/-- Behind a scalar without quotes. A key may begin behind it if it ended with
    its line. -/
def plain? (s : Layout) (g : Glyph) (r : List Glyph) : Option (Layout × List Glyph) := do
  let s ← s.mark? g
  let (cs, isBroken, rest) ← Scalar.plain s.isFlow s.least (g :: r)
  return ({ s with fresh := isBroken }.push (.scalar .plain (String.ofList cs)), rest)

/-- Behind the token that begins with a character, and the rest of the text. -/
def step? (s : Layout) (g : Glyph) (r : List Glyph) : Option (Layout × List Glyph) :=
  let isWord := atWordEnd r
  let behind : Option Layout → Option (Layout × List Glyph) := fun s => s.map fun s => (s, r)
  if g.char = '%' && g.column = 0 then
    (Token.directive? r).bind fun (t, rest) => (s.boundary? t).map fun s => (s, rest)
  else if isTriple '-' (g :: r) then (s.boundary? .documentStart).map fun s => (s, r.drop 2)
  else if isTriple '.' (g :: r) then (s.boundary? .documentEnd).map fun s => (s, r.drop 2)
  else if g.char = '[' then behind (s.openBracket? g .sequenceStart)
  else if g.char = '\x7b' then behind (s.openBracket? g .mappingStart)
  else if g.char = ']' then behind (s.closeBracket? .sequenceEnd)
  else if g.char = '\x7d' then behind (s.closeBracket? .mappingEnd)
  else if g.char = ',' then behind s.comma?
  else if g.char = '-' && isWord then behind (s.dash? g)
  else if g.char = '?' && (s.isFlow || isWord) then behind (s.key? g)
  else if g.char = ':' && (s.isFlow || isWord) then behind (s.value? g)
  else if g.char = '*' then
    s.word? g ((Token.name? r).map fun (name, rest) => (.aliasOf name, rest))
  else if g.char = '&' then
    s.word? g ((Token.name? r).map fun (name, rest) => (.anchor name, rest))
  else if g.char = '!' then
    s.word? g ((Shorthand.read? s.isFlow r).map fun (tag, rest) => (.tag tag, rest))
  else if g.char = '|' && !s.isFlow then s.block? false r
  else if g.char = '>' && !s.isFlow then s.block? true r
  else if g.char = '\'' then s.word? g (ofScalar .quoted (Scalar.single r))
  else if g.char = '"' then s.word? g (ofScalar .quoted (Scalar.double r))
  else if Scalar.startsPlain s.isFlow (g :: r) then s.plain? g r
  else none

/-- The tokens of a text for which a number of steps is enough. -/
def run? : (fuel : Nat) → Layout → List Glyph → Option (List Token)
  | 0, _, _ => none
  | fuel + 1, s, gs =>
    match gap s.isFlow s.fresh gs with
    | (_, []) => s.giveUp?.map fun s => (s.closeBlocks fun _ => false).tokens.reverse
    | (fresh, g :: r) => do
      let s ← { s with fresh }.expire? g
      let (s, rest) ← (s.closeBlocks fun column => column ≤ g.column).step? g r
      run? fuel s rest

/-- The tokens of a text. Each step takes at least one character. -/
def tokens? (gs : List Glyph) : Option (List Token) := run? (gs.length + 1) {} gs

end Layout

end Yaml

end TagCatalog
