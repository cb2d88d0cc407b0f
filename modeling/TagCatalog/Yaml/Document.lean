import TagCatalog.Yaml.Layout
import TagCatalog.Yaml.Node

/-!
# Settings Texts

The node that a text of settings holds. The tokens of the text are read from
the first to the last, and at most one token is looked at before it is decided
what is read. A node may be left out where the token that would follow it
comes at once.

Names of nodes are replaced by numbers. A name gets the number of names that
there are before it, and then counts as one of them, if it is not among them
already; an alias has the number that its name has at that place.

Each reader that calls another one has fuel for as many calls as the tokens
can need.

## Main definitions

* `Pending`: What is left to read of a text.
* `Reader`: What is read from the start of it.
* `Reader.node`: A node.
* `Node.ofTokens?`, `Node.parse?`: The node that a text holds.
-/

namespace TagCatalog

namespace Yaml

/-- What is left to read of a text, with what its words stand for. -/
structure Pending where
  tokens : List Token
  names : List (String × Nat) := []
  handles : Handles := .standard

/-- What is read from the start of a text, unless the text is refused. -/
abbrev Reader := StateT Pending Option

namespace Reader

/-- The next token, which stays. -/
def peek : Reader (Option Token) := return (← get).tokens.head?

/-- Whether the next token is one of these. -/
def isNext (ts : List Token) : Reader Bool := return (← peek).any fun t => ts.contains t

/-- Behind the next token. -/
def skip : Reader Unit := modify fun s => { s with tokens := s.tokens.tail }

/-- Behind the next token, which has to be this one. -/
def expect (t : Token) : Reader Unit := do
  if ← isNext [t] then skip else failure

/-- The number of a name that a node is given. -/
def number (name : String) : Reader Nat := do
  let s ← get
  let number := s.names.length
  set { s with names := (name, number) :: s.names.filter fun n => n.1 ≠ name }
  return number

/-- The number of a node, if it is given a name here. -/
def anchor : Reader (Option Nat) := do
  match ← peek with
  | some (.anchor name) => skip; some <$> number name
  | _ => return none

/-- The tag of a node, if there is one here. -/
def tag : Reader (Option Tag) := do
  match ← peek with
  | some (.tag written) => do
    skip
    let tag ← (written.tag? (← get).handles : Option Tag)
    return some tag
  | _ => return none

/-- A name and a tag in either order, of which none is needed. -/
def properties : Reader Properties := do
  let first ← anchor
  let tag ← tag
  let number ← if first.isSome then pure first else anchor
  return { number, tag }

/-- The alias of a name, which has to be given before. -/
def aliasOf (name : String) : Reader Node := do
  let number ← ((← get).names.lookup name : Option Nat)
  return .aliasOf number

/-- A scalar. A tag without a name says only that it is no other node. -/
def scalar (p : Properties) (style : Style) (text : String) : Node :=
  .scalar (if p.tag = some (.ofString "!") then { p with tag := none } else p) style text

/-- A node that is left out, of which something has to be said. -/
def empty (p : Properties) : Reader Node :=
  if p.isEmpty then failure else return .scalar p .plain ""

/-- A node that is left out if one of these tokens is next. -/
def orAbsent (ends : List Token) (node : Reader Node) : Reader Node := do
  if ← isNext ends then return .absent else node

/-- The value of an entry, which may be left out with its mark or without. -/
def valueOrAbsent (ends : List Token) (node : Reader Node) : Reader Node := do
  if ← isNext [.value] then
    skip
    orAbsent ends node
  else return .absent

mutual

/-- A node. Blocks are read if `block` says so, and so is a sequence that is
    no block of its own if `bare` does. -/
def node : (fuel : Nat) → (block bare : Bool) → Reader Node
  | 0, _, _ => failure
  | fuel + 1, block, bare => do
    if let some (.aliasOf name) ← peek then
      skip
      aliasOf name
    else
      let p ← properties
      match ← peek with
      | some .dash => if bare then .sequence p <$> bareItems fuel else empty p
      | some (.scalar style text) => skip; return scalar p style text
      | some .sequenceStart => skip; .sequence p <$> items fuel true
      | some .mappingStart => skip; .mapping p <$> members fuel true
      | some .blockSequence => if block then skip; .sequence p <$> blockItems fuel else empty p
      | some .blockMapping => if block then skip; .mapping p <$> entries fuel else empty p
      | _ => empty p

/-- The items of a sequence that is no block of its own. -/
def bareItems : (fuel : Nat) → Reader (List Node)
  | 0 => failure
  | fuel + 1 => do
    if ← isNext [.dash] then
      skip
      let item ← orAbsent [.dash, .key, .value, .blockEnd] (node fuel true false)
      return item :: (← bareItems fuel)
    else return []

/-- The items of a block. -/
def blockItems : (fuel : Nat) → Reader (List Node)
  | 0 => failure
  | fuel + 1 => do
    if ← isNext [.blockEnd] then
      skip
      return []
    else
      expect .dash
      let item ← orAbsent [.dash, .blockEnd] (node fuel true false)
      return item :: (← blockItems fuel)

/-- The entries of a block. -/
def entries : (fuel : Nat) → Reader (List (Node × Node))
  | 0 => failure
  | fuel + 1 => do
    if ← isNext [.blockEnd] then
      skip
      return []
    else
      expect .key
      let key ← orAbsent [.key, .value, .blockEnd] (node fuel true true)
      let value ← valueOrAbsent [.key, .value, .blockEnd] (node fuel true true)
      return (key, value) :: (← entries fuel)

/-- The items of a sequence within brackets, with commas between them and
    perhaps behind the last. -/
def items : (fuel : Nat) → (isFirst : Bool) → Reader (List Node)
  | 0, _ => failure
  | fuel + 1, isFirst => do
    let hasComma ← isNext [.comma]
    if hasComma && !isFirst then skip
    if ← isNext [.sequenceEnd] then
      skip
      return []
    else if isFirst || hasComma then
      let item ← item fuel
      return item :: (← items fuel false)
    else failure

/-- An item of a sequence within brackets. An entry is a mapping by itself; a
    mark that stands where its key could be left out is read in its place. -/
def item : (fuel : Nat) → Reader Node
  | 0 => failure
  | fuel + 1 => do
    if ← isNext [.key] then
      skip
      let isMark ← isNext [.value, .comma, .sequenceEnd]
      let key ← if isMark then skip *> pure .absent else node fuel false false
      let value ← valueOrAbsent [.comma, .sequenceEnd] (node fuel false false)
      return .mapping {} [(key, value)]
    else node fuel false false

/-- The entries of a mapping within brackets, with commas between them and
    perhaps behind the last. An entry without a mark is a key. -/
def members : (fuel : Nat) → (isFirst : Bool) → Reader (List (Node × Node))
  | 0, _ => failure
  | fuel + 1, isFirst => do
    let hasComma ← isNext [.comma]
    if hasComma && !isFirst then skip
    if ← isNext [.mappingEnd] then
      skip
      return []
    else if isFirst || hasComma then
      let member ← member fuel
      return member :: (← members fuel false)
    else failure

/-- An entry of a mapping within brackets. -/
def member : (fuel : Nat) → Reader (Node × Node)
  | 0 => failure
  | fuel + 1 => do
    if ← isNext [.key] then
      skip
      let key ← orAbsent [.value, .comma, .mappingEnd] (node fuel false false)
      let value ← valueOrAbsent [.comma, .mappingEnd] (node fuel false false)
      return (key, value)
    else return (← node fuel false false, .absent)

end

end Reader

namespace Node

/-- Behind the lines that say how a text is to be read, with the handles that
    they declare. The version may be told once, and each handle. -/
def directives? (hasVersion : Bool) (handles : Handles) :
    List Token → Option (Handles × List Token)
  | .version major minor :: r =>
    if hasVersion || major ≠ 1 || (minor ≠ 1 && minor ≠ 2) then none
    else directives? true handles r
  | .handle name meaning :: r =>
    if (handles.lookup name).isSome then none
    else directives? hasVersion ((name, meaning) :: handles) r
  | .documentStart :: r => some (handles, r)
  | _ => none

/-- Whether a text begins with a mark of its start, or with lines before it. -/
def isMarked : List Token → Bool
  | .version _ _ :: _ | .handle _ _ :: _ | .documentStart :: _ => true
  | _ => false

/-- The node of a text, of which nothing is left then but marks of its end. -/
def whole? (pending : Pending) : Option Node :=
  if pending.tokens.all (· = .documentEnd) then some absent
  else
    ((Reader.node (4 * pending.tokens.length + 4) true false).run pending).bind
      fun (node, pending) => if pending.tokens.all (· = .documentEnd) then some node else none

/-- The node that the tokens of a text hold. -/
def ofTokens? (ts : List Token) : Option Node :=
  if isMarked ts then
    (directives? false [] ts).bind fun (handles, tokens) =>
      whole? { tokens, handles := handles ++ .standard }
  else if ts.head? = some .documentEnd then none
  else whole? { tokens := ts }

/-- The node that a text holds. -/
def parse? (text : List Char) : Option Node := do
  let glyphs ← Glyph.ofChars? text
  let tokens ← Layout.tokens? glyphs
  ofTokens? tokens

end Node

end Yaml

end TagCatalog
