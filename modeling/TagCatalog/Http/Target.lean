import TagCatalog.Number.Numeral
import TagCatalog.Text.Percent
import TagCatalog.Text.Split

/-!
# Targets

Where a request goes: an absolute address of the web taken apart. Many ways of
writing an address name one target, which is written in one way: scheme and
host in lower case, the usual service left out, no steps up or down in the path,
and characters that have no place there percent-coded. Names of hosts consist
of ASCII characters; whoever asks in front of the host is not part of a target.

This is the reading and writing of addresses of the URL Standard, to which
`reqwest` holds, for the schemes `http` and `https`. Names in other alphabets and
numbers of hosts in other forms than the one they are written in are left out.

## Main definitions

* `Http.Target`: Where a request goes.
* `Http.Target.ofChars?`: The target that an address names.
* `Http.Target.chars`: The address of a target.
-/

namespace TagCatalog

namespace Http

open Text

/-- Where a request goes. -/
structure Target where
  scheme : List Char
  host : List Char
  /-- The number of the service at the host, unless it is the usual one. -/
  service : Option Nat
  /-- The steps of the path, each of them behind a slash. -/
  path : List (List Char)
  query : Option (List Char)
  fragment : Option (List Char)
  deriving DecidableEq, Repr

namespace Target

/-- The service that is usual for a scheme of the web. -/
def usualService? (scheme : List Char) : Option Nat :=
  if scheme = "http".toList then some 80
  else if scheme = "https".toList then some 443
  else none

/-- An address without the blanks around it and the breaks in it. -/
def tidy (cs : List Char) : List Char :=
  let isEdge (c : Char) : Bool := c.toNat ≤ 0x20
  let cs := ((cs.dropWhile isEdge).reverse.dropWhile isEdge).reverse
  cs.filter fun c => c ≠ '\t' && c ≠ '\n' && c ≠ '\r'

/-- Whether a character is visible, and none of some. -/
def isVisibleBut (others : List Char) (c : Char) : Bool :=
  0x20 < c.toNat && c.toNat < 0x7F && !others.contains c

/-- Whether a character stays in a path. -/
def keptInPath : Char → Bool := isVisibleBut "\"#<>?\x60\x7b\x7d".toList

/-- Whether a character stays in a query. -/
def keptInQuery : Char → Bool := isVisibleBut "\"#<>'".toList

/-- Whether a character stays in a fragment. -/
def keptInFragment : Char → Bool := isVisibleBut "\"<>\x60".toList

/-- Whether a character may stand in the name of a host. -/
def isHostChar : Char → Bool := isVisibleBut "#%/:<>?@[\\]^\x60\x7b|\x7d".toList

/-- Whether a character may stand in the number of a host. -/
def isHostNumberChar (c : Char) : Bool := c.isDigit || "abcdef:.".toList.contains c

/-- The host and what is behind it: a number between brackets, or a name. -/
def host? (cs : List Char) : Option (List Char × List Char) :=
  match cs with
  | '[' :: r =>
    (cut? ']' r).bind fun (number, rest) =>
      let number := number.map Char.toLower
      if number.isEmpty || !number.all isHostNumberChar then none
      else some ('[' :: number ++ [']'], rest)
  | cs =>
    let name := (Percent.decode (cs.takeWhile (· ≠ ':'))).map Char.toLower
    if name.isEmpty || !name.all isHostChar then none else some (name, cs.dropWhile (· ≠ ':'))

/-- The service behind a host: none, or a number behind a colon. -/
def service? (usual : Nat) (cs : List Char) : Option (Option Nat) :=
  match cs with
  | [] | [':'] => some none
  | ':' :: digits =>
    (Numeral.natural? digits).bind fun n =>
      if 65535 < n then none else some (if n = usual then none else some n)
  | _ => none

/-- Whether a step of a path stays where it is. -/
def isStay (step : List Char) : Bool :=
  [".", "%2e"].contains (String.ofList (step.map Char.toLower))

/-- Whether a step of a path goes back. -/
def isBack (step : List Char) : Bool :=
  ["..", ".%2e", "%2e.", "%2e%2e"].contains (String.ofList (step.map Char.toLower))

/-- The steps of a path behind the steps in `done`, which are last first. -/
def walk (done : List (List Char)) : List (List Char) → List (List Char)
  | [] => done.reverse
  | [step] =>
    if isStay step then ([] :: done).reverse
    else if isBack step then ([] :: done.tail).reverse
    else (step :: done).reverse
  | step :: r =>
    if isStay step then walk done r
    else if isBack step then walk done.tail r
    else walk (step :: done) r

/-- The steps of a path, which begins with a slash unless it is empty. -/
def pathOf (cs : List Char) : List (List Char) :=
  let steps := splitOn '/' (cs.map fun c => if c = '\\' then '/' else c)
  (walk [] (steps.drop 1)).map (Percent.encode keptInPath)

/-- A text up to a mark, and what is behind the mark if it is there. -/
def cutOff (mark : Char) (cs : List Char) : List Char × Option (List Char) :=
  match cut? mark cs with
  | some (before, behind) => (before, some behind)
  | none => (cs, none)

/-- The target that an address names, if it is an absolute one of the web. -/
def ofChars? (cs : List Char) : Option Target := do
  let (scheme, rest) ← cut? ':' (tidy cs)
  let scheme := scheme.map Char.toLower
  let usual ← usualService? scheme
  let (rest, fragment) := cutOff '#' (rest.dropWhile fun c => c = '/' || c = '\\')
  let (rest, query) := cutOff '?' rest
  let isInside (c : Char) : Bool := c ≠ '/' && c ≠ '\\'
  let (host, behind) ← host? (throughLast '@' (rest.takeWhile isInside)).2
  let service ← service? usual behind
  some
    { scheme, host, service
      path := pathOf (rest.dropWhile isInside)
      query := query.map (Percent.encode keptInQuery)
      fragment := fragment.map (Percent.encode keptInFragment) }

/-- The address of a target. -/
def chars (t : Target) : List Char :=
  let behind (mark : Char) (part : Option (List Char)) : List Char :=
    (part.map (mark :: ·)).getD []
  t.scheme ++ "://".toList ++ t.host ++ behind ':' (t.service.map Numeral.ofNat) ++
    '/' :: joinWith '/' t.path ++ behind '?' t.query ++ behind '#' t.fragment

end Target

end Http

end TagCatalog
