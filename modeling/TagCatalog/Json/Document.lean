import TagCatalog.Json.Number
import TagCatalog.Json.Token
import TagCatalog.Json.Tree

/-!
# Documents as Written

A document as it stands in its text: numbers by their parts, texts perhaps
ill formed, members in the order of the text, with names that may stand there
twice.

Reading is a machine over the tokens with the open lists and objects on a
stack. What may come next is part of its state, so that no token has to be
looked at twice.

The language is JSON as RFC 8259 has it, and a text is read as `serde_json` reads
it: nothing but blanks may follow the document. Its limits on numbers and nesting
come later, when it is known what a document is read for.

## Main definitions

* `Document`: A document as it stands in its text.
* `Document.parse?`: The document that a text is.
-/

namespace TagCatalog

namespace Json

/-- A document as it stands in its text. -/
abbrev Document := Tree NumberText (Option String)

namespace Document

/-- A list or object that is still open, with what it holds last first. -/
inductive Frame where
  | array (done : List Document)
  | object (done : List (Option String × Document))
  /-- An object in which the value of a name is being read. -/
  | member (done : List (Option String × Document)) (name : Option String)

/-- What may come next. -/
inductive Expectation where
  | value
  /-- The first value of a list, or its end. -/
  | firstValue
  | name
  /-- The first name of an object, or its end. -/
  | firstName
  | colon
  /-- A comma, or the end of what is open. -/
  | separator
  /-- Nothing; the document is complete. -/
  | nothing (document : Document)

/-- Where reading stands. -/
structure State where
  stack : List Frame
  expected : Expectation

/-- Go on behind a complete value. -/
def complete (value : Document) : List Frame → Option State
  | [] => some ⟨[], .nothing value⟩
  | .array done :: stack => some ⟨.array (value :: done) :: stack, .separator⟩
  | .member done name :: stack => some ⟨.object ((name, value) :: done) :: stack, .separator⟩
  | .object _ :: _ => none

/-- The value that a word is. -/
def ofWord? (cs : List Char) : Option Document :=
  if cs = "null".toList then some .null
  else if cs = "true".toList then some (.bool true)
  else if cs = "false".toList then some (.bool false)
  else (NumberText.ofChars? cs).map .number

/-- Go on with a token where a value has to come. -/
def value? (stack : List Frame) : Token → Option State
  | .openArray => some ⟨.array [] :: stack, .firstValue⟩
  | .openObject => some ⟨.object [] :: stack, .firstName⟩
  | .word cs => (ofWord? cs).bind fun value => complete value stack
  | .text s => complete (.text s) stack
  | _ => none

/-- Go on with a token. -/
def step? (state : State) (t : Token) : Option State :=
  match state.expected, t, state.stack with
  | .firstValue, .closeArray, .array done :: stack
  | .separator, .closeArray, .array done :: stack => complete (.array done.reverse) stack
  | .firstName, .closeObject, .object done :: stack
  | .separator, .closeObject, .object done :: stack => complete (.object done.reverse) stack
  | .value, t, stack
  | .firstValue, t, stack => value? stack t
  | .name, .text s, .object done :: stack
  | .firstName, .text s, .object done :: stack => some ⟨.member done s :: stack, .colon⟩
  | .colon, .colon, stack => some ⟨stack, .value⟩
  | .separator, .comma, .array done :: stack => some ⟨.array done :: stack, .value⟩
  | .separator, .comma, .object done :: stack => some ⟨.object done :: stack, .name⟩
  | _, _, _ => none

/-- The document that some tokens are. -/
def ofTokens? (tokens : List Token) : Option Document :=
  match tokens.foldlM step? ⟨[], .value⟩ with
  | some ⟨_, .nothing document⟩ => some document
  | _ => none

/-- The document that a text is. -/
def parse? (text : List Char) : Option Document :=
  (Token.scan? text).bind ofTokens?

end Document

end Json

end TagCatalog
