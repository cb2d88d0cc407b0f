import TagCatalog.Command.Basic

/-!
# Arguments

How a command is given on the command line. Options have long names, and one
of them has a letter; their values stand behind an equals sign or in the next
argument. What begins with a hyphen is an option, unless it stands behind two
hyphens by themselves.

## Main definitions

* `Argument`: What a single argument is.
* `Arguments.scan?`: Options and operands apart.
* `Invocation`: A command with the settings of a run.
* `Invocation.parse?`: The invocation that some arguments are.
-/

namespace TagCatalog

open Text

/-- What a single argument is. -/
inductive Argument where
  /-- An option, perhaps with the value behind its equals sign. -/
  | option (name : String) (value : Option String)
  | operand (text : String)
  /-- All further arguments are operands. -/
  | separator
  deriving DecidableEq, Repr

namespace Argument

/-- What an argument is, where some options also have letters. -/
def ofString (letters : List (Char × String)) (arg : String) : Argument :=
  match arg.toList with
  | ['-', '-'] => separator
  | '-' :: '-' :: body =>
    match cut? '=' body with
    | some (name, value) => option (String.ofList name) (some (String.ofList value))
    | none => option (String.ofList body) none
  | '-' :: letter :: r =>
    let name := (letters.lookup letter).getD (String.ofList [letter])
    match r with
    | [] => option name none
    | '=' :: value => option name (some (String.ofList value))
    | value => option name (some (String.ofList value))
  | _ => operand arg

/-- Whether an argument can be the value of the option before it. -/
def isValue (arg : String) : Bool :=
  match ofString [] arg with
  | operand _ => true
  | _ => false

end Argument

/-- Options and operands apart. A flag has an empty value. -/
structure Arguments where
  options : List (String × String) := []
  operands : List String := []
  deriving DecidableEq, Repr

/-- What options there are. -/
structure OptionTable where
  letters : List (Char × String) := []
  flags : List String := []
  valued : List String := []

namespace Arguments

/-- Arguments with an option at their start. -/
def withOption (name value : String) (a : Arguments) : Arguments :=
  { a with options := (name, value) :: a.options }

/-- Arguments with an operand at their start. -/
def withOperand (text : String) (a : Arguments) : Arguments :=
  { a with operands := text :: a.operands }

/-- Options and operands apart. If options may only lead, all that follows the
    first operand is taken as it is. -/
def scan? (table : OptionTable) (leading : Bool) : List String → Option Arguments
  | [] => some {}
  | arg :: r =>
    match Argument.ofString table.letters arg with
    | .separator => if leading then none else some { operands := r }
    | .operand text =>
      if leading then some { operands := text :: r }
      else (scan? table leading r).map (withOperand text)
    | .option name (some value) =>
      if table.valued.contains name then (scan? table leading r).map (withOption name value)
      else none
    | .option name none =>
      if table.flags.contains name then (scan? table leading r).map (withOption name "")
      else
        match r with
        | value :: r =>
          if table.valued.contains name && Argument.isValue value then
            (scan? table leading r).map (withOption name value)
          else none
        | [] => none

/-- The values of an option. -/
def values (a : Arguments) (name : String) : List String :=
  (a.options.filter fun o => o.1 = name).map Prod.snd

/-- The value of an option that may be given once; `none` if it is given more
    often. -/
def once? (a : Arguments) (name : String) : Option (Option String) :=
  match a.values name with
  | [] => some none
  | [value] => some (some value)
  | _ => none

end Arguments

/-- How much is told in the log. -/
inductive Verbosity where
  | off
  | error
  | warn
  | info
  | debug
  | trace
  deriving DecidableEq, Repr

/-- The verbosity with a name, whatever the case of its letters. -/
def Verbosity.ofName? (name : String) : Option Verbosity :=
  match String.ofList (name.toList.map Char.toLower) with
  | "off" => some off
  | "error" => some error
  | "warn" => some warn
  | "info" => some info
  | "debug" => some debug
  | "trace" => some trace
  | _ => none

/-- A command with the settings of a run. -/
structure Invocation where
  settingsPath : String := "/etc/tagfiler/config.yaml"
  verbosity : Verbosity := .info
  command : Command
  deriving DecidableEq, Repr

namespace Invocation

/-- The options in front of a command. -/
def leadingOptions : OptionTable :=
  { letters := [('c', "config-file")], valued := ["config-file", "log-level"] }

/-- The page that a text names, if there is a text. -/
def page? : Option String → Option (Option UInt64)
  | none => some none
  | some text => (Numeral.word? text.toList).map some

/-- The command with a name and arguments. -/
def command? (name : String) (args : List String) : Option Command :=
  match name with
  | "decode" => do
    match ← Arguments.scan? {} false args with
    | { operands := [link], .. } => some (.decode link)
    | _ => none
  | "link" => do
    let a ← Arguments.scan? { valued := ["link"] } false args
    let link ← a.once? "link"
    if a.operands.isEmpty then some (.link link) else none
  | "preview" => do
    let a ← Arguments.scan? { flags := ["force"], valued := ["link", "page"] } false args
    let link ← a.once? "link"
    let page ← (a.once? "page").bind page?
    let force ← a.once? "force"
    if a.operands.isEmpty then some (.preview link page force.isSome) else none
  | "range" => do
    let a ← Arguments.scan? { valued := ["link"] } false args
    let link ← a.once? "link"
    match a.operands with
    | [tag] => some (.range tag link)
    | _ => none
  | "set-tag" => do
    let a ← Arguments.scan? { valued := ["link", "id"] } false args
    let link ← a.once? "link"
    match a.operands with
    | tag :: value :: values => some (.setTag tag (value :: values) link (a.values "id"))
    | _ => none
  | "delete-tag" => do
    let a ← Arguments.scan? { valued := ["link", "id"] } false args
    let link ← a.once? "link"
    match a.operands with
    | tag :: values => some (.deleteTag tag values link (a.values "id"))
    | _ => none
  | _ => none

/-- The invocation that some arguments are. -/
def parse? (args : List String) : Option Invocation := do
  let a ← Arguments.scan? leadingOptions true args
  let path ← a.once? "config-file"
  let level ← a.once? "log-level"
  let verbosity ← (level.map Verbosity.ofName?).getD (some .info)
  match a.operands with
  | name :: rest =>
    let command ← command? name rest
    some { settingsPath := path.getD "/etc/tagfiler/config.yaml", verbosity, command }
  | [] => none

end Invocation

end TagCatalog
