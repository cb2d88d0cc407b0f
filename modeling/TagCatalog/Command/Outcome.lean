import TagCatalog.Command.Arguments

/-!
# Runs of the Program

What a run of the program leaves: an exit code, what it printed and what it
wrote into its log. Notices are told as information, and what the run failed
with as an error; how much of both is written is up to the person.

## Main definitions

* `Outcome`: What a run leaves.
* `Invocation.perform`: The run of an invocation.
* `Outcome.misuse`: What is left when the arguments are none.
-/

namespace TagCatalog

/-- What kind of line a line of the log is. -/
inductive Severity where
  | error
  | info
  deriving DecidableEq, Repr

/-- The word for a severity. -/
def Severity.word : Severity → String
  | error => "ERROR"
  | info => "INFO"

/-- Whether lines of a severity are written. -/
def Verbosity.shows : Verbosity → Severity → Bool
  | off, _ => false
  | error, .error | warn, .error => true
  | error, .info | warn, .info => false
  | info, _ | debug, _ | trace, _ => true

/-- A line of the log. -/
structure LogLine where
  severity : Severity
  text : String
  deriving DecidableEq, Repr

/-- What a run leaves. -/
structure Outcome where
  exitCode : Nat
  output : String := ""
  log : List LogLine := []
  deriving DecidableEq, Repr

/-- Why there are no settings. -/
inductive SettingsFault where
  | missing
  | unreadable (reason : String)
  | malformed
  deriving DecidableEq, Repr

/-- The wording of a fault. -/
def SettingsFault.message : SettingsFault → String
  | missing => "failed to read config file: No such file or directory (os error 2)"
  | unreadable reason => "failed to read config file: " ++ reason
  | malformed => "failed to parse config file: not a settings text"

namespace Outcome

/-- What is left when the arguments are none of the program's. -/
def misuse : Outcome := { exitCode := 2 }

/-- What is left when there are no settings. -/
def unsettled (fault : SettingsFault) : Outcome :=
  { exitCode := 1, log := [⟨.error, "Failed to load configuration: " ++ fault.message⟩] }

/-- What is left of a report. -/
def ofReport (report : Report String) : Outcome :=
  let notices := report.notices.map fun n => LogLine.mk .info n.message
  match report.result with
  | .ok output => { exitCode := 0, output, log := notices }
  | .error e => { exitCode := 1, log := notices ++ [⟨.error, e.message⟩] }

/-- An outcome with the lines that are written into the log. -/
def shown (verbosity : Verbosity) (o : Outcome) : Outcome :=
  { o with log := o.log.filter fun line => verbosity.shows line.severity }

end Outcome

/-- The run of an invocation, with its settings and in a zone. -/
def Invocation.perform (i : Invocation) (zone : Zone) :
    Except SettingsFault Settings → Http.Call Outcome
  | .error fault => .done ((Outcome.unsettled fault).shown i.verbosity)
  | .ok settings =>
    (i.command.activity settings zone).bind fun report =>
      .done ((Outcome.ofReport report).shown i.verbosity)

end TagCatalog
