import TagCatalog.Command.Outcome
import TagCatalog.Http.Document
import TagCatalog.Http.Network

/-!
# The Program

Runs an invocation. Each request is written to the error stream, and the reply
to it is read from the input, one line each; at the end of the input the
server is out of reach.

## Main definitions

* `main`: The program.
-/

namespace TagCatalog

namespace Program

/-- A computation with its requests written to one stream and the replies read
    from another. -/
def converse {α : Type} (replies requests : IO.FS.Stream) : Http.Call α → IO α
  | .done a => pure a
  | .ask request next => do
    match Http.Target.ofChars? request.url.toList with
    | none => converse replies requests (next (.unanswered .unsendable))
    | some target =>
      let request := { request with url := String.ofList target.chars }
      requests.putStrLn request.note
      let line ← replies.getLine
      converse replies requests (next (Http.Reply.ofLine request line.toList))

/-- The settings that a file holds. -/
def settings (path : String) : IO (Except SettingsFault Settings) := do
  try
    let text ← IO.FS.readFile path
    match Settings.parse? text.toList with
    | some settings => pure (.ok settings)
    | none => pure (.error .malformed)
  catch
    | .noFileOrDirectory .. => pure (.error .missing)
    | e => pure (.error (.unreadable (toString e)))

/-- Write what a run leaves. -/
def write (o : Outcome) : IO UInt32 := do
  for line in o.log do
    IO.eprintln ("[" ++ line.severity.word ++ "] " ++ line.text)
  IO.print o.output
  pure (UInt32.ofNat o.exitCode)

end Program

end TagCatalog

open TagCatalog in
/-- Runs the invocation that the arguments are. -/
def main (args : List String) : IO UInt32 := do
  match Invocation.parse? args with
  | none => Program.write .misuse
  | some invocation =>
    let settings ← Program.settings invocation.settingsPath
    let outcome ←
      Program.converse (← IO.getStdin) (← IO.getStderr) (invocation.perform .utc settings)
    Program.write outcome
