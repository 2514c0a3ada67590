import Lox.Command.Args
import Lox.Command.Prompt
import Lox.RunFile

/-!
# The command line
-/

namespace Lox.Command

def versionText : String := "losos 0.1.0\n"

/-- The start of a status line: a word, right-aligned to eleven columns. -/
def status (colour : Bool) (c : Colour) (word : String) : Notice :=
  .text (Paint.render colour
    (.styled { bold := true, colour := some c } (Text.padLeft 11 word) ++ .plain " "))

/-- The lines in front of a run and behind it. -/
def running (colour : Bool) (path : String) : List Notice :=
  [status colour .brightMagenta "Running", .text (path ++ "\n")]

def finished (colour : Bool) : List Notice :=
  [status colour .brightGreen "Finished", .text "in ", .elapsed, .text "\n"]

def Exit.ofFailure : Failure → Exit
  | .malformed .. => .dataError
  | .runtime .. => .softwareError
  | .unreadable _ => .ioError

/-- Whether a failure is shown in full behind the run. A failure that was not reported while it ran
always is. -/
def shownInFull (pretty : Bool) : Failure → Bool
  | .unreadable _ => true
  | _ => pretty

/-- Runs a file, given its bytes or why they could not be read. -/
def runCommand (path : String) (pretty : Bool) (verbosity : Nat) (colour : Bool)
    (content : Except IoCause (List UInt8)) : Transcript :=
  match runFile path content {} with
  | .error fault => { err := [.text (fault.message ++ "\n")], exit := .fault }
  | .ok (result, s) =>
    let events := Notice.ofEvents verbosity (!pretty) s.feed
    let around := if verbosity = 0 then events else running colour path ++ events ++ finished colour
    match result with
    | .ok v => { out := v.text ++ "\n", err := around }
    | .error failure =>
      let full := if shownInFull pretty failure then [Notice.text (failure.paint.render colour)]
        else []
      { err := around ++ full, exit := .ofFailure failure }

/-- What a command writes, given how to read a file, standard input, and whether colour is asked
for. -/
def execute (command : Command) (verbosity : Nat) (colour : Bool)
    (read : String → Except IoCause (List UInt8)) (input : List UInt8) : Transcript :=
  match command with
  | .run path pretty => runCommand path pretty verbosity colour (read path)
  | .repl => Mode.evaluate.session verbosity input
  | .rlpl => Mode.tokens.session verbosity input
  | .rppl postfixed => (Mode.tree postfixed).session verbosity input

/-- What the program writes. A request that makes no sense is answered by its exit alone. -/
def program (args : List String) (colour : Bool) (read : String → Except IoCause (List UInt8))
    (input : List UInt8) : Transcript :=
  match Request.ofArgs? args with
  | none => { exit := .usage }
  | some .version => { out := versionText }
  | some (.invoke command verbosity) => command.execute verbosity colour read input

end Lox.Command
