import Lox.Paint
import Lox.Sink

/-!
# Transcripts

What a session writes. The times in it are left open, so that a session is a function of what it
reads.
-/

namespace Lox.Command

/-- How the program ends. -/
inductive Exit where
  | success
  | usage
  | dataError
  | softwareError
  | ioError
  | fault
  deriving DecidableEq, Repr, Inhabited

def Exit.code : Exit → Nat
  | success => 0
  | usage => 2
  | dataError => 65
  | softwareError => 70
  | ioError => 74
  | fault => 101

/-- A piece of what is written to standard error: text, an entry of the log with its time in front,
or the time that a run took. -/
inductive Notice where
  | text (s : String)
  | log (l : Log)
  | elapsed
  deriving DecidableEq, Inhabited

namespace Notice

/-- The text, given how times are written. -/
def render (stamp elapsedTime : String) : Notice → String
  | text s => s
  | log l => stamp ++ " " ++ l.text ++ "\n"
  | elapsed => elapsedTime

/-- What is written for an event. The log is written up to a verbosity, and reports only if they are
streamed. -/
def ofEvent? (verbosity : Nat) (streamed : Bool) : Event → Option Notice
  | .report r => if streamed then some (.text (r.text ++ "\n")) else none
  | .log l => if l.level.verbosity ≤ verbosity then some (.log l) else none

def ofEvents (verbosity : Nat) (streamed : Bool) (events : List Event) : List Notice :=
  events.filterMap (ofEvent? verbosity streamed)

end Notice

/-- What is written to standard output and to standard error. -/
structure Transcript where
  out : String := ""
  err : List Notice := []
  exit : Exit := .success
  deriving Inhabited

end Lox.Command
