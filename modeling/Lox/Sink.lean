import Lox.Log
import Lox.Report

/-!
# The sink

Reports are kept in a sink in the order in which they arrive, until they are taken out. Each is also
passed on to a feed as soon as it arrives, together with the log. Taking the reports leaves the feed
alone, and the other way round.
-/

namespace Lox

/-- What is passed on. -/
inductive Event where
  | report (r : Report)
  | log (l : Log)
  deriving DecidableEq, Inhabited

namespace Event

def report? : Event → Option Report
  | report r => some r
  | log _ => none

end Event

structure Sink where
  reports : List Report := []
  hadError : Bool := false
  hadRuntimeError : Bool := false
  feed : List Event := []
  deriving Inhabited

namespace Sink

/-- Keeps a report and passes it on. -/
def post (r : Report) (s : Sink) : Sink where
  reports := s.reports ++ [r]
  hadError := s.hadError || r.syntaxError?.isSome
  hadRuntimeError := s.hadRuntimeError || r.runtimeError?.isSome
  feed := s.feed ++ [.report r]

def malformed (e : SyntaxError) (s : Sink) : Sink := s.post (.malformed e)

def runtime (e : RuntimeError) (s : Sink) : Sink := s.post (.runtime e)

/-- Passes an entry of the log on. -/
def log (l : Log) (s : Sink) : Sink := { s with feed := s.feed ++ [.log l] }

def syntaxErrors (s : Sink) : List SyntaxError := s.reports.filterMap Report.syntaxError?

def runtimeErrors (s : Sink) : List RuntimeError := s.reports.filterMap Report.runtimeError?

/-- The number of errors in how texts are written. -/
def errorCount (s : Sink) : Nat := s.syntaxErrors.length

/-- Takes the reports out. The feed keeps what was passed on. -/
def take (s : Sink) : List Report × Sink := (s.reports, { feed := s.feed })

def clear (s : Sink) : Sink := s.take.2

/-- The reports that wait in the feed. -/
def emitted (s : Sink) : List Report := s.feed.filterMap Event.report?

/-- Empties the feed. The reports are kept. -/
def takeFeed (s : Sink) : List Event × Sink := (s.feed, { s with feed := [] })

end Sink

end Lox
