import Lox.Folder
import Lox.Run
import Lox.Utf8

/-!
# Running a file
-/

namespace Lox

/-- Runs a text that came from a file. A malformed text fails with every error in how a text is
written that the sink holds, those from before included; a failed evaluation with the last error
reported. -/
def runText (path src : String) (s : Sink) : Except Fault (Except Failure Value × Sink) := do
  let (outcome, s) ← run src s
  match outcome with
  | .value v => return (.ok v, s)
  | .syntaxFailure => return (.error (.malformed path src s.syntaxErrors), s)
  | .runtimeFailure =>
    match s.runtimeErrors.getLast? with
    | some e => return (.error (.runtime path src e), s)
    | none => throw .unreported

/-- Runs a file, given its bytes or why they could not be read. If it is not read as a text the sink
is left as it was. -/
def runFile (path : String) (content : Except IoCause (List UInt8)) (s : Sink) :
    Except Fault (Except Failure Value × Sink) :=
  match content >>= Utf8.decode with
  | .error cause => .ok (.error (.unreadable cause), s)
  | .ok src => runText path src (s.log (.runningFile path src.utf8ByteSize))

namespace Folder

/-- The text of a file. -/
def readText (f : Folder) (path : String) : Except IoCause String := f.read path >>= Utf8.decode

/-- Runs a file of the folder. -/
def run (f : Folder) (path : String) (s : Sink) : Except Fault (Except Failure Value × Sink) :=
  runFile path (f.read path) s

end Folder

end Lox
