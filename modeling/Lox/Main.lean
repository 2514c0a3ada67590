import Lox.Command

/-!
# The program

Reads arguments, files and standard input, and writes what the command line module says. At a prompt
each line is answered as soon as it has been read.
-/

namespace Lox.Command

/-- The cause of a failed read. -/
def causeOf : IO.Error → IoCause
  | .noFileOrDirectory .. => .notFound
  | .permissionDenied .. => .permissionDenied
  | .inappropriateType .. => .isADirectory
  | .invalidArgument .. => .invalidInput
  | .interrupted .. => .interrupted
  | .timeExpired .. => .timedOut
  | .unsupportedOperation .. => .unsupported
  | .resourceExhausted .. => .outOfMemory
  | _ => .other

def readBytes (path : String) : IO (Except IoCause (List UInt8)) := do
  try
    return .ok (← IO.FS.readBinFile path).toList
  catch e =>
    return .error (causeOf e)

/-- Seconds with two digits behind the point. -/
def seconds (milliseconds : Nat) : String :=
  let hundredths := (milliseconds + 5) / 10
  let fraction := toString (hundredths % 100)
  toString (hundredths / 100) ++ "." ++ (if fraction.length < 2 then "0" else "") ++ fraction ++ "s"

/-- Writes notices, with the time since `start` where one belongs. -/
def writeNotices (start : Nat) (notices : List Notice) : IO Unit := do
  let err ← IO.getStderr
  for n in notices do
    let time := seconds ((← IO.monoMsNow) - start)
    err.putStr (n.render time time)
  err.flush

/-- The bytes up to and including the next line feed. -/
partial def readChunk (input : IO.FS.Stream) (read : List UInt8) : IO (List UInt8) := do
  let next ← input.read 1
  match next.toList with
  | [] => return read.reverse
  | b :: _ => if b = 10 then return (b :: read).reverse else readChunk input (b :: read)

partial def converse (m : Mode) (verbosity start : Nat) (s : Sink) (input out : IO.FS.Stream) :
    IO UInt32 := do
  out.putStr prompt
  out.flush
  match ← readChunk input [] with
  | [] =>
    out.putStr "\n"
    return 0
  | chunk =>
    let (reply, s) := m.answer verbosity chunk s
    out.putStr reply.out
    out.flush
    writeNotices start reply.err
    match reply.exit with
    | some exit => return UInt32.ofNat exit.code
    | none => converse m verbosity start s input out

/-- Holds a session at the prompt. -/
def hold (m : Mode) (verbosity start : Nat) : IO UInt32 := do
  let out ← IO.getStdout
  out.putStr m.banner
  converse m verbosity start {} (← IO.getStdin) out

def write (start : Nat) (t : Transcript) : IO UInt32 := do
  (← IO.getStdout).putStr t.out
  writeNotices start t.err
  return UInt32.ofNat t.exit.code

end Lox.Command

open Lox.Command in
def main (args : List String) : IO UInt32 := do
  let start ← IO.monoMsNow
  let colour := ((← IO.getEnv "FORCE_COLOR").getD "") ≠ ""
  match Request.ofArgs? args with
  | some (.invoke (.run path pretty) verbosity) =>
    write start (runCommand path pretty verbosity colour (← readBytes path))
  | some (.invoke .repl verbosity) => hold .evaluate verbosity start
  | some (.invoke .rlpl verbosity) => hold .tokens verbosity start
  | some (.invoke (.rppl postfixed) verbosity) => hold (.tree postfixed) verbosity start
  | _ => write start (program args colour (fun _ => .error .notFound) [])
