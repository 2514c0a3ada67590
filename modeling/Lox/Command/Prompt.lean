import Lox.Command.Transcript
import Lox.Run
import Lox.Utf8

/-!
# Prompts

A session at the prompt reads a line, answers it and prompts again. It has one sink, which is
cleared behind every line. The session ends with the input, at `.exit`, or at a line that is not
UTF-8.
-/

namespace Lox.Command

/-- What a session does with a line: evaluate it, list its tokens, or print its tree. -/
inductive Mode where
  | evaluate
  | tokens
  | tree (postfixed : Bool)
  deriving DecidableEq, Repr, Inhabited

/-- What is written once, in front of the first prompt. -/
def Mode.banner : Mode → String
  | evaluate => "Type .exit or press Ctrl-D to quit\n\n"
  | tokens | tree _ => ""

def prompt : String := "> "

/-- The answer to a line. The session goes on unless it says how to end. -/
structure Reply where
  out : String := ""
  err : List Notice := []
  exit : Option Exit := none
  deriving Inhabited

/-- An item in a listing of tokens. -/
def itemText : Item → String
  | .token t => t.text
  | .error e => "[line " ++ toString e.line ++ "] Lexical Error: " ++ e.message

/-- What is printed for a line that is neither empty nor the end. -/
def Mode.print (m : Mode) (line : String) (s : Sink) : Except Fault (String × Sink) :=
  match m with
  | evaluate => (Lox.run line s).map fun
    | (.value v, s) => (v.text ++ "\n", s)
    | (_, s) => ("", s)
  | tokens => .ok (String.join ((scan line).map fun i => itemText i ++ "\n"), s)
  | tree postfixed => (parse line s).map fun
    | (some e, s) => ((if postfixed then e.postfixForm else e.display) ++ "\n", s)
    | (none, s) => ("", s)

/-- A text without this character at its end, if it stands there. -/
def withoutLast (c : Char) (cs : List Char) : List Char :=
  if cs.getLast? = some c then cs.dropLast else cs

/-- A line without its line feed, and then without a carriage return. -/
def trimLine (s : String) : String :=
  String.ofList (withoutLast '\r' (withoutLast '\n' s.toList))

/-- The answer to a line, and the sink for the next one. What the line has put into the feed is
written, and its reports are dropped. -/
def Mode.respond (m : Mode) (verbosity : Nat) (line : String) (s : Sink) : Reply × Sink :=
  match m.print line s with
  | .ok (out, s) =>
    let (events, s) := s.clear.takeFeed
    ({ out, err := Notice.ofEvents verbosity true events }, s)
  | .error fault => ({ err := [.text (fault.message ++ "\n")], exit := some .fault }, s)

/-- The answer to the bytes of a line, and the sink for the next one. -/
def Mode.answer (m : Mode) (verbosity : Nat) (bytes : List UInt8) (s : Sink) : Reply × Sink :=
  match Utf8.decode bytes with
  | .error _ =>
    ({ err := [.text "stream did not contain valid UTF-8\n"], exit := some .ioError }, s)
  | .ok text =>
    let line := trimLine text
    if line = "" then ({}, s)
    else if line = ".exit" then ({ exit := some .success }, s)
    else m.respond verbosity line s

/-- The bytes of the lines, each with its line feed. -/
def chunks : List UInt8 → List (List UInt8)
  | [] => []
  | b :: bs =>
    if b = 10 then [b] :: chunks bs
    else match chunks bs with
      | [] => [[b]]
      | c :: cs => (b :: c) :: cs

/-- The rest of a session. -/
def Mode.proceed (m : Mode) (verbosity : Nat) (s : Sink) : List (List UInt8) → Transcript
  | [] => { out := prompt ++ "\n" }
  | c :: cs =>
    let (reply, s) := m.answer verbosity c s
    match reply.exit with
    | some exit => { out := prompt ++ reply.out, err := reply.err, exit }
    | none =>
      let rest := m.proceed verbosity s cs
      { out := prompt ++ reply.out ++ rest.out
        err := reply.err ++ rest.err
        exit := rest.exit }

/-- A whole session, given all of its input. -/
def Mode.session (m : Mode) (verbosity : Nat) (input : List UInt8) : Transcript :=
  let rest := m.proceed verbosity {} (chunks input)
  { rest with out := m.banner ++ rest.out }

end Lox.Command
