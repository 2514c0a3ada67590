import Lox.Eval
import Lox.Parse

/-!
# The log

What a run does, step by step, for a user who asks for it.
-/

namespace Lox

/-- How much of the log a user asks for. -/
inductive Level where
  | info
  | debug
  | trace
  deriving DecidableEq, Repr, Inhabited

namespace Level

/-- The level's name, right-aligned to five columns. -/
def column : Level → String
  | info => " INFO"
  | debug => "DEBUG"
  | trace => "TRACE"

/-- The least verbosity at which the level is shown. -/
def verbosity : Level → Nat
  | info => 1
  | debug => 2
  | trace => 3

end Level

/-- An entry of the log. -/
inductive Log where
  | runningFile (path : String) (bytes : Nat)
  | token (t : Token)
  | scanned (tokens : Nat)
  | parsed (e : Expr)
  | aborted (e : ParseError)
  | evaluated (v : Value)
  | failed (e : RuntimeError)
  deriving DecidableEq, Inhabited

namespace Log

def level : Log → Level
  | runningFile .. => .info
  | token _ => .trace
  | scanned _ | parsed _ | aborted _ | evaluated _ | failed _ => .debug

/-- The part of the program that speaks. -/
def target : Log → String
  | runningFile .. => "losos_core::runner"
  | token _ | scanned _ => "losos_core::lexer::lexer"
  | parsed _ | aborted _ => "losos_core::parser::parser"
  | evaluated _ | failed _ => "losos_core::eval"

def message : Log → String
  | runningFile path bytes => "running file path=" ++ path ++ " bytes=" ++ toString bytes
  | token t => "token token=" ++ t.text
  | scanned n => "scanned source tokens=" ++ toString n
  | parsed e => "parsed expression expression=" ++ e.display
  | aborted e =>
    "parse aborted line=" ++ toString e.token.line ++ " error=\"" ++ e.message ++ "\""
  | evaluated v => "evaluated expression value=" ++ v.text
  | failed e => "runtime error line=" ++ toString e.token.line ++ " error=" ++ e.message

/-- The entry as it is written behind its time. -/
def text (l : Log) : String := l.level.column ++ " " ++ l.target ++ ": " ++ l.message

end Log

end Lox
