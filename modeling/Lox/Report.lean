import Lox.Eval
import Lox.Parse
import Lox.Scan

/-!
# Reports

What the user is told about a text: an error in how it is written, or one met while it was
evaluated.
-/

namespace Lox

/-- An error in how a text is written. The location says which token is at fault and is empty if
there is none. -/
structure SyntaxError where
  line : Nat
  location : String
  message : String
  span : Option Span
  deriving DecidableEq, Repr, Inhabited

namespace SyntaxError

def text (e : SyntaxError) : String :=
  "[line " ++ toString e.line ++ "] Error" ++ e.location ++ ": " ++ e.message

/-- An error of which only the line is known. -/
def atLine (line : Nat) (message : String) : SyntaxError := ⟨line, "", message, none⟩

/-- How a report names a token. -/
def locationOf (t : Token) : String := if t.isEof then " at end" else " at '" ++ t.lexeme ++ "'"

/-- An error at a token. -/
def atToken (t : Token) (message : String) : SyntaxError :=
  ⟨t.line, locationOf t, message, some t.span⟩

def ofLexical (e : LexicalError) : SyntaxError := ⟨e.line, "", e.message, some e.span⟩

def ofParse (e : ParseError) : SyntaxError := atToken e.token e.message

end SyntaxError

inductive Report where
  | malformed (e : SyntaxError)
  | runtime (e : RuntimeError)
  deriving DecidableEq, Inhabited

namespace Report

def text : Report → String
  | malformed e => e.text
  | runtime e => e.text

def syntaxError? : Report → Option SyntaxError
  | malformed e => some e
  | runtime _ => none

def runtimeError? : Report → Option RuntimeError
  | malformed _ => none
  | runtime e => some e

end Report

end Lox
