import Lox.Kind
import Lox.Span
import Lox.Value

/-!
# Tokens
-/

namespace Lox

/-- A lexeme of a text with its kind, its place and, for a number or a string, its value. The line
is the one that the lexeme ends on. -/
structure Token where
  kind : Kind
  lexeme : String
  literal : Option Value := none
  line : Nat
  span : Span
  deriving DecidableEq, Inhabited

namespace Token

def isEof (t : Token) : Bool := t.kind == .eof

/-- The kind, the lexeme and the value, with `null` for no value. -/
def text (t : Token) : String :=
  let literal := match t.literal with
    | some v => v.text
    | none => "null"
  t.kind.name ++ " " ++ t.lexeme ++ " " ++ literal

/-- Equality with values compared as the language compares them. -/
def equals (a b : Token) : Bool :=
  let literal := match a.literal, b.literal with
    | some v, some w => v.equals w
    | none, none => true
    | _, _ => false
  a.kind == b.kind && a.lexeme == b.lexeme && literal && a.line == b.line && a.span == b.span

end Token

end Lox
