import Lox.Expr
import Lox.Fault

/-!
# Parsing

    expression → equality
    equality   → comparison ( ( "!=" | "==" ) comparison )*
    comparison → term ( ( ">" | ">=" | "<" | "<=" ) term )*
    term       → factor ( ( "-" | "+" ) factor )*
    factor     → unary ( ( "/" | "*" ) unary )*
    unary      → ( "!" | "-" ) unary | primary
    primary    → NUMBER | STRING | "true" | "false" | "nil" | "(" expression ")"

Every operator of two operands groups to the left. The parser reads one token at a time: either an
operand is due, or one has just ended. What is still open around it waits on a stack, and an
operator first closes whatever binds at least as tightly as itself. A token that cannot come next
stops the parser and is not consumed.
-/

namespace Lox

namespace Kind

/-- How tightly an operator of two operands binds; zero for every other kind. -/
def precedence : Kind → Nat
  | bangEqual | equalEqual => 1
  | greater | greaterEqual | less | lessEqual => 2
  | minus | plus => 3
  | slash | star => 4
  | _ => 0

end Kind

namespace ParseError

inductive Cause where
  | expectExpression
  | expectRightParen
  deriving DecidableEq, Repr, Inhabited

def Cause.message : Cause → String
  | expectExpression => "Expect expression."
  | expectRightParen => "Expect ')' after expression."

end ParseError

/-- The first token that cannot continue an expression. -/
structure ParseError where
  cause : ParseError.Cause
  token : Token
  deriving DecidableEq, Inhabited

namespace ParseError

def message (e : ParseError) : String := e.cause.message

end ParseError

namespace Parse

/-- Something that waits for the operand on its right. -/
inductive Frame where
  | paren
  | unary (op : Token)
  | binary (left : Expr) (op : Token)
  deriving DecidableEq, Inhabited

/-- What the tokens read so far have led to. The innermost frame comes first. -/
inductive State where
  | due (stack : List Frame)
  | ended (stack : List Frame) (e : Expr)
  deriving DecidableEq, Inhabited

/-- Why a parser stops in front of a token. -/
inductive Verdict where
  | tree (e : Expr)
  | error (cause : ParseError.Cause)
  | noLiteral
  deriving DecidableEq, Inhabited

inductive Step where
  | next (s : State)
  | halt (v : Verdict)
  deriving DecidableEq, Inhabited

/-- Ends the frames that bind at least as tightly as an operator of this precedence. -/
def close (level : Nat) (e : Expr) : List Frame → Expr × List Frame
  | .unary op :: stack => close level (.unary op e) stack
  | .binary left op :: stack =>
    if level ≤ op.kind.precedence then close level (.binary left op e) stack
    else (e, .binary left op :: stack)
  | stack => (e, stack)

/-- Ends every frame up to the innermost open parenthesis. If there is one, what lies outside of it
is returned too. -/
def closeAll (e : Expr) : List Frame → Expr × Option (List Frame)
  | [] => (e, none)
  | .paren :: stack => (e, some stack)
  | .unary op :: stack => closeAll (.unary op e) stack
  | .binary left op :: stack => closeAll (.binary left op e) stack

/-- One token where an operand is due. -/
def stepDue (stack : List Frame) (t : Token) : Step :=
  match t.kind with
  | .bang | .minus => .next (.due (.unary t :: stack))
  | .leftParen => .next (.due (.paren :: stack))
  | .keyword .kwFalse => .next (.ended stack (.literal (.bool false)))
  | .keyword .kwTrue => .next (.ended stack (.literal (.bool true)))
  | .keyword .kwNil => .next (.ended stack (.literal .nil))
  | .number | .string =>
    match t.literal with
    | some v => .next (.ended stack (.literal v))
    | none => .halt .noLiteral
  | _ => .halt (.error .expectExpression)

/-- One token where the operand `e` has ended. -/
def stepEnded (stack : List Frame) (e : Expr) (t : Token) : Step :=
  if t.kind.precedence ≠ 0 then
    let (left, stack) := close t.kind.precedence e stack
    .next (.due (.binary left t :: stack))
  else
    match closeAll e stack with
    | (e, none) => .halt (.tree e)
    | (e, some stack) =>
      if t.kind = .rightParen then .next (.ended stack (.group e))
      else .halt (.error .expectRightParen)

def step : State → Token → Step
  | .due stack, t => stepDue stack t
  | .ended stack e, t => stepEnded stack e t

/-- Reads tokens until one stops the parser: why it stopped, unless the tokens ran out, and what is
left to read. -/
def run : State → List Token → Option Verdict × List Token
  | _, [] => (none, [])
  | s, t :: ts =>
    match step s t with
    | .next s => run s ts
    | .halt v => (some v, t :: ts)

/-- What is left behind the nearest boundary of statements, the token in front of it being `prev`:
just past a semicolon, in front of a word that starts a statement, or at the end. -/
def boundary (prev : Token) : List Token → List Token
  | [] => []
  | t :: ts =>
    if t.isEof || prev.kind == .semicolon || t.kind.startsStatement then t :: ts
    else boundary t ts

end Parse

/-- A position in a list of tokens. The list should hold an end token. -/
structure Parser where
  tokens : List Token
  cursor : Nat := 0
  deriving Inhabited

namespace Parser

/-- What is left to read. -/
def rest (p : Parser) : List Token := p.tokens.drop p.cursor

/-- Moves to where `rest` is what is left. -/
def moveTo (p : Parser) (rest : List Token) : Parser :=
  { p with cursor := p.tokens.length - rest.length }

/-- The fault of reading past the last token. -/
def ranOut (p : Parser) : Fault := .outOfTokens p.tokens.length

/-- The token to be read next. -/
def peek (p : Parser) : Except Fault Token :=
  match p.rest with
  | [] => .error p.ranOut
  | t :: _ => .ok t

def isAtEnd (p : Parser) : Except Fault Bool := p.peek.map Token.isEof

/-- Reads one expression, as long as it can be. Tokens behind it are left. -/
def expression (p : Parser) : Except Fault (Except ParseError Expr) × Parser :=
  let (verdict, rest) := Parse.run (.due []) p.rest
  let result := match verdict, rest with
    | some (.tree e), _ => .ok (.ok e)
    | some (.error cause), t :: _ => .ok (.error ⟨cause, t⟩)
    | some .noLiteral, t :: _ => .error (.noLiteral t.kind)
    | _, _ => .error p.ranOut
  (result, p.moveTo rest)

/-- Skips to the next boundary of statements, at least one token further unless at the end. -/
def synchronize (p : Parser) : Except Fault Unit × Parser :=
  let rest := match p.rest with
    | [] => []
    | t :: ts => if t.isEof then t :: ts else Parse.boundary t ts
  (if rest.isEmpty then .error p.ranOut else .ok (), p.moveTo rest)

end Parser

end Lox
