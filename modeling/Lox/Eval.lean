import Lox.Expr
import Lox.Fault

/-!
# Evaluation

Operands are evaluated from left to right, then the operator is applied. The first failure is the
answer. What an operator does depends on the kind of its token only.
-/

namespace Lox

namespace RuntimeError

inductive Cause where
  | operandMustBeNumber
  | operandsMustBeNumbers
  | operandsMustBeNumbersOrStrings
  deriving DecidableEq, Repr, Inhabited

def Cause.message : Cause → String
  | operandMustBeNumber => "Operand must be a number."
  | operandsMustBeNumbers => "Operands must be numbers."
  | operandsMustBeNumbersOrStrings => "Operands must be two numbers or two strings."

end RuntimeError

/-- An operator met operands of the wrong types. -/
structure RuntimeError where
  token : Token
  cause : RuntimeError.Cause
  deriving DecidableEq, Inhabited

namespace RuntimeError

def message (e : RuntimeError) : String := e.cause.message

def text (e : RuntimeError) : String :=
  e.message ++ "\n[line " ++ toString e.token.line ++ "]"

end RuntimeError

namespace Eval

/-- Why an evaluation gave no value. -/
inductive Stop where
  | runtime (e : RuntimeError)
  | fault (f : Fault)
  deriving DecidableEq, Inhabited

/-- The answer of an operator `op` that refuses its operands. -/
def refuse (op : Token) (cause : RuntimeError.Cause) : Except Stop Value :=
  .error (.runtime ⟨op, cause⟩)

/-- Applies an operator to one operand. -/
def unary (op : Token) (v : Value) : Except Stop Value :=
  match op.kind, v with
  | .bang, v => .ok (.bool !v.isTruthy)
  | .minus, .number x => .ok (.number (-x))
  | .minus, _ => refuse op .operandMustBeNumber
  | _, _ => .error (.fault (.notUnary op.lexeme))

/-- Applies a function of numbers to two operands. -/
def numeric (op : Token) (f : Float → Float → Value) : Value → Value → Except Stop Value
  | .number x, .number y => .ok (f x y)
  | _, _ => refuse op .operandsMustBeNumbers

/-- Adds two numbers or joins two strings. -/
def plus (op : Token) : Value → Value → Except Stop Value
  | .number x, .number y => .ok (.number (x + y))
  | .string s, .string t => .ok (.string (s ++ t))
  | _, _ => refuse op .operandsMustBeNumbersOrStrings

/-- Applies an operator to two operands. -/
def binary (op : Token) (v w : Value) : Except Stop Value :=
  match op.kind with
  | .plus => plus op v w
  | .minus => numeric op (fun x y => .number (x - y)) v w
  | .star => numeric op (fun x y => .number (x * y)) v w
  | .slash => numeric op (fun x y => .number (x / y)) v w
  | .greater => numeric op (fun x y => .bool (decide (x > y))) v w
  | .greaterEqual => numeric op (fun x y => .bool (decide (x ≥ y))) v w
  | .less => numeric op (fun x y => .bool (decide (x < y))) v w
  | .lessEqual => numeric op (fun x y => .bool (decide (x ≤ y))) v w
  | .equalEqual => .ok (.bool (v.equals w))
  | .bangEqual => .ok (.bool !v.equals w)
  | _ => .error (.fault (.notBinary op.lexeme))

end Eval

namespace Expr

/-- The value of an expression. -/
def evaluate : Expr → Except Eval.Stop Value
  | literal v => .ok v
  | group e => e.evaluate
  | unary op e => do
    let v ← e.evaluate
    Eval.unary op v
  | binary l op r => do
    let v ← l.evaluate
    let w ← r.evaluate
    Eval.binary op v w

end Expr

end Lox
