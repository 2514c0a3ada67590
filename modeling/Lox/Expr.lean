import Lox.Token

/-!
# Expressions

The tree of an expression, its two printed forms, and the list of its nodes.
-/

namespace Lox

/-- An expression. Operators are kept as the tokens they were read from, parentheses as nodes. -/
inductive Expr where
  | literal (value : Value)
  | group (inner : Expr)
  | unary (op : Token) (right : Expr)
  | binary (left : Expr) (op : Token) (right : Expr)
  deriving DecidableEq, Inhabited

namespace Expr

/-- Each operator in front of its operands, inside parentheses: `(* (- 123) (group 45.67))`. -/
def display : Expr → String
  | literal v => v.text
  | group e => "(group " ++ e.display ++ ")"
  | unary op e => "(" ++ op.lexeme ++ " " ++ e.display ++ ")"
  | binary l op r => "(" ++ op.lexeme ++ " " ++ l.display ++ " " ++ r.display ++ ")"

/-- How an operator of one operand is written in postfix form. The minus has a name of its own
there, because nothing else would tell it from the minus between two operands. -/
def unaryName (op : Token) : String := if op.kind == .minus then "neg" else op.lexeme

/-- Each operator behind its operands, without parentheses: `123 neg 45.67 *`. -/
def postfixForm : Expr → String
  | literal v => v.text
  | group e => e.postfixForm
  | unary op e => e.postfixForm ++ " " ++ unaryName op
  | binary l op r => l.postfixForm ++ " " ++ r.postfixForm ++ " " ++ op.lexeme

/-- Equality with values compared as the language compares them. -/
def equals : Expr → Expr → Bool
  | literal v, literal w => v.equals w
  | group a, group b => a.equals b
  | unary p a, unary q b => p.equals q && a.equals b
  | binary a p b, binary c q d => a.equals c && p.equals q && b.equals d
  | _, _ => false

/-- Equality of what two texts are parsed into: no expression equals no expression. -/
def optionEquals : Option Expr → Option Expr → Bool
  | some a, some b => a.equals b
  | none, none => true
  | _, _ => false

end Expr

/-! ## Nodes -/

/-- An expression without its operands. -/
inductive Node where
  | literal (value : Value)
  | group
  | unary (op : Token)
  | binary (op : Token)
  deriving DecidableEq, Inhabited

namespace Expr

/-- The nodes, each in front of its operands. -/
def nodes : Expr → List Node
  | literal v => [.literal v]
  | group e => .group :: e.nodes
  | unary op e => .unary op :: e.nodes
  | binary l op r => .binary op :: (l.nodes ++ r.nodes)

/-- Puts a node in front of the expressions that follow it, the first ones as its operands. -/
def attach : Node → List Expr → Option (List Expr)
  | .literal v, es => some (literal v :: es)
  | .group, e :: es => some (group e :: es)
  | .unary op, e :: es => some (unary op e :: es)
  | .binary op, l :: r :: es => some (binary l op r :: es)
  | _, _ => none

/-- The expressions that a list of nodes is made of. -/
def forest? : List Node → Option (List Expr)
  | [] => some []
  | n :: ns => (forest? ns).bind (attach n)

/-- The expression with these nodes. -/
def ofNodes? (ns : List Node) : Option Expr :=
  match forest? ns with
  | some [e] => some e
  | _ => none

theorem forest?_nodes_append (e : Expr) (ns : List Node) :
    forest? (e.nodes ++ ns) = (forest? ns).map (e :: ·) := by
  induction e generalizing ns with
  | literal v => cases h : forest? ns <;> simp [nodes, forest?, attach, h]
  | group e ih => cases h : forest? ns <;> simp [nodes, forest?, attach, ih, h]
  | unary op e ih => cases h : forest? ns <;> simp [nodes, forest?, attach, ih, h]
  | binary l op r ihl ihr => cases h : forest? ns <;> simp [nodes, forest?, attach, ihl, ihr, h]

theorem ofNodes?_nodes (e : Expr) : ofNodes? e.nodes = some e := by
  have h := forest?_nodes_append e []
  simp [forest?] at h
  simp [ofNodes?, h]

end Expr

end Lox
