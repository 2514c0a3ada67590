import Lox.Parse

/-!
# The grammar of expressions

Which tokens derive which tree, rule by rule, with no cursor, no stack and no precedence numbers.
`Parsing.lean` shows that the parser reads exactly this.
-/

namespace Lox.Grammar

/-! ## The rules -/

/-- The rules, from the loosest to the tightest. An expression is an equality. -/
inductive Rule where
  | equality
  | comparison
  | term
  | factor
  | unary
  | primary
  deriving DecidableEq, Repr

namespace Rule

/-- The operators of two operands that a rule chains. -/
def operators : Rule → List Kind
  | equality => [.bangEqual, .equalEqual]
  | comparison => [.greater, .greaterEqual, .less, .lessEqual]
  | term => [.minus, .plus]
  | factor => [.slash, .star]
  | unary | primary => []

/-- The next tighter rule, which the operands of a rule follow. -/
def operand : Rule → Rule
  | equality => comparison
  | comparison => term
  | term => factor
  | factor => unary
  | unary | primary => primary

end Rule

/-- The ten operators of two operands. -/
def binaryOperators : List Kind :=
  [.bangEqual, .equalEqual, .greater, .greaterEqual, .less, .lessEqual, .minus, .plus, .slash,
    .star]

def unaryOperators : List Kind := [.bang, .minus]

/-- The value that a token stands for by itself. -/
def Denotes (t : Token) (v : Value) : Prop :=
  t.kind = .keyword .kwFalse ∧ v = .bool false ∨
  t.kind = .keyword .kwTrue ∧ v = .bool true ∨
  t.kind = .keyword .kwNil ∧ v = .nil ∨
  (t.kind = .number ∨ t.kind = .string) ∧ t.literal = some v

/-- The tokens derive the tree by the rule. -/
inductive Derives : Rule → List Token → Expr → Prop
  -- A literal is one token.
  | literal (t : Token) (v : Value) (h : Denotes t v) : Derives .primary [t] (.literal v)
  -- Parentheses are kept as a node.
  | group (l r : Token) (ts : List Token) (e : Expr) (hl : l.kind = .leftParen)
      (he : Derives .equality ts e) (hr : r.kind = .rightParen) :
      Derives .primary (l :: ts ++ [r]) (.group e)
  -- A unary operator takes everything behind it that is unary again.
  | unary (op : Token) (ts : List Token) (e : Expr) (hop : op.kind ∈ unaryOperators)
      (he : Derives .unary ts e) : Derives .unary (op :: ts) (.unary op e)
  -- A chain of one operand.
  | operand (r : Rule) (ts : List Token) (e : Expr) (he : Derives r.operand ts e) : Derives r ts e
  -- A chain grows at its right end, so that its operators group to the left.
  | binary (r : Rule) (ts us : List Token) (left right : Expr) (op : Token)
      (hl : Derives r ts left) (hop : op.kind ∈ r.operators) (hr : Derives r.operand us right) :
      Derives r (ts ++ op :: us) (.binary left op right)

/-! ## Ranks

The parser compares precedences, which are numbers. The rank of a rule is the precedence of the
operators that it chains.
-/

def Rule.rank : Rule → Nat
  | .equality => 1
  | .comparison => 2
  | .term => 3
  | .factor => 4
  | .unary => 5
  | .primary => 6

theorem mem_operators_iff (r : Rule) (k : Kind) :
    k ∈ r.operators ↔ k.precedence = r.rank := by
  cases r <;> cases k <;> simp [Rule.operators, Rule.rank, Kind.precedence]

theorem not_mem_binaryOperators_iff (k : Kind) : k ∉ binaryOperators ↔ k.precedence = 0 := by
  cases k <;> simp [binaryOperators, Kind.precedence]

theorem precedence_le_four (k : Kind) : k.precedence ≤ 4 := by
  cases k <;> simp [Kind.precedence]

theorem exists_rule_of_precedence (k : Kind) (h : k.precedence ≠ 0) :
    ∃ r : Rule, r.rank = k.precedence := by
  have h4 := precedence_le_four k
  rcases (by omega : k.precedence = 1 ∨ k.precedence = 2 ∨ k.precedence = 3 ∨ k.precedence = 4)
    with h | h | h | h
  · exact ⟨.equality, h.symm⟩
  · exact ⟨.comparison, h.symm⟩
  · exact ⟨.term, h.symm⟩
  · exact ⟨.factor, h.symm⟩

theorem one_le_rank (r : Rule) : 1 ≤ r.rank := by
  cases r <;> simp [Rule.rank]

theorem rank_operand_of_lt (r : Rule) (h : r.rank < 6) : r.operand.rank = r.rank + 1 := by
  cases r <;> simp [Rule.rank, Rule.operand] at *

theorem rank_le_operand (r : Rule) : r.rank ≤ r.operand.rank := by
  cases r <;> simp [Rule.rank, Rule.operand]

theorem rank_injective (r s : Rule) (h : r.rank = s.rank) : r = s := by
  cases r <;> cases s <;> simp [Rule.rank] at *

theorem derives_of_rank_le (r s : Rule) (ts : List Token) (e : Expr) (h : s.rank ≤ r.rank)
    (he : Derives r ts e) : Derives s ts e := by
  induction hn : r.rank - s.rank generalizing s with
  | zero =>
    rw [rank_injective s r (by omega)]
    exact he
  | succ n ih =>
    have h6 : r.rank ≤ 6 := by cases r <;> simp [Rule.rank]
    have hop := rank_operand_of_lt s (by omega)
    exact .operand s ts e (ih s.operand (by omega) (by omega))

theorem derives_ne_nil (r : Rule) (ts : List Token) (e : Expr) (h : Derives r ts e) : ts ≠ [] := by
  induction h with
  | literal => simp
  | group => simp
  | unary => simp
  | operand r ts e he ih => exact ih
  | binary => simp

end Lox.Grammar
