import Lox.Kind

/-!
# Faults

Parsing and evaluation rely on promises: a list of tokens has an end, tokens of numbers and strings
carry their value, and an expression holds only operators that can be parsed. A `Fault` says which
promise a caller has broken. No text leads to one.
-/

namespace Lox

inductive Fault where
  /-- A list of this many tokens was read to its end. -/
  | outOfTokens (length : Nat)
  /-- The token of a number or a string has no value. -/
  | noLiteral (kind : Kind)
  /-- The lexeme stands for no operator of one operand. -/
  | notUnary (lexeme : String)
  /-- The lexeme stands for no operator of two operands. -/
  | notBinary (lexeme : String)
  /-- An evaluation failed and no error was reported. -/
  | unreported
  deriving DecidableEq, Repr, Inhabited

namespace Fault

def message : Fault → String
  | outOfTokens n =>
    "index out of bounds: the len is " ++ toString n ++ " but the index is " ++ toString n
  | noLiteral kind => impossible (kind.name ++ " token without a literal")
  | notUnary lexeme => impossible ("parser produced unary operator `" ++ lexeme ++ "`")
  | notBinary lexeme => impossible ("parser produced binary operator `" ++ lexeme ++ "`")
  | unreported => impossible "runtime failure without a reported error"
where
  impossible (what : String) : String := "internal error: entered unreachable code: " ++ what

end Fault

/-! ## Computations that may fail -/

theorem bind_eq_ok_iff {ε α β : Type} (x : Except ε α) (f : α → Except ε β) (b : β) :
    x >>= f = .ok b ↔ ∃ a, x = .ok a ∧ f a = .ok b := by
  cases x with
  | error e => simp [bind, Except.bind]
  | ok a => simp [bind, Except.bind]

theorem bind_ne_error {ε α β : Type} (x : Except ε α) (g : α → Except ε β) (err : ε)
    (hx : x ≠ .error err) (hg : ∀ a, g a ≠ .error err) : x >>= g ≠ .error err := by
  cases x with
  | error e => simpa [bind, Except.bind] using hx
  | ok a => exact hg a

end Lox
