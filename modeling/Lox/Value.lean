import Lox.Number

/-!
# Values

What a literal denotes and what an expression evaluates to.
-/

namespace Lox

inductive Value where
  | number (x : Float)
  | string (s : String)
  | bool (b : Bool)
  | nil
  deriving DecidableEq, Inhabited

namespace Value

/-- Only `nil` and `false` are falsey. -/
def isTruthy : Value → Bool
  | nil => false
  | bool b => b
  | number _ | string _ => true

/-- A string is written as it is, without quotes. -/
def text : Value → String
  | number x => Number.text x
  | string s => s
  | bool true => "true"
  | bool false => "false"
  | nil => "nil"

/-- Equality as the language sees it: values of different types differ, and numbers compare as
binary64 numbers do, so NaN differs from itself and the two zeros are equal. -/
def equals : Value → Value → Bool
  | number x, number y => x == y
  | string s, string t => s == t
  | bool a, bool b => a == b
  | nil, nil => true
  | _, _ => false

end Value

end Lox
