import Lox.Number.Shortest

/-!
# Numbers as text

Numbers are binary64. A numeral is read as the nearest one, halfway to the even pattern, and past
the greatest as infinity. A number is written as the shortest numeral that reads back, without an
exponent, behind a minus sign if its sign bit is set.
-/

namespace Lox.Number

/-- The number nearest to a decimal. -/
def ofDecimal (d : Decimal) : Float :=
  Float.ofBits (UInt64.ofNat (Binary64.nearest d.coeff (Nat.pow 10 d.places)))

/-- The number that a numeral is read as, given its digits in front of the point and behind it. -/
def ofDigits (whole fraction : List Char) : Float := ofDecimal (Decimal.ofDigits whole fraction)

/-- Whether the sign bit is set, as it is in negative zero. -/
def isNegative (x : Float) : Bool := Nat.pow 2 63 ≤ x.toBits.toNat

/-- The pattern without the sign bit. -/
def magnitude (x : Float) : Nat := x.toBits.toNat % Nat.pow 2 63

/-- The text of a magnitude that is not NaN. -/
def magnitudeDigits (bits : Nat) : List Char :=
  if bits = Binary64.infinity then "inf".toList else (Shortest.decimal bits).digits

/-- The characters that a number is written with. -/
def digits (x : Float) : List Char :=
  if x.isNaN then "NaN".toList
  else if isNegative x then '-' :: magnitudeDigits (magnitude x)
  else magnitudeDigits (magnitude x)

def text (x : Float) : String := String.ofList (digits x)

end Lox.Number
