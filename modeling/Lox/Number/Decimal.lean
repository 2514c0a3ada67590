/-!
# Decimal numerals

A numeral is digits, or digits, a point and more digits. Its value is a `Decimal`, kept exactly.
-/

namespace Lox

/-- The number `coeff / 10 ^ places`. -/
structure Decimal where
  coeff : Nat
  places : Nat
  deriving DecidableEq, Repr, Inhabited

namespace Decimal

/-- The number written with these digits in front of the point and behind it. -/
def ofDigits (whole fraction : List Char) : Decimal :=
  ⟨Nat.ofDigitChars 10 (whole ++ fraction) 0, fraction.length⟩

/-- The digits in front of the point, at least one. -/
def whole (d : Decimal) : List Char := Nat.toDigits 10 (d.coeff / Nat.pow 10 d.places)

/-- The digits behind the point, exactly `places` of them. -/
def fraction (d : Decimal) : List Char :=
  if d.places = 0 then []
  else List.leftpad d.places '0' (Nat.toDigits 10 (d.coeff % Nat.pow 10 d.places))

/-- The numeral: every digit is written out, and a point stands only in front of digits. -/
def digits (d : Decimal) : List Char :=
  if d.places = 0 then d.whole else d.whole ++ '.' :: d.fraction

/-- The number `k · 10 ^ drop` counted in units of `10 ^ (-places)`, in as few digits as that
takes: a digit that is dropped behind the point is not written, one in front of it is a zero. -/
def onGrid (k drop places : Nat) : Decimal := ⟨k * Nat.pow 10 (drop - places), places - drop⟩

end Decimal

end Lox
