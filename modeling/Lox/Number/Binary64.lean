import Lox.Number.Decimal

/-!
# Binary64 patterns

A finite magnitude is `m · 2 ^ q`. Its bit pattern, read as a natural number, grows with it, so
rounding to a magnitude is rounding to a pattern, and one past the greatest finite pattern is
infinity.
-/

namespace Lox.Binary64

/-- The pattern of positive infinity. -/
def infinity : Nat := 0x7FF0000000000000

/-- The least exponent of a magnitude `m · 2 ^ q`. -/
def minExponent : Int := -1074

/-- The quotient rounded to the nearest natural number, a half to the even one. -/
def roundHalfEven (num den : Nat) : Nat :=
  let floor := num / den
  let twice := 2 * (num % den)
  if twice < den || (twice == den && floor % 2 == 0) then floor else floor + 1

/-- The greatest `e` with `2 ^ e ≤ num / den`, for positive `num` and `den`. -/
def floorLog2 (num den : Nat) : Int :=
  let e : Int := num.log2 - den.log2
  let fits := if num.log2 < den.log2 then den ≤ num <<< (den.log2 - num.log2)
    else den <<< (num.log2 - den.log2) ≤ num
  if fits then e else e - 1

/-- The exponent of the last bit that is kept of `num / den`. -/
def lastBit (num den : Nat) : Int := max minExponent (floorLog2 num den - 52)

/-- The quotient `num / den` counted in units of `2 ^ q`, rounded. -/
def significand (num den : Nat) (q : Int) : Nat :=
  if q < 0 then roundHalfEven (num <<< (-q).toNat) den else roundHalfEven num (den <<< q.toNat)

/-- The pattern of `m · 2 ^ q`. The bit above the 52 stored ones carries into the exponent field,
and so does a significand that rounding has taken to the next power of two. -/
def pattern (m : Nat) (q : Int) : Nat := (q - minExponent).toNat * Nat.pow 2 52 + m

/-- The pattern of the magnitude nearest to `num / den`. -/
def nearest (num den : Nat) : Nat :=
  if num = 0 then 0
  else
    let q := lastBit num den
    min (pattern (significand num den q) q) infinity

/-- The exponent field of a pattern without its sign. -/
def exponentField (bits : Nat) : Nat := bits / Nat.pow 2 52

/-- The `m` of the finite magnitude `m · 2 ^ q`. -/
def significandOf (bits : Nat) : Nat :=
  if exponentField bits = 0 then bits else Nat.pow 2 52 + bits % Nat.pow 2 52

/-- The `q` of the finite magnitude `m · 2 ^ q`. -/
def exponentOf (bits : Nat) : Int := (max (exponentField bits) 1 : Nat) - 1075

/-- A finite magnitude with all its decimal digits: a half is five tenths. -/
def exact (bits : Nat) : Decimal :=
  let q := exponentOf bits
  if q < 0 then ⟨significandOf bits * Nat.pow 5 (-q).toNat, (-q).toNat⟩
  else ⟨significandOf bits * Nat.pow 2 q.toNat, 0⟩

end Lox.Binary64
