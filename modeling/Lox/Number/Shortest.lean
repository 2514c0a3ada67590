import Lox.Number.Binary64

/-!
# The shortest numeral of a magnitude

Of the numerals that read back as the same binary64 magnitude, the one with the fewest digits is
written, and of those the nearest. The search starts from all the digits of the exact value, drops
as many as it can, and looks at the two multiples of the remaining unit around the value.
-/

namespace Lox.Shortest

/-- Whether a numeral is read as the magnitude with this pattern. -/
def readsAs (bits : Nat) (d : Decimal) : Bool :=
  Binary64.nearest d.coeff (Nat.pow 10 d.places) == bits

/-- A numeral without the last `drop` digits of `x` that reads as `bits`: the neighbour below or
the one above. If both do, the nearer is taken, and halfway the one above. -/
def neighbour? (bits : Nat) (x : Decimal) (drop : Nat) : Option Decimal :=
  let unit := Nat.pow 10 drop
  let below := Decimal.onGrid (x.coeff / unit) drop x.places
  let above := Decimal.onGrid (x.coeff / unit + 1) drop x.places
  match readsAs bits below, readsAs bits above with
  | true, true => some (if 2 * (x.coeff % unit) < unit then below else above)
  | true, false => some below
  | false, true => some above
  | false, false => none

/-- The first hit when `drop`, then one digit less, and so on down to one digit is dropped. -/
def search (bits : Nat) (x : Decimal) : Nat → Decimal
  | 0 => x
  | drop + 1 =>
    match neighbour? bits x (drop + 1) with
    | some d => d
    | none => search bits x drop

/-- The shortest numeral that reads as the finite magnitude with this pattern. -/
def decimal (bits : Nat) : Decimal :=
  let x := Binary64.exact bits
  if x.coeff = 0 then ⟨0, 0⟩ else search bits x (Nat.toDigits 10 x.coeff).length

end Lox.Shortest
