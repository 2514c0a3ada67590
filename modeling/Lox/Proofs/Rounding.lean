import Lox.Number
import Mathlib.Algebra.Order.Ring.Nat
import Mathlib.Tactic.Ring

/-!
# Numerals that read back

A finite magnitude `m · 2 ^ q` with all its digits is rounded to itself, so the search for a shorter
numeral always has one to fall back on, and what it finds is read as the magnitude too. The digits
that are written for a decimal are read as that decimal.
-/

namespace Lox

namespace Binary64

/-! ## Rounding what needs none -/

theorem roundHalfEven_mul (m d : Nat) (hd : 0 < d) : roundHalfEven (m * d) d = m := by
  simp [roundHalfEven, Nat.mul_div_cancel m hd, hd]

theorem fits_iff (num den : Nat) :
    (if num.log2 < den.log2 then den ≤ num <<< (den.log2 - num.log2)
      else den <<< (num.log2 - den.log2) ≤ num) ↔ den * 2 ^ num.log2 ≤ num * 2 ^ den.log2 := by
  have hpos : 0 < 2 ^ num.log2 := Nat.two_pow_pos _
  have hpos' : 0 < 2 ^ den.log2 := Nat.two_pow_pos _
  split
  · rename_i h
    rw [Nat.shiftLeft_eq, ← Nat.mul_le_mul_right_iff hpos, Nat.mul_assoc, ← Nat.pow_add,
      Nat.sub_add_cancel (by omega)]
  · rename_i h
    rw [Nat.shiftLeft_eq, ← Nat.mul_le_mul_right_iff hpos', Nat.mul_assoc, ← Nat.pow_add,
      Nat.sub_add_cancel (by omega)]

theorem add_le_of_mul_pow_le (x y a b : Nat) (hx : 0 < x) (h : x * 2 ^ a ≤ y * 2 ^ b) :
    x.log2 + a ≤ y.log2 + b := by
  have hlow := Nat.log2_self_le (Nat.ne_of_gt hx)
  have hhigh := Nat.lt_log2_self (n := y)
  have hlt : 2 ^ (x.log2 + a) < 2 ^ (y.log2 + 1 + b) := by
    rw [Nat.pow_add, Nat.pow_add]
    calc 2 ^ x.log2 * 2 ^ a ≤ x * 2 ^ a := Nat.mul_le_mul_right _ hlow
      _ ≤ y * 2 ^ b := h
      _ < 2 ^ (y.log2 + 1) * 2 ^ b := Nat.mul_lt_mul_of_pos_right hhigh (Nat.two_pow_pos b)
  have := (Nat.pow_lt_pow_iff_right (by omega)).mp hlt
  omega

theorem floorLog2_eq (num den a b : Nat) (hnum : 0 < num) (hden : 0 < den)
    (hlow : den * 2 ^ a ≤ num * 2 ^ b) (hhigh : num * 2 ^ b < den * 2 ^ (a + 1)) :
    floorLog2 num den = (a : Int) - b := by
  have hle := add_le_of_mul_pow_le den num a b hden hlow
  have hge := add_le_of_mul_pow_le num den b (a + 1) hnum (Nat.le_of_lt hhigh)
  unfold floorLog2
  simp only [fits_iff]
  split
  · rename_i hfits
    -- The quotient is at least `2 ^ (num.log2 - den.log2)`, and below `2 ^ (a + 1 - b)`.
    have hlt : num * 2 ^ (b + num.log2) < num * 2 ^ (den.log2 + (a + 1)) := by
      calc num * 2 ^ (b + num.log2)
        _ = num * 2 ^ b * 2 ^ num.log2 := by rw [Nat.pow_add, Nat.mul_assoc]
        _ < den * 2 ^ (a + 1) * 2 ^ num.log2 :=
          Nat.mul_lt_mul_of_pos_right hhigh (Nat.two_pow_pos _)
        _ = den * 2 ^ num.log2 * 2 ^ (a + 1) := by ring
        _ ≤ num * 2 ^ den.log2 * 2 ^ (a + 1) := Nat.mul_le_mul_right _ hfits
        _ = num * 2 ^ (den.log2 + (a + 1)) := by rw [Nat.mul_assoc, ← Nat.pow_add]
    have := (Nat.pow_lt_pow_iff_right (by omega)).mp (Nat.lt_of_mul_lt_mul_left hlt)
    omega
  · rename_i hfits
    have hlt : num * 2 ^ (den.log2 + a) < num * 2 ^ (b + num.log2) := by
      calc num * 2 ^ (den.log2 + a)
        _ = num * 2 ^ den.log2 * 2 ^ a := by rw [Nat.pow_add, Nat.mul_assoc]
        _ < den * 2 ^ num.log2 * 2 ^ a :=
          Nat.mul_lt_mul_of_pos_right (Nat.lt_of_not_le hfits) (Nat.two_pow_pos _)
        _ = den * 2 ^ a * 2 ^ num.log2 := by ring
        _ ≤ num * 2 ^ b * 2 ^ num.log2 := Nat.mul_le_mul_right _ hlow
        _ = num * 2 ^ (b + num.log2) := by rw [Nat.mul_assoc, ← Nat.pow_add]
    have := (Nat.pow_lt_pow_iff_right (by omega)).mp (Nat.lt_of_mul_lt_mul_left hlt)
    omega

/-! ## Fives and twos -/

theorem ten_pow_eq (k : Nat) : Nat.pow 10 k = 5 ^ k * 2 ^ k := by
  rw [Nat.pow_eq, ← Nat.mul_pow]

section

variable (m k : Nat) (hm : 0 < m)

include hm

theorem floorLog2_fives : floorLog2 (m * 5 ^ k) (Nat.pow 10 k) = (m.log2 : Int) - k := by
  have hlow := Nat.log2_self_le (Nat.ne_of_gt hm)
  have hhigh := Nat.lt_log2_self (n := m)
  have hfive : 0 < 5 ^ k := Nat.pow_pos (by omega)
  have hten : 0 < 5 ^ k * 2 ^ k := Nat.mul_pos hfive (Nat.two_pow_pos k)
  have hquotient : m * 5 ^ k * 2 ^ k = 5 ^ k * 2 ^ k * m := by ring
  rw [ten_pow_eq]
  apply floorLog2_eq
  · exact Nat.mul_pos hm hfive
  · exact hten
  · rw [hquotient]
    exact Nat.mul_le_mul_left _ hlow
  · rw [hquotient]
    exact Nat.mul_lt_mul_of_pos_left hhigh hten

theorem floorLog2_twos : floorLog2 (m * 2 ^ k) (Nat.pow 10 0) = (m.log2 : Int) + k := by
  have hlow := Nat.log2_self_le (Nat.ne_of_gt hm)
  have hhigh := Nat.lt_log2_self (n := m)
  have htwo : 0 < 2 ^ k := Nat.two_pow_pos k
  have hone : Nat.pow 10 0 = 1 := rfl
  rw [hone, floorLog2_eq _ _ (m.log2 + k) 0]
  · omega
  · exact Nat.mul_pos hm htwo
  · exact Nat.one_pos
  · rw [Nat.one_mul, Nat.pow_zero, Nat.mul_one, Nat.pow_add]
    exact Nat.mul_le_mul_right _ hlow
  · rw [Nat.one_mul, Nat.pow_zero, Nat.mul_one, Nat.add_right_comm, Nat.pow_add]
    exact Nat.mul_lt_mul_of_pos_right hhigh htwo

end

theorem significand_fives (m k : Nat) (hk : 0 < k) :
    significand (m * 5 ^ k) (Nat.pow 10 k) (-(k : Int)) = m := by
  have hten : 0 < 5 ^ k * 2 ^ k := Nat.mul_pos (Nat.pow_pos (by omega)) (Nat.two_pow_pos k)
  unfold significand
  rw [if_pos (by omega), Int.neg_neg, Int.toNat_natCast, Nat.shiftLeft_eq, ten_pow_eq,
    Nat.mul_assoc]
  exact roundHalfEven_mul m _ hten

theorem significand_twos (m k : Nat) : significand (m * 2 ^ k) (Nat.pow 10 0) (k : Int) = m := by
  unfold significand
  rw [if_neg (by omega), Int.toNat_natCast, Nat.shiftLeft_eq]
  change roundHalfEven (m * 2 ^ k) (1 * 2 ^ k) = m
  rw [Nat.one_mul]
  exact roundHalfEven_mul m _ (Nat.two_pow_pos k)

/-! ## Patterns -/

theorem fields_cases (bits : Nat) :
    (bits < 2 ^ 52 ∧ significandOf bits = bits ∧ exponentOf bits = -1074) ∨
    ∃ f m : Nat, bits = f * 2 ^ 52 + m ∧ m < 2 ^ 52 ∧ 1 ≤ f ∧ significandOf bits = 2 ^ 52 + m ∧
      exponentOf bits = (f : Int) - 1075 := by
  have hfield : exponentField bits = bits / 2 ^ 52 := rfl
  unfold significandOf exponentOf
  by_cases hf : exponentField bits = 0
  · left
    rw [if_pos hf, hf]
    exact ⟨by omega, rfl, rfl⟩
  · right
    refine ⟨bits / 2 ^ 52, bits % 2 ^ 52, by omega, by omega, by omega, ?_, ?_⟩
    · rw [if_neg hf]
      rfl
    · rw [hfield]
      omega

theorem significandOf_pos (bits : Nat) (h : bits ≠ 0) : 0 < significandOf bits := by
  rcases fields_cases bits with ⟨-, hm, -⟩ | ⟨f, m, -, -, -, hm, -⟩ <;> omega

theorem pattern_fields (bits : Nat) : pattern (significandOf bits) (exponentOf bits) = bits := by
  unfold pattern minExponent
  rcases fields_cases bits with ⟨-, hm, hq⟩ | ⟨f, m, hbits, -, hf, hm, hq⟩
  · rw [hm, hq]
    exact Nat.zero_add bits
  · have hq' : (exponentOf bits - -1074).toNat = f - 1 := by omega
    rw [hq', hm, Nat.pow_eq]
    omega

theorem lastBit_fields (num den bits : Nat) (hne : bits ≠ 0)
    (h : floorLog2 num den = (significandOf bits).log2 + exponentOf bits) :
    lastBit num den = exponentOf bits := by
  unfold lastBit minExponent
  rw [h]
  rcases fields_cases bits with ⟨hlt, hm, hq⟩ | ⟨f, m, -, hlt, hf, hm, hq⟩
  · have hlog : bits.log2 < 52 := (Nat.log2_lt hne).mpr hlt
    rw [hm, hq]
    omega
  · have hlog : (2 ^ 52 + m).log2 = 52 := by
      rw [Nat.log2_eq_iff (by omega)]
      omega
    rw [hm, hq, hlog]
    omega

/-- A quotient that is `m · 2 ^ q` for a finite pattern is rounded to that pattern. -/
theorem nearest_fields (num den bits : Nat) (hnum : num ≠ 0) (hbits : bits ≠ 0)
    (h : bits < infinity)
    (hlog : floorLog2 num den = (significandOf bits).log2 + exponentOf bits)
    (hround : significand num den (exponentOf bits) = significandOf bits) :
    nearest num den = bits := by
  unfold nearest
  simp only [lastBit_fields num den bits hbits hlog, hround, pattern_fields]
  rw [if_neg hnum]
  exact Nat.min_eq_left (Nat.le_of_lt h)

theorem exact_cases (bits : Nat) :
    (∃ k : Nat, 0 < k ∧ exponentOf bits = -(k : Int) ∧
      exact bits = ⟨significandOf bits * 5 ^ k, k⟩) ∨
    ∃ k : Nat, exponentOf bits = (k : Int) ∧ exact bits = ⟨significandOf bits * 2 ^ k, 0⟩ := by
  unfold exact
  by_cases hq : exponentOf bits < 0
  · left
    refine ⟨(-exponentOf bits).toNat, by omega, by omega, ?_⟩
    simp only [hq, if_true, Nat.pow_eq]
  · right
    refine ⟨(exponentOf bits).toNat, by omega, ?_⟩
    simp only [hq, if_false, Nat.pow_eq]

theorem exact_coeff_eq_zero_iff (bits : Nat) : (exact bits).coeff = 0 ↔ bits = 0 := by
  have hm : significandOf bits = 0 ↔ bits = 0 := by
    constructor
    · intro h
      by_contra hbits
      exact Nat.ne_of_gt (significandOf_pos bits hbits) h
    · rintro rfl
      rfl
  rcases exact_cases bits with ⟨k, -, -, hexact⟩ | ⟨k, -, hexact⟩
  · simp [hexact, hm]
  · simp [hexact, hm]

theorem nearest_exact (bits : Nat) (hbits : bits ≠ 0) (h : bits < infinity) :
    nearest (exact bits).coeff (Nat.pow 10 (exact bits).places) = bits := by
  have hm := significandOf_pos bits hbits
  apply nearest_fields _ _ bits (mt (exact_coeff_eq_zero_iff bits).mp hbits) hbits h
  · rcases exact_cases bits with ⟨k, -, hq, hexact⟩ | ⟨k, hq, hexact⟩
    · rw [hexact, hq, floorLog2_fives _ k hm]
      rfl
    · rw [hexact, hq, floorLog2_twos _ k hm]
  · rcases exact_cases bits with ⟨k, hk, hq, hexact⟩ | ⟨k, hq, hexact⟩
    · rw [hexact, hq]
      exact significand_fives _ k hk
    · rw [hexact, hq]
      exact significand_twos _ k

end Binary64

/-! ## The shortest numeral -/

namespace Shortest

theorem readsAs_of_neighbour (bits : Nat) (x d : Decimal) (drop : Nat)
    (h : neighbour? bits x drop = some d) : readsAs bits d = true := by
  simp only [neighbour?] at h
  split at h
  · rename_i hbelow habove
    cases h
    split
    · exact hbelow
    · exact habove
  · rename_i hbelow habove
    cases h
    exact hbelow
  · rename_i hbelow habove
    cases h
    exact habove
  · cases h

theorem readsAs_search (bits : Nat) (x : Decimal) (drop : Nat) (hx : readsAs bits x = true) :
    readsAs bits (search bits x drop) = true := by
  induction drop with
  | zero => exact hx
  | succ drop ih =>
    rw [search]
    split
    · rename_i d hd
      exact readsAs_of_neighbour bits x d _ hd
    · exact ih

theorem nearest_decimal (bits : Nat) (h : bits < Binary64.infinity) :
    Binary64.nearest (decimal bits).coeff (Nat.pow 10 (decimal bits).places) = bits := by
  simp only [decimal, Binary64.exact_coeff_eq_zero_iff]
  by_cases hbits : bits = 0
  · rw [hbits]
    rfl
  · rw [if_neg hbits]
    have hx : readsAs bits (Binary64.exact bits) = true :=
      beq_iff_eq.mpr (Binary64.nearest_exact bits hbits h)
    exact beq_iff_eq.mp (readsAs_search bits _ _ hx)

end Shortest

/-! ## Digits -/

namespace Decimal

theorem length_fraction (d : Decimal) : d.fraction.length = d.places := by
  unfold fraction
  split
  · rename_i hp
    rw [hp]
    rfl
  · rename_i hp
    have hlt : d.coeff % Nat.pow 10 d.places < 10 ^ d.places :=
      Nat.mod_lt _ (Nat.pow_pos (by omega))
    have hlen := (Nat.length_toDigits_le_iff (b := 10) (by omega) (by omega)).mpr hlt
    rw [List.length_leftpad]
    omega

theorem ofDigitChars_fraction (d : Decimal) :
    Nat.ofDigitChars 10 d.fraction 0 = d.coeff % Nat.pow 10 d.places := by
  unfold fraction
  split
  · rename_i hp
    rw [hp]
    exact (Nat.mod_one d.coeff).symm
  · rw [List.leftpad, Nat.ofDigitChars_append, Nat.ofDigitChars_replicate_zero, Nat.mul_zero,
      Nat.ofDigitChars_ten_toDigits]

theorem ofDigits_whole_fraction (d : Decimal) : ofDigits d.whole d.fraction = d := by
  have hvalue : Nat.ofDigitChars 10 (d.whole ++ d.fraction) 0 = d.coeff := by
    rw [Nat.ofDigitChars_append, Nat.ofDigitChars_eq_ofDigitChars_zero, length_fraction,
      ofDigitChars_fraction, whole, Nat.ofDigitChars_ten_toDigits]
    exact Nat.div_add_mod _ _
  rw [ofDigits, hvalue, length_fraction]

theorem isDigit_whole (d : Decimal) : d.whole ≠ [] ∧ ∀ c ∈ d.whole, c.isDigit = true := by
  refine ⟨Nat.toDigits_ne_nil, ?_⟩
  intro c hc
  exact Nat.isDigit_of_mem_toDigits (by omega) (by omega) hc

theorem isDigit_fraction (d : Decimal) : ∀ c ∈ d.fraction, c.isDigit = true := by
  intro c hc
  unfold fraction at hc
  split at hc
  · cases hc
  · rcases List.mem_append.mp hc with hc | hc
    · rw [List.eq_of_mem_replicate hc]
      rfl
    · exact Nat.isDigit_of_mem_toDigits (by omega) (by omega) hc

end Decimal

end Lox
