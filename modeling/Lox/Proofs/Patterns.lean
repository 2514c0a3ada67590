import Lox.Number
import Mathlib

/-!
# Numbers and their patterns

A number is its pattern of 64 bits: a sign bit above a magnitude. Reading a finite magnitude gives
the number with that pattern, and a minus sets the sign bit and leaves the rest alone.
-/

namespace Lox.Number

open Float.Model (Format UnpackedFloat)
open Float.Model.UnpackedFloat

/-! ## Fields -/

section

variable (b : BitVec Format.binary64.numBits)

theorem toNat_unpackMantissa : (unpackMantissa b).toNat = b.toNat % 2 ^ 52 := by
  simp [unpackMantissa]

theorem toNat_unpackExponent : (unpackExponent b).toNat = b.toNat / 2 ^ 52 % 2 ^ 11 := by
  simp [unpackExponent, Nat.shiftRight_eq_div_pow]

theorem toNat_unpackSign : (unpackSign b).toNat = b.toNat / 2 ^ 63 % 2 := by
  simp [unpackSign, Nat.shiftRight_eq_div_pow]

theorem unpackSign_eq_zero (h : b.toNat < 2 ^ 63) : unpackSign b = 0#1 := by
  rw [← BitVec.toNat_inj, toNat_unpackSign]
  change b.toNat / 2 ^ 63 % 2 = 0
  omega

theorem unpackExponent_eq_iff :
    unpackExponent b = -1#_ ↔ Binary64.infinity ≤ b.toNat % 2 ^ 63 := by
  have hinf : Binary64.infinity = 2047 * 2 ^ 52 := rfl
  have hones : (-1#11).toNat = 2047 := by decide
  rw [← BitVec.toNat_inj, toNat_unpackExponent, hones]
  omega

/-! ## Finite, infinite and NaN -/

theorem isFinite_unpack :
    (unpack .binary64 b).isFinite = true ↔ b.toNat % 2 ^ 63 < Binary64.infinity := by
  rw [← Nat.not_le, ← unpackExponent_eq_iff]
  unfold unpack
  dsimp only
  by_cases he : unpackExponent b = -1#_
  · rw [if_pos he]
    refine iff_of_false ?_ (not_not_intro he)
    split_ifs <;> exact Bool.false_ne_true
  · rw [if_neg he]
    refine iff_of_true ?_ he
    split_ifs <;> rfl

theorem isNaN_unpack :
    (unpack .binary64 b).isNaN = true ↔ Binary64.infinity < b.toNat % 2 ^ 63 := by
  have hinf : Binary64.infinity = 2047 * 2 ^ 52 := rfl
  have hexp := unpackExponent_eq_iff b
  unfold unpack
  dsimp only
  by_cases he : unpackExponent b = -1#_
  · -- With all bits of the exponent set, only an empty mantissa is no NaN.
    have hle := hexp.mp he
    have hzero : unpackMantissa b = 0#_ ↔ b.toNat % 2 ^ 63 = Binary64.infinity := by
      rw [← BitVec.toNat_inj, toNat_unpackMantissa]
      change b.toNat % 2 ^ 52 = 0 ↔ _
      omega
    rw [if_pos he]
    by_cases hm : unpackMantissa b = 0#_
    · have heq := hzero.mp hm
      rw [if_pos hm]
      exact iff_of_false Bool.false_ne_true (by omega)
    · have hne := mt hzero.mpr hm
      rw [if_neg hm]
      exact iff_of_true rfl (by omega)
  · have hlt := mt hexp.mpr he
    rw [if_neg he]
    refine iff_of_false ?_ (by omega)
    split_ifs <;> exact Bool.false_ne_true

theorem zero_le_unpack (h : b.toNat ≤ Binary64.infinity) :
    (zero .positive).le (unpack .binary64 b) = true := by
  have hinf : Binary64.infinity = 2047 * 2 ^ 52 := rfl
  have hplus := unpackSign_eq_zero b (by omega)
  have hnan : ¬ (unpack .binary64 b).isNaN = true := by
    rw [isNaN_unpack]
    omega
  unfold unpack at hnan ⊢
  simp only [hplus] at hnan ⊢
  split_ifs at hnan ⊢
  · rfl
  · exact absurd rfl hnan
  · rfl
  · rfl
  · rfl

theorem unpack_eq_neg (c : BitVec Format.binary64.numBits) (h : b.toNat = 2 ^ 63 + c.toNat) :
    unpack .binary64 b = (unpack .binary64 c).neg := by
  have hb : b.toNat < 2 ^ 64 := b.isLt
  have hexponent : unpackExponent b = unpackExponent c := by
    rw [← BitVec.toNat_inj, toNat_unpackExponent, toNat_unpackExponent]
    omega
  have hmantissa : unpackMantissa b = unpackMantissa c := by
    rw [← BitVec.toNat_inj, toNat_unpackMantissa, toNat_unpackMantissa]
    omega
  have hminus : unpackSign b = 1#1 := by
    rw [← BitVec.toNat_inj, toNat_unpackSign]
    change b.toNat / 2 ^ 63 % 2 = 1
    omega
  have hplus := unpackSign_eq_zero c (by omega)
  unfold unpack
  simp only [hexponent, hmantissa, hminus, hplus]
  split_ifs <;> rfl

end

/-! ## Numbers -/

theorem isFinite_iff (x : Float) : x.isFinite = true ↔ magnitude x < Binary64.infinity :=
  isFinite_unpack x.toBits.toBitVec

theorem isNaN_iff (x : Float) : x.isNaN = true ↔ Binary64.infinity < magnitude x :=
  isNaN_unpack x.toBits.toBitVec

theorem toBits_ofBits (w : UInt64) (h : w.toNat < Binary64.infinity) :
    (Float.ofBits w).toBits = w := by
  have hw : w.toBitVec.toNat = w.toNat := rfl
  have hexp := mt (unpackExponent_eq_iff w.toBitVec).mp (by omega)
  have hnan : ¬ @isNaNBits .binary64 w.toBitVec = true := by
    rw [isNaNBits, decide_eq_true_eq]
    exact fun hb => hexp hb.1
  have hpack := @pack_unpack .binary64 w.toBitVec (by decide)
  rw [if_neg hnan] at hpack
  change UInt64.ofBitVec (pack .binary64 (unpack .binary64 w.toBitVec)) = w
  rw [hpack]

theorem eq_of_magnitude (x : Float) (h : x.isFinite = true) :
    x = if isNegative x then -Float.ofBits (UInt64.ofNat (magnitude x))
      else Float.ofBits (UInt64.ofNat (magnitude x)) := by
  have hinf : Binary64.infinity = 2047 * 2 ^ 52 := rfl
  have hmag := (isFinite_iff x).mp h
  have hlt : x.toBits.toNat < 2 ^ 64 := x.toBits.toNat_lt
  have hmagnitude : magnitude x = x.toBits.toNat % 2 ^ 63 := rfl
  have hsign : isNegative x = decide (2 ^ 63 ≤ x.toBits.toNat) := rfl
  have hword : (UInt64.ofNat (magnitude x)).toNat = magnitude x := by
    rw [UInt64.toNat_ofNat']
    omega
  split
  · rename_i hneg
    rw [hsign, decide_eq_true_eq] at hneg
    have hflip := unpack_eq_neg x.toBits.toBitVec (UInt64.ofNat (magnitude x)).toBitVec (by
      change x.toBits.toNat = 2 ^ 63 + (UInt64.ofNat (magnitude x)).toNat
      omega)
    change x = .ofModel (.pack (unpack .binary64
      (Float.ofBits (UInt64.ofNat (magnitude x))).toBits.toBitVec).neg)
    rw [toBits_ofBits _ (by omega), ← hflip]
    exact (Float.ofBits_toBits x).symm
  · rename_i hneg
    rw [hsign, decide_eq_true_eq] at hneg
    have hbits : UInt64.ofNat (magnitude x) = x.toBits := by
      rw [← UInt64.toNat_inj]
      omega
    rw [hbits, Float.ofBits_toBits]

end Lox.Number
