import Lox.Proofs.ReadBack

/-!
# The texts of literals

The numbers that stand in a text have no sign and are not NaN, though a long numeral may be read as
infinity. Each of them is printed as a word of its own, with no blank and no parenthesis in it, and
so are the other literals that are not strings.
-/

namespace Lox

/-! ## Numbers without a sign -/

namespace Number

/-- The sign bit is clear, and the number is finite or infinite. -/
def Unsigned (x : Float) : Prop := x.toBits.toNat ≤ Binary64.infinity

def infinite : Float := Float.ofBits (UInt64.ofNat Binary64.infinity)

theorem toBits_infinite : infinite.toBits.toNat = Binary64.infinity := by decide +kernel

theorem nearest_le_infinity (num den : Nat) : Binary64.nearest num den ≤ Binary64.infinity := by
  unfold Binary64.nearest
  split
  · exact Nat.zero_le _
  · exact Nat.min_le_right _ _

theorem unsigned_ofDigits (whole fraction : List Char) : Unsigned (ofDigits whole fraction) := by
  unfold ofDigits ofDecimal
  generalize hd : Decimal.ofDigits whole fraction = d
  have hle := nearest_le_infinity d.coeff (Nat.pow 10 d.places)
  generalize Binary64.nearest d.coeff (Nat.pow 10 d.places) = bits at hle ⊢
  have hinf : Binary64.infinity = 2047 * 2 ^ 52 := rfl
  have hword : (UInt64.ofNat bits).toNat = bits := by
    rw [UInt64.toNat_ofNat']
    omega
  unfold Unsigned
  rcases Nat.lt_or_eq_of_le hle with hlt | rfl
  · rw [toBits_ofBits _ (by omega)]
    omega
  · exact Nat.le_of_eq toBits_infinite

theorem unsigned_of_readNumeral? (w : List Char) (x : Float)
    (h : Lexical.readNumeral? w = some x) : Unsigned x := by
  unfold Lexical.readNumeral? at h
  simp only at h
  split at h
  · split at h
    · cases h
    · cases h
      apply unsigned_ofDigits
  · split at h
    · cases h
      apply unsigned_ofDigits
    · cases h

section

variable (x : Float) (h : Unsigned x)

include h

theorem magnitude_of_unsigned : magnitude x = x.toBits.toNat := by
  unfold Unsigned at h
  have hinf : Binary64.infinity = 2047 * 2 ^ 52 := rfl
  exact Nat.mod_eq_of_lt (by simp; omega)

theorem isNegative_of_unsigned : isNegative x = false := by
  unfold Unsigned at h
  have hinf : Binary64.infinity = 2047 * 2 ^ 52 := rfl
  simp [isNegative]
  omega

theorem isNaN_of_unsigned : x.isNaN = false := by
  rw [Bool.eq_false_iff, ne_eq, isNaN_iff, magnitude_of_unsigned x h]
  exact Nat.not_lt.mpr h

theorem digits_unsigned : digits x = magnitudeDigits x.toBits.toNat := by
  unfold digits
  rw [isNaN_of_unsigned x h, isNegative_of_unsigned x h, magnitude_of_unsigned x h]
  rfl

end

/-- The number that a word stands for. -/
def ofWord? (w : List Char) : Option Float :=
  if w = "inf".toList then some infinite else Lexical.readNumeral? w

theorem digits_cases (x : Float) (h : Unsigned x) :
    digits x = "inf".toList ∧ x = infinite ∨
      Lexical.IsNumeral (digits x) ∧ Lexical.readNumeral? (digits x) = some x := by
  rw [digits_unsigned x h]
  unfold magnitudeDigits
  rcases Nat.lt_or_eq_of_le h with hlt | heq
  · have hnumeral := numeral_of_magnitude x.toBits.toNat hlt
    rw [UInt64.ofNat_toNat, Float.ofBits_toBits] at hnumeral
    rw [if_neg (by omega)]
    exact Or.inr hnumeral
  · rw [if_pos heq, infinite, ← heq, UInt64.ofNat_toNat, Float.ofBits_toBits]
    exact Or.inl ⟨rfl, rfl⟩

end Number

/-! ## Words -/

/-- No blank and no parenthesis. -/
def Solid (w : List Char) : Prop := ∀ c ∈ w, c ∉ [' ', '(', ')']

instance (w : List Char) : Decidable (Solid w) :=
  decidable_of_iff (w.all (· ∉ [' ', '(', ')']) = true) (by simp [Solid])

theorem solid_digits (w : List Char) (h : ∀ c ∈ w, c.isDigit = true) : Solid w := by
  intro c hc hmem
  have hdigit := h c hc
  simp only [List.mem_cons, List.not_mem_nil, or_false] at hmem
  rcases hmem with rfl | rfl | rfl <;> cases hdigit

theorem solid_numeral (w : List Char) (h : Lexical.IsNumeral w) : Solid w := by
  rcases h with h | ⟨ds, fs, hds, hfs, rfl⟩
  · exact solid_digits w h.2
  · intro c hc
    rw [List.mem_append, List.mem_cons] at hc
    rcases hc with hc | rfl | hc
    · exact solid_digits ds hds.2 c hc
    · decide
    · exact solid_digits fs hfs.2 c hc

theorem numeral_ne_word (w : List Char) (h : Lexical.IsNumeral w) (v : List Char) (c : Char)
    (hv : v.head? = some c) (hc : c.isDigit = false) : w ≠ v := by
  rintro rfl
  obtain ⟨v, rfl⟩ := List.head?_eq_some_iff.mp hv
  rw [Lexical.isNumeral_head c v h] at hc
  cases hc

namespace Value

/-- A literal that is no number, or a number without a sign. -/
def Unsigned : Value → Prop
  | number x => Number.Unsigned x
  | string _ | bool _ | nil => True

/-- A literal that is written without quotes. -/
def Unquoted : Value → Prop
  | number x => Number.Unsigned x
  | string _ => False
  | bool _ | nil => True

theorem unquoted_of_unsigned (v : Value) (h : v.Unsigned) (hs : ∀ s, v ≠ string s) :
    v.Unquoted := by
  cases v with
  | number x => exact h
  | string s => exact absurd rfl (hs s)
  | bool b => trivial
  | nil => trivial

/-- The literal that a word stands for. -/
def ofWord? (w : List Char) : Option Value :=
  if w = "true".toList then some (bool true)
  else if w = "false".toList then some (bool false)
  else if w = "nil".toList then some nil
  else (Number.ofWord? w).map number

theorem toList_text_number (x : Float) : (number x).text.toList = Number.digits x :=
  String.toList_ofList

theorem ofWord?_text (v : Value) (h : v.Unquoted) : ofWord? v.text.toList = some v := by
  cases v with
  | number x =>
    rw [toList_text_number]
    rcases Number.digits_cases x h with ⟨hdigits, rfl⟩ | ⟨hnumeral, hread⟩
    · rw [hdigits]
      rfl
    · have hne := numeral_ne_word (Number.digits x) hnumeral
      unfold ofWord? Number.ofWord?
      rw [if_neg (hne _ 't' rfl rfl), if_neg (hne _ 'f' rfl rfl), if_neg (hne _ 'n' rfl rfl),
        if_neg (hne _ 'i' rfl rfl), hread]
      rfl
  | string s => exact absurd h id
  | bool b => cases b <;> rfl
  | nil => rfl

theorem solid_text (v : Value) (h : v.Unquoted) : Solid v.text.toList := by
  cases v with
  | number x =>
    rw [toList_text_number]
    rcases Number.digits_cases x h with ⟨hdigits, -⟩ | ⟨hnumeral, -⟩
    · rw [hdigits]
      decide
    · exact solid_numeral _ hnumeral
  | string s => exact absurd h id
  | bool b => cases b <;> decide
  | nil => decide

end Value

end Lox
