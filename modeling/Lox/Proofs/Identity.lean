import Lox.Proofs.Printers

/-!
# Equal trees are identical

Trees are compared literal by literal, and numbers compare as binary64 numbers do: NaN differs from
itself, and the two zeros are equal. So equality is not identity on all trees. It is on those that
texts are parsed into, because a numeral has no sign and is never read as NaN, and a minus in front
of it is an operator.
-/

namespace Lox

/-! ## Numbers -/

namespace Number

theorem zero_le_of_unsigned (x : Float) (h : Unsigned x) : 0 ≤ x := by
  have hbits : (0 : Float).toBits.toBitVec =
      Float.Model.UnpackedFloat.packedZero .binary64 .positive := by decide +kernel
  have hle := zero_le_unpack x.toBits.toBitVec h
  rw [← Float.Model.UnpackedFloat.unpack_packedZero, ← hbits] at hle
  exact decide_eq_true hle

theorem ne_nan_of_unsigned (x : Float) (h : Unsigned x) : x ≠ Float.nan := by
  have hnan := isNaN_of_unsigned x h
  rwa [Float.isNaN_eq_decide_eq_nan, decide_eq_false_iff_not] at hnan

theorem ne_neg_zero_of_unsigned (x : Float) (h : Unsigned x) : x ≠ -0 := by
  rintro rfl
  exact absurd (isNegative_of_unsigned _ h) (by decide +kernel)

theorem beq_iff_toBits (x y : Float) (hx : Unsigned x) (hy : Unsigned y) :
    (x == y) = true ↔ x.toBits = y.toBits := by
  rw [Float.beq_iff_ne_nan_and_eq, Float.toBits_inj]
  constructor
  · rintro ⟨-, -, heq | ⟨-, hneg⟩ | ⟨hneg, -⟩⟩
    · exact heq
    · exact absurd hneg (ne_neg_zero_of_unsigned y hy)
    · exact absurd hneg (ne_neg_zero_of_unsigned x hx)
  · intro heq
    exact ⟨ne_nan_of_unsigned x hx, ne_nan_of_unsigned y hy, Or.inl heq⟩

end Number

/-! ## Literals -/

namespace Value

/-- The same type and the same content, numbers bit by bit. -/
def SameBits : Value → Value → Prop
  | number x, number y => x.toBits = y.toBits
  | string s, string t => s = t
  | bool a, bool b => a = b
  | nil, nil => True
  | _, _ => False

theorem sameBits_iff (v w : Value) : v.SameBits w ↔ v = w := by
  cases v <;> cases w <;> simp [SameBits, Float.toBits_inj]

theorem equals_iff_sameBits (v w : Value) (hv : v.Unsigned) (hw : w.Unsigned) :
    v.equals w = true ↔ v.SameBits w := by
  cases v with
  | number x =>
    cases w with
    | number y => exact Number.beq_iff_toBits x y hv hw
    | string | bool | nil => simp [equals, SameBits]
  | string | bool | nil => cases w <;> simp [equals, SameBits]

theorem equals_self_iff (v : Value) : v.equals v = true ↔ v ≠ number Float.nan := by
  cases v <;> simp [equals, Float.beq_self_iff]

end Value

/-! ## Related trees -/

/-- Two tokens that differ at most in their literals, and these are related. -/
structure Token.Rel (R : Value → Value → Prop) (t u : Token) : Prop where
  kind : t.kind = u.kind
  lexeme : t.lexeme = u.lexeme
  literal : Option.Rel R t.literal u.literal
  line : t.line = u.line
  span : t.span = u.span

/-- Two trees of one shape, with related literals and operators. -/
inductive Expr.Rel (R : Value → Value → Prop) : Expr → Expr → Prop
  | literal (v w : Value) (h : R v w) : Rel R (.literal v) (.literal w)
  | group (a b : Expr) (h : Rel R a b) : Rel R (.group a) (.group b)
  | unary (p q : Token) (a b : Expr) (hop : p.Rel R q) (h : Rel R a b) :
      Rel R (.unary p a) (.unary q b)
  | binary (a b c d : Expr) (p q : Token) (hl : Rel R a c) (hop : p.Rel R q) (hr : Rel R b d) :
      Rel R (.binary a p b) (.binary c q d)

/-- The literals of an expression, and those that its operators carry, from left to right. -/
def Expr.values : Expr → List Value
  | literal v => [v]
  | group e => e.values
  | unary op e => op.literal.toList ++ e.values
  | binary l op r => l.values ++ (op.literal.toList ++ r.values)

namespace Token

theorem equals_iff (t u : Token) :
    t.equals u = true ↔ t.Rel (fun v w => v.equals w = true) u := by
  obtain ⟨k, w, v, l, s⟩ := t
  obtain ⟨k', w', v', l', s'⟩ := u
  simp only [equals, Bool.and_eq_true, beq_iff_eq]
  constructor
  · rintro ⟨⟨⟨⟨hk, hw⟩, hv⟩, hl⟩, hs⟩
    refine ⟨hk, hw, ?_, hl, hs⟩
    cases v with
    | none =>
      cases v' with
      | none => exact .none
      | some v' => cases hv
    | some v =>
      cases v' with
      | none => cases hv
      | some v' => exact .some hv
  · rintro ⟨hk, hw, hv, hl, hs⟩
    refine ⟨⟨⟨⟨hk, hw⟩, ?_⟩, hl⟩, hs⟩
    cases hv with
    | none => rfl
    | some h => exact h

theorem rel_mono (R S : Value → Value → Prop) (t u : Token)
    (h : ∀ v ∈ t.literal.toList, ∀ w ∈ u.literal.toList, R v w → S v w) (hrel : t.Rel R u) :
    t.Rel S u := by
  refine ⟨hrel.kind, hrel.lexeme, ?_, hrel.line, hrel.span⟩
  have hliteral := hrel.literal
  generalize t.literal = v at h hliteral ⊢
  generalize u.literal = w at h hliteral ⊢
  cases hliteral with
  | none => exact .none
  | some hvw => exact .some (h _ (by simp) _ (by simp) hvw)

theorem rel_self_iff (R : Value → Value → Prop) (t : Token) :
    t.Rel R t ↔ ∀ v ∈ t.literal.toList, R v v := by
  constructor
  · intro h v hv
    have hliteral := h.literal
    rw [Option.mem_toList.mp hv, Option.rel_some_some] at hliteral
    exact hliteral
  · intro h
    refine ⟨rfl, rfl, ?_, rfl, rfl⟩
    cases hv : t.literal with
    | none => exact .none
    | some v => exact .some (h v (by simp [hv]))

theorem eq_of_rel (t u : Token) (h : t.Rel (· = ·) u) : t = u := by
  obtain ⟨k, w, v, l, s⟩ := t
  obtain ⟨k', w', v', l', s'⟩ := u
  obtain ⟨rfl, rfl, hliteral, rfl, rfl⟩ := h
  cases hliteral with
  | none => rfl
  | some heq => rw [heq]

end Token

namespace Expr

section

variable (R : Value → Value → Prop) (a b c d : Expr) (p q : Token)

theorem rel_literal (v w : Value) : (literal v).Rel R (literal w) ↔ R v w :=
  ⟨fun (.literal _ _ h) => h, .literal v w⟩

theorem rel_group : (group a).Rel R (group b) ↔ a.Rel R b :=
  ⟨fun (.group _ _ h) => h, .group a b⟩

theorem rel_unary : (unary p a).Rel R (unary q b) ↔ p.Rel R q ∧ a.Rel R b :=
  ⟨fun (.unary _ _ _ _ hop h) => ⟨hop, h⟩, fun ⟨hop, h⟩ => .unary p q a b hop h⟩

theorem rel_binary :
    (binary a p b).Rel R (binary c q d) ↔ a.Rel R c ∧ p.Rel R q ∧ b.Rel R d :=
  ⟨fun (.binary _ _ _ _ _ _ hl hop hr) => ⟨hl, hop, hr⟩,
    fun ⟨hl, hop, hr⟩ => .binary a b c d p q hl hop hr⟩

end

theorem equals_iff (a b : Expr) :
    a.equals b = true ↔ a.Rel (fun v w => v.equals w = true) b := by
  fun_induction equals a b with
  | case1 v w => rw [rel_literal]
  | case2 a b ih => rw [rel_group, ih]
  | case3 p a q b ih => rw [Bool.and_eq_true, rel_unary, Token.equals_iff, ih]
  | case4 a p b c q d ihl ihr =>
    rw [Bool.and_eq_true, Bool.and_eq_true, rel_binary, Token.equals_iff, ihl, ihr, and_assoc]
  | case5 a b hliteral hgroup hunary hbinary =>
    -- The shapes differ at the root.
    refine iff_of_false Bool.false_ne_true ?_
    intro h
    cases h with
    | literal v w => exact hliteral v w rfl rfl
    | group a b => exact hgroup a b rfl rfl
    | unary p q a b => exact hunary p a q b rfl rfl
    | binary a b c d p q => exact hbinary a p b c q d rfl rfl

theorem rel_mono (R S : Value → Value → Prop) (a b : Expr)
    (h : ∀ v ∈ a.values, ∀ w ∈ b.values, R v w → S v w) (hrel : a.Rel R b) : a.Rel S b := by
  induction hrel with
  | literal v w hvw =>
    exact .literal v w (h v (List.mem_singleton_self v) w (List.mem_singleton_self w) hvw)
  | group a b hab ih => exact .group a b (ih h)
  | unary p q a b hop hab ih =>
    simp only [values, List.forall_mem_append] at h
    apply Rel.unary
    · exact Token.rel_mono R S p q (fun v hv => (h.1 v hv).1) hop
    · exact ih fun v hv => (h.2 v hv).2
  | binary a b c d p q hl hop hr ihl ihr =>
    simp only [values, List.forall_mem_append] at h
    apply Rel.binary
    · exact ihl fun v hv => (h.1 v hv).1
    · exact Token.rel_mono R S p q (fun v hv => (h.2.1 v hv).2.1) hop
    · exact ihr fun v hv => (h.2.2 v hv).2.2

theorem rel_congr (R S : Value → Value → Prop) (a b : Expr)
    (h : ∀ v ∈ a.values, ∀ w ∈ b.values, (R v w ↔ S v w)) : a.Rel R b ↔ a.Rel S b := by
  constructor
  · exact rel_mono R S a b fun v hv w hw => (h v hv w hw).mp
  · exact rel_mono S R a b fun v hv w hw => (h v hv w hw).mpr

theorem rel_self_iff (R : Value → Value → Prop) (e : Expr) :
    e.Rel R e ↔ ∀ v ∈ e.values, R v v := by
  induction e with
  | literal v => rw [rel_literal, values, List.forall_mem_singleton]
  | group e ih => rw [rel_group, values, ih]
  | unary op e ih => rw [rel_unary, values, List.forall_mem_append, Token.rel_self_iff, ih]
  | binary l op r ihl ihr =>
    rw [rel_binary, values, List.forall_mem_append, List.forall_mem_append, Token.rel_self_iff,
      ihl, ihr]

theorem rel_eq_iff (a b : Expr) : a.Rel (· = ·) b ↔ a = b := by
  constructor
  · intro h
    induction h with
    | literal v w h => rw [h]
    | group a b h ih => rw [ih]
    | unary p q a b hop h ih => rw [Token.eq_of_rel p q hop, ih]
    | binary a b c d p q hl hop hr ihl ihr => rw [Token.eq_of_rel p q hop, ihl, ihr]
  · rintro rfl
    rw [rel_self_iff]
    exact fun v _ => rfl

/-! ## Identity -/

/-- The same shape, the same operators, and the same literals bit by bit. -/
def Identical (a b : Expr) : Prop := a.Rel Value.SameBits b

theorem identical_iff (a b : Expr) : a.Identical b ↔ a = b :=
  (rel_congr _ _ a b fun v _ w _ => v.sameBits_iff w).trans (rel_eq_iff a b)

theorem equals_iff_identical (a b : Expr) (ha : ∀ v ∈ a.values, v.Unsigned)
    (hb : ∀ v ∈ b.values, v.Unsigned) : a.equals b = true ↔ a.Identical b :=
  (equals_iff a b).trans
    (rel_congr _ _ a b fun v hv w hw => v.equals_iff_sameBits w (ha v hv) (hb w hw))

/-- NaN is all that keeps a tree from being equal to itself. -/
theorem equals_self_iff (e : Expr) : e.equals e = true ↔ .number Float.nan ∉ e.values := by
  rw [equals_iff, rel_self_iff]
  simp only [Value.equals_self_iff]
  exact List.forall_mem_ne'

section

variable (x y : Option Expr)

theorem option_identical_iff : Option.Rel Identical x y ↔ x = y := by
  constructor
  · intro h
    cases h with
    | none => rfl
    | some h => rw [(identical_iff _ _).mp h]
  · rintro rfl
    cases x with
    | none => exact .none
    | some e => exact .some ((identical_iff e e).mpr rfl)

theorem optionEquals_iff_identical (hx : ∀ e ∈ x, ∀ v ∈ e.values, v.Unsigned)
    (hy : ∀ e ∈ y, ∀ v ∈ e.values, v.Unsigned) :
    optionEquals x y = true ↔ Option.Rel Identical x y := by
  cases x with
  | none =>
    cases y with
    | none => exact iff_of_true rfl .none
    | some b => exact iff_of_false Bool.false_ne_true nofun
  | some a =>
    cases y with
    | none => exact iff_of_false Bool.false_ne_true nofun
    | some b =>
      rw [Option.rel_some_some]
      exact equals_iff_identical a b (hx a rfl) (hy b rfl)

end

end Expr

/-! ## Trees of a text -/

theorem unsigned_of_derives (r : Grammar.Rule) (ts : List Token) (e : Expr)
    (h : Grammar.Derives r ts e) (hts : ∀ t ∈ ts, t.isEof = false → Lexical.Genuine t) :
    ∀ v ∈ e.values, v.Unsigned := by
  induction h with
  | literal t v h =>
    rw [Expr.values, List.forall_mem_singleton]
    exact unsigned_of_denotes t (hts t List.mem_cons_self) v h
  | group l r ts e hl he hr ih => exact ih fun t ht => hts t (by simp [ht])
  | unary op ts e hop he ih =>
    -- An operator carries no literal.
    have hsign := isSign_of_operator op (hts op (by simp)) (by simp [hop])
    rw [Expr.values, hsign.literal]
    exact ih fun t ht => hts t (by simp [ht])
  | operand r ts e he ih => exact ih hts
  | binary r ts us left right op hl hop hr ihl ihr =>
    have hmem := Grammar.operators_subset r hop
    have hsign := isSign_of_operator op (hts op (by simp)) (by simp [hmem])
    rw [Expr.values, hsign.literal, List.forall_mem_append]
    exact ⟨ihl fun t ht => hts t (by simp [ht]), ihr fun t ht => hts t (by simp [ht])⟩

theorem unsigned_of_parse (src : String) (s s' : Sink) (e : Expr)
    (h : parse src s = .ok (some e, s')) : ∀ v ∈ e.values, v.Unsigned := by
  obtain ⟨ts, hts, hd⟩ := genuine_of_parse src s s' e h
  exact unsigned_of_derives _ ts e hd hts

/-- **Equal trees are identical.** Whatever two texts are parsed into, equality holds exactly if
there is no tree on either side, or two of the same shape with the same operators, each with its
kind, lexeme, literal, line and span, and with the same literals bit by bit. So what a text is
parsed into equals itself. This rests on its numbers: none has its sign bit set, none is below zero,
and none is NaN. Trees in general differ from themselves if they hold NaN, and may be equal without
being identical. -/
theorem parsed_equal_iff_identical (src src' : String) (s s' : Sink) :
    ∃ x y t t', parse src s = .ok (x, t) ∧ parse src' s' = .ok (y, t') ∧
      (Expr.optionEquals x y = true ↔ Option.Rel Expr.Identical x y) ∧
      (Option.Rel Expr.Identical x y ↔ x = y) ∧
      Expr.optionEquals x x = true ∧
      (∀ e ∈ x, ∀ n, .number n ∈ e.values →
        Number.isNegative n = false ∧ 0 ≤ n ∧ n.isNaN = false) ∧
      (∀ e : Expr, e.equals e = true ↔ .number Float.nan ∉ e.values) ∧
      ∃ a b : Expr, a.equals b = true ∧ ¬ a.Identical b := by
  obtain ⟨x, t, hx, -⟩ := parse_returns src s
  obtain ⟨y, t', hy, -⟩ := parse_returns src' s'
  have hxs : ∀ e ∈ x, ∀ v ∈ e.values, v.Unsigned := by
    rintro e rfl
    exact unsigned_of_parse src s t e hx
  have hys : ∀ e ∈ y, ∀ v ∈ e.values, v.Unsigned := by
    rintro e rfl
    exact unsigned_of_parse src' s' t' e hy
  refine ⟨x, y, t, t', hx, hy, ?_, ?_, ?_, ?_, ?_, ?_⟩
  · exact Expr.optionEquals_iff_identical x y hxs hys
  · exact Expr.option_identical_iff x y
  · rw [Expr.optionEquals_iff_identical x x hxs hxs, Expr.option_identical_iff]
  · intro e he n hn
    have hunsigned : Number.Unsigned n := hxs e he _ hn
    exact ⟨Number.isNegative_of_unsigned n hunsigned, Number.zero_le_of_unsigned n hunsigned,
      Number.isNaN_of_unsigned n hunsigned⟩
  · exact Expr.equals_self_iff
  · have hdiffer : (0 : Float) ≠ -0 := by decide +kernel
    refine ⟨.literal (.number 0), .literal (.number (-0)), by decide +kernel, ?_⟩
    rw [Expr.identical_iff]
    simpa using hdiffer

end Lox
