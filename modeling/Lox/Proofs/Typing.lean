import Lox.Proofs.Faultless

/-!
# Types decide failure

Whether an expression has a value, which operator refuses its operands if not, and the type of the
value otherwise: all of it can be read off the types of the literals. `Sketch.check` does so on an
expression whose literals have been forgotten.
-/

namespace Lox

inductive Ty where
  | number
  | string
  | bool
  | nil
  deriving DecidableEq, Repr

def Value.type : Value → Ty
  | number _ => .number
  | string _ => .string
  | bool _ => .bool
  | nil => .nil

/-- An expression of which only the operators and the types of the literals are known. -/
inductive Sketch where
  | literal (type : Ty)
  | group (inner : Sketch)
  | unary (op : Token) (right : Sketch)
  | binary (left : Sketch) (op : Token) (right : Sketch)
  deriving DecidableEq

namespace Sketch

def unaryType (op : Token) (a : Ty) : Except Eval.Stop Ty :=
  match op.kind with
  | .bang => .ok .bool
  | .minus => if a = .number then .ok .number else .error (.runtime ⟨op, .operandMustBeNumber⟩)
  | _ => .error (.fault (.notUnary op.lexeme))

/-- The type `t` of what an operator makes of two numbers. -/
def numericType (op : Token) (t a b : Ty) : Except Eval.Stop Ty :=
  if a = .number ∧ b = .number then .ok t else .error (.runtime ⟨op, .operandsMustBeNumbers⟩)

def binaryType (op : Token) (a b : Ty) : Except Eval.Stop Ty :=
  match op.kind with
  | .plus =>
    if a = b ∧ (a = .number ∨ a = .string) then .ok a
    else .error (.runtime ⟨op, .operandsMustBeNumbersOrStrings⟩)
  | .minus | .star | .slash => numericType op .number a b
  | .greater | .greaterEqual | .less | .lessEqual => numericType op .bool a b
  | .equalEqual | .bangEqual => .ok .bool
  | _ => .error (.fault (.notBinary op.lexeme))

/-- The type of the value, or why there is none. -/
def check : Sketch → Except Eval.Stop Ty
  | literal t => .ok t
  | group e => e.check
  | unary op e => do
    let a ← e.check
    unaryType op a
  | binary l op r => do
    let a ← l.check
    let b ← r.check
    binaryType op a b

end Sketch

namespace Expr

def sketch : Expr → Sketch
  | literal v => .literal v.type
  | group e => .group e.sketch
  | unary op e => .unary op e.sketch
  | binary l op r => .binary l.sketch op r.sketch

/-- The same shape and the same operators, and literals of the same types. -/
inductive Alike : Expr → Expr → Prop
  | literal (v w : Value) (h : v.type = w.type) : Alike (.literal v) (.literal w)
  | group (a b : Expr) (h : Alike a b) : Alike (.group a) (.group b)
  | unary (op : Token) (a b : Expr) (h : Alike a b) : Alike (.unary op a) (.unary op b)
  | binary (op : Token) (a b c d : Expr) (hl : Alike a b) (hr : Alike c d) :
      Alike (.binary a op c) (.binary b op d)

theorem sketch_eq_of_alike (a b : Expr) (h : Alike a b) : a.sketch = b.sketch := by
  induction h with
  | literal v w h => simp [sketch, h]
  | group a b h ih => simp [sketch, ih]
  | unary op a b h ih => simp [sketch, ih]
  | binary op a b c d hl hr ihl ihr => simp [sketch, ihl, ihr]

/-! ## Operators -/

theorem unary_type (op : Token) (v : Value) :
    (Eval.unary op v).map Value.type = Sketch.unaryType op v.type := by
  unfold Eval.unary Sketch.unaryType Eval.refuse
  cases op.kind <;> cases v <;> simp [Value.type, Except.map]

theorem numeric_type (op : Token) (f : Float → Float → Value) (v w : Value) (t : Ty)
    (hf : ∀ x y, (f x y).type = t) :
    (Eval.numeric op f v w).map Value.type = Sketch.numericType op t v.type w.type := by
  unfold Eval.numeric Sketch.numericType Eval.refuse
  cases v <;> cases w <;> simp [Value.type, Except.map]
  apply hf

theorem plus_type (op : Token) (v w : Value) (h : op.kind = .plus) :
    (Eval.plus op v w).map Value.type = Sketch.binaryType op v.type w.type := by
  unfold Eval.plus Sketch.binaryType Eval.refuse
  rw [h]
  cases v <;> cases w <;> simp [Value.type, Except.map]

theorem binary_type (op : Token) (v w : Value) :
    (Eval.binary op v w).map Value.type = Sketch.binaryType op v.type w.type := by
  by_cases hplus : op.kind = .plus
  · rw [← plus_type op v w hplus, Eval.binary, hplus]
  · unfold Eval.binary Sketch.binaryType
    cases hk : op.kind with
    | plus => exact absurd hk hplus
    | minus | star | slash | greater | greaterEqual | less | lessEqual =>
      apply numeric_type
      intro x y
      rfl
    | _ => rfl

/-! ## Expressions -/

theorem evaluate_type (e : Expr) : e.evaluate.map Value.type = e.sketch.check := by
  induction e with
  | literal v => rfl
  | group e ih => exact ih
  | unary op e ih =>
    rw [evaluate, sketch, Sketch.check, ← ih]
    cases e.evaluate with
    | error s => rfl
    | ok v => exact unary_type op v
  | binary l op r ihl ihr =>
    rw [evaluate, sketch, Sketch.check, ← ihl, ← ihr]
    cases l.evaluate with
    | error s => rfl
    | ok v =>
      cases r.evaluate with
      | error s => rfl
      | ok w => exact binary_type op v w

/-- **Types decide failure.** What `check` finds without a look at any value is what evaluation
does. So two expressions that differ in the values of their literals only both fail, at the same
operator and for the same reason, or both have values of one type, or both come to the same operator
that cannot be evaluated where it stands. -/
theorem failure_decided_by_types :
    (∀ e : Expr, e.evaluate.map Value.type = e.sketch.check) ∧
      ∀ a b : Expr, Alike a b →
        (∃ err, a.evaluate = .error (.runtime err) ∧ b.evaluate = .error (.runtime err)) ∨
        (∃ v w, a.evaluate = .ok v ∧ b.evaluate = .ok w ∧ v.type = w.type) ∨
        ∃ f, a.evaluate = .error (.fault f) ∧ b.evaluate = .error (.fault f) ∧
          ¬ a.Operable ∧ ¬ b.Operable := by
  refine ⟨evaluate_type, ?_⟩
  intro a b h
  have hsame : a.evaluate.map Value.type = b.evaluate.map Value.type := by
    rw [evaluate_type, evaluate_type, sketch_eq_of_alike a b h]
  cases ha : a.evaluate with
  | ok v =>
    cases hb : b.evaluate with
    | error s => simp [ha, hb, Except.map] at hsame
    | ok w =>
      simp only [ha, hb, Except.map, Except.ok.injEq] at hsame
      exact Or.inr (Or.inl ⟨v, w, rfl, rfl, hsame⟩)
  | error s =>
    cases hb : b.evaluate with
    | ok w => simp [ha, hb, Except.map] at hsame
    | error s' =>
      simp only [ha, hb, Except.map, Except.error.injEq] at hsame
      subst hsame
      cases s with
      | runtime err => exact Or.inl ⟨err, rfl, rfl⟩
      | fault f =>
        refine Or.inr (Or.inr ⟨f, rfl, rfl, ?_, ?_⟩)
        · intro hop
          exact evaluate_ne_fault a hop f ha
        · intro hop
          exact evaluate_ne_fault b hop f hb

-- A comma stands between no two operands in any text, but a tree can hold it there.
def nilsAroundComma : Expr :=
  .binary (.literal .nil) ⟨.comma, ",", none, 1, ⟨3, 4⟩⟩ (.literal .nil)

/-- Without the last case it would not hold: a comma neither refuses its operands nor has a
value. -/
theorem nilsAroundComma_faults :
    Alike nilsAroundComma nilsAroundComma ∧
      nilsAroundComma.evaluate = .error (.fault (.notBinary ",")) ∧
      ¬ ((∃ err, nilsAroundComma.evaluate = .error (.runtime err) ∧
          nilsAroundComma.evaluate = .error (.runtime err)) ∨
        ∃ v w, nilsAroundComma.evaluate = .ok v ∧ nilsAroundComma.evaluate = .ok w ∧
          v.type = w.type) := by
  have halike : Alike nilsAroundComma nilsAroundComma :=
    .binary _ _ _ _ _ (.literal _ _ rfl) (.literal _ _ rfl)
  have hfault : nilsAroundComma.evaluate = .error (.fault (.notBinary ",")) := rfl
  refine ⟨halike, hfault, ?_⟩
  rw [hfault]
  rintro (⟨err, h, -⟩ | ⟨v, w, h, -⟩)
  · cases h
  · cases h

theorem failure_decided_by_types_negation :
    let bang : Token := ⟨.bang, "!", none, 1, ⟨0, 1⟩⟩
    let plus : Token := ⟨.plus, "+", none, 1, ⟨6, 7⟩⟩
    let a : Expr := .binary (.unary bang (.literal (.bool true))) plus (.literal (.string ""))
    let b : Expr := .binary (.unary bang (.literal (.bool false))) plus (.literal (.string "x"))
    Alike a b ∧ ∃ err, a.evaluate = .error (.runtime err) ∧ b.evaluate = .error (.runtime err) := by
  intro bang plus a b
  have halike : Alike a b :=
    .binary plus _ _ _ _ (.unary bang _ _ (.literal _ _ rfl)) (.literal _ _ rfl)
  refine ⟨halike, ?_⟩
  rcases failure_decided_by_types.2 a b halike with h | ⟨v, w, h, -⟩ | ⟨f, h, -⟩
  · exact h
  · cases h
  · cases h

end Expr

end Lox
