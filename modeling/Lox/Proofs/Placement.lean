import Lox.Proofs.Machine
import Lox.Proofs.Parsing

/-!
# Places mean nothing

Which tree some tokens derive depends on their kinds and values only, and so does what the parser
does with them, step by step, and the value of the tree. Where the tokens stand shows up again only
in the operators of the tree and in the token that an error names.
-/

namespace Lox

/-- The function changes nothing of a token but where it stands. -/
structure Moves (f : Token → Token) : Prop where
  kind : ∀ t, (f t).kind = t.kind
  lexeme : ∀ t, (f t).lexeme = t.lexeme
  literal : ∀ t, (f t).literal = t.literal

def Expr.mapTokens (f : Token → Token) : Expr → Expr
  | literal v => literal v
  | group e => group (e.mapTokens f)
  | unary op e => unary (f op) (e.mapTokens f)
  | binary l op r => binary (l.mapTokens f) (f op) (r.mapTokens f)

def Eval.Stop.mapToken (f : Token → Token) : Eval.Stop → Eval.Stop
  | .runtime e => .runtime ⟨f e.token, e.cause⟩
  | .fault x => .fault x

section

variable (f : Token → Token)

theorem Eval.numeric_map (op : Token) (g : Float → Float → Value) (v w : Value) :
    Eval.numeric (f op) g v w = (Eval.numeric op g v w).mapError (Eval.Stop.mapToken f) := by
  unfold Eval.numeric Eval.refuse
  split <;> rfl

theorem Eval.plus_map (op : Token) (v w : Value) :
    Eval.plus (f op) v w = (Eval.plus op v w).mapError (Eval.Stop.mapToken f) := by
  unfold Eval.plus Eval.refuse
  split <;> rfl

variable (hf : Moves f)

include hf

theorem Grammar.denotes_map (t : Token) (v : Value) (h : Grammar.Denotes t v) :
    Grammar.Denotes (f t) v := by
  unfold Grammar.Denotes
  rw [hf.kind, hf.literal]
  exact h

theorem Grammar.derives_map (r : Grammar.Rule) (ts : List Token) (e : Expr)
    (h : Grammar.Derives r ts e) : Grammar.Derives r (ts.map f) (e.mapTokens f) := by
  induction h with
  | literal t v h => exact .literal (f t) v (denotes_map f hf t v h)
  | group l r ts e hl he hr ih =>
    have hg := Grammar.Derives.group (f l) (f r) (ts.map f) (e.mapTokens f)
      (by rw [hf.kind]; exact hl) ih (by rw [hf.kind]; exact hr)
    simpa [Expr.mapTokens] using hg
  | unary op ts e hop he ih =>
    exact .unary (f op) (ts.map f) (e.mapTokens f) (by rw [hf.kind]; exact hop) ih
  | operand r ts e he ih => exact .operand r (ts.map f) (e.mapTokens f) ih
  | binary r ts us left right op hl hop hr ihl ihr =>
    have hb := Grammar.Derives.binary r (ts.map f) (us.map f) (left.mapTokens f)
      (right.mapTokens f) (f op) ihl (by rw [hf.kind]; exact hop) ihr
    simpa [Expr.mapTokens] using hb

theorem Eval.unary_map (op : Token) (v : Value) :
    Eval.unary (f op) v = (Eval.unary op v).mapError (Eval.Stop.mapToken f) := by
  unfold Eval.unary Eval.refuse
  rw [hf.kind, hf.lexeme]
  split <;> rfl

theorem Eval.binary_map (op : Token) (v w : Value) :
    Eval.binary (f op) v w = (Eval.binary op v w).mapError (Eval.Stop.mapToken f) := by
  unfold Eval.binary
  rw [hf.kind, hf.lexeme]
  cases op.kind with
  | plus => apply Eval.plus_map
  | minus | star | slash | greater | greaterEqual | less | lessEqual => apply Eval.numeric_map
  | _ => rfl

theorem Expr.evaluate_map (e : Expr) :
    (e.mapTokens f).evaluate = e.evaluate.mapError (Eval.Stop.mapToken f) := by
  induction e with
  | literal v => rfl
  | group e ih => exact ih
  | unary op e ih =>
    rw [mapTokens, evaluate, evaluate, ih]
    cases e.evaluate with
    | error s => rfl
    | ok v => exact Eval.unary_map f hf op v
  | binary l op r ihl ihr =>
    rw [mapTokens, evaluate, evaluate, ihl, ihr]
    cases l.evaluate with
    | error s => rfl
    | ok v =>
      cases r.evaluate with
      | error s => rfl
      | ok w => exact Eval.binary_map f hf op v w

/-! ## Printing -/

theorem Expr.display_map (e : Expr) : (e.mapTokens f).display = e.display := by
  induction e with
  | literal v => rfl
  | group e ih => rw [mapTokens, display, display, ih]
  | unary op e ih => rw [mapTokens, display, display, ih, hf.lexeme]
  | binary l op r ihl ihr => rw [mapTokens, display, display, ihl, ihr, hf.lexeme]

theorem Expr.postfixForm_map (e : Expr) : (e.mapTokens f).postfixForm = e.postfixForm := by
  induction e with
  | literal v => rfl
  | group e ih => exact ih
  | unary op e ih =>
    rw [mapTokens, postfixForm, postfixForm, ih, unaryName, unaryName, hf.kind, hf.lexeme]
  | binary l op r ihl ihr => rw [mapTokens, postfixForm, postfixForm, ihl, ihr, hf.lexeme]

end

/-! ## Operators -/

/-- The operators of an expression, from left to right. -/
def Expr.operators : Expr → List Token
  | literal _ => []
  | group e => e.operators
  | unary op e => op :: e.operators
  | binary l op r => l.operators ++ op :: r.operators

theorem Grammar.operators_sublist (r : Grammar.Rule) (ts : List Token) (e : Expr)
    (h : Grammar.Derives r ts e) : e.operators.Sublist ts := by
  induction h with
  | literal t v h => exact List.nil_sublist [t]
  | group l r ts e hl he hr ih =>
    apply List.Sublist.cons
    exact ih.trans (List.sublist_append_left ts [r])
  | unary op ts e hop he ih => exact ih.cons_cons op
  | operand r ts e he ih => exact ih
  | binary r ts us left right op hl hop hr ihl ihr => exact ihl.append (ihr.cons_cons op)

theorem Expr.mem_operators_iff (e : Expr) (op : Token) :
    op ∈ e.operators ↔ .unary op ∈ e.postorder ∨ .binary op ∈ e.postorder := by
  induction e with
  | literal v => simp [operators, postorder]
  | group e ih => simp [operators, postorder, ih]
  | unary op' e ih => simp [operators, postorder, ih, or_comm, or_left_comm]
  | binary l op' r ihl ihr =>
    simp [operators, postorder, ihl, ihr, or_assoc, or_comm, or_left_comm]

theorem Expr.evaluate_blames (e : Expr) (err : RuntimeError)
    (h : e.evaluate = .error (.runtime err)) :
    err.token ∈ e.operators ∧ err.token.kind ∈ Grammar.binaryOperators := by
  have hexec : Machine.exec [] e.postorder = .error (.stop (.runtime err)) := by
    rw [Machine.exec_postorder, h]
    rfl
  obtain ⟨done, n, later, reached, hsplit, -, hn⟩ := Machine.exec_error [] _ _ hexec
  have hmem : n ∈ e.postorder := by simp [hsplit]
  rw [mem_operators_iff]
  -- The minus of one operand is of the same kind as the minus of two.
  cases Machine.step_blames reached n _ hn with
  | negate op hk => exact ⟨Or.inl hmem, by simp [hk, Grammar.binaryOperators]⟩
  | plus op hk => exact ⟨Or.inr hmem, by simp [hk, Grammar.binaryOperators]⟩
  | numeric op hk =>
    have hsub : Machine.numericOperators ⊆ Grammar.binaryOperators := by decide
    exact ⟨Or.inr hmem, hsub hk⟩

/-! ## Parsing -/

namespace Parse

def Frame.mapTokens (f : Token → Token) : Frame → Frame
  | paren => paren
  | unary op => unary (f op)
  | binary left op => binary (left.mapTokens f) (f op)

def State.mapTokens (f : Token → Token) : State → State
  | due stack => due (stack.map (Frame.mapTokens f))
  | ended stack e => ended (stack.map (Frame.mapTokens f)) (e.mapTokens f)

def Verdict.mapTokens (f : Token → Token) : Verdict → Verdict
  | tree e => tree (e.mapTokens f)
  | error cause => error cause
  | noLiteral => noLiteral

def Step.mapTokens (f : Token → Token) : Step → Step
  | next s => next (s.mapTokens f)
  | halt v => halt (v.mapTokens f)

section

variable (f : Token → Token)

theorem closeAll_map (e : Expr) (stack : List Frame) :
    closeAll (e.mapTokens f) (stack.map (Frame.mapTokens f)) =
      ((closeAll e stack).1.mapTokens f,
        (closeAll e stack).2.map (List.map (Frame.mapTokens f))) := by
  fun_induction closeAll e stack with
  | case1 e => rfl
  | case2 e stack => rfl
  | case3 e op stack ih => exact ih
  | case4 e left op stack ih => exact ih

variable (hf : Moves f)

include hf

theorem close_map (level : Nat) (e : Expr) (stack : List Frame) :
    close level (e.mapTokens f) (stack.map (Frame.mapTokens f)) =
      ((close level e stack).1.mapTokens f,
        (close level e stack).2.map (Frame.mapTokens f)) := by
  fun_induction close level e stack with
  | case1 e op stack ih => exact ih
  | case2 e left op stack h ih =>
    rw [List.map_cons, Frame.mapTokens, close, hf.kind, if_pos h]
    exact ih
  | case3 e left op stack h =>
    rw [List.map_cons, Frame.mapTokens, close, hf.kind, if_neg h]
  | case4 e stack hu hb =>
    -- What is left is empty or begins with a parenthesis.
    rcases stack with _ | ⟨frame, stack⟩
    · rfl
    · cases frame with
      | paren => rfl
      | unary op => exact absurd rfl (hu op stack)
      | binary left op => exact absurd rfl (hb left op stack)

theorem stepDue_map (stack : List Frame) (t : Token) :
    stepDue (stack.map (Frame.mapTokens f)) (f t) = (stepDue stack t).mapTokens f := by
  unfold stepDue
  rw [hf.kind, hf.literal]
  cases t.kind with
  | number | string => cases t.literal <;> rfl
  | keyword w => cases w <;> rfl
  | _ => rfl

theorem stepEnded_map (stack : List Frame) (e : Expr) (t : Token) :
    stepEnded (stack.map (Frame.mapTokens f)) (e.mapTokens f) (f t) =
      (stepEnded stack e t).mapTokens f := by
  unfold stepEnded
  rw [hf.kind, close_map f hf, closeAll_map f]
  by_cases hp : t.kind.precedence = 0
  · rw [if_neg (not_not_intro hp), if_neg (not_not_intro hp)]
    obtain ⟨e', outer, hc⟩ : ∃ e' outer, closeAll e stack = (e', outer) := ⟨_, _, rfl⟩
    rw [hc]
    cases outer with
    | none => rfl
    | some outer =>
      by_cases hr : t.kind = .rightParen
      · simp only [Option.map_some, hr, if_true]
        rfl
      · simp only [Option.map_some, hr, if_false]
        rfl
  · rw [if_pos hp, if_pos hp]
    rfl

theorem step_map (s : State) (t : Token) :
    step (s.mapTokens f) (f t) = (step s t).mapTokens f := by
  cases s with
  | due stack => exact stepDue_map f hf stack t
  | ended stack e => exact stepEnded_map f hf stack e t

theorem run_map (s : State) (ts : List Token) :
    run (s.mapTokens f) (ts.map f) =
      ((run s ts).1.map (Verdict.mapTokens f), (run s ts).2.map f) := by
  induction ts generalizing s with
  | nil => rfl
  | cons t ts ih =>
    rw [List.map_cons, run, run, step_map f hf]
    cases step s t with
    | next s' => exact ih s'
    | halt v => rfl

end

end Parse

/-- What the parser makes of tokens that have been moved. -/
def Parser.mapResult (f : Token → Token) : Except ParseError Expr → Except ParseError Expr
  | .ok e => .ok (e.mapTokens f)
  | .error err => .error ⟨err.cause, f err.token⟩

theorem Parser.expression_map (f : Token → Token) (hf : Moves f) (ts : List Token)
    (result : Except ParseError Expr) (h : (expression ⟨ts, 0⟩).1 = .ok result) :
    (expression ⟨ts.map f, 0⟩).1 = .ok (mapResult f result) := by
  obtain ⟨verdict, left, hrun⟩ : ∃ verdict left, Parse.run (.due []) ts = (verdict, left) :=
    ⟨_, _, rfl⟩
  have hrun' := Parse.run_map f hf (.due []) ts
  change Parse.run (.due []) (ts.map f) = _ at hrun'
  rw [hrun] at hrun'
  simp only [expression, rest, List.drop_zero, hrun, hrun'] at h ⊢
  cases verdict with
  | none => cases h
  | some verdict =>
    cases verdict with
    | tree e =>
      cases h
      rfl
    | error cause =>
      cases left with
      | nil => cases h
      | cons t left =>
        cases h
        rfl
    | noLiteral =>
      cases left with
      | nil => cases h
      | cons t left => cases h

end Lox
