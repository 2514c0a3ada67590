import Lox.Eval
import Lox.Proofs.Grammar

/-!
# Evaluation on a stack

The nodes of an expression, each behind its operands, are a program for a machine with a stack of
values. The machine has its own table of operators and stops at the first node that fails.
Evaluation gives the same answer.
-/

namespace Lox

namespace Expr

/-- The nodes, each behind its operands. -/
def postorder : Expr → List Node
  | literal v => [.literal v]
  | group e => e.postorder ++ [.group]
  | unary op e => e.postorder ++ [.unary op]
  | binary l op r => l.postorder ++ (r.postorder ++ [.binary op])

/-- The expression without its parentheses. -/
def ungrouped : Expr → Expr
  | literal v => literal v
  | group e => e.ungrouped
  | unary op e => unary op e.ungrouped
  | binary l op r => binary l.ungrouped op r.ungrouped

end Expr

namespace Machine

/-! ## The operators -/

def ofOne? : Kind → Value → Option Value
  | .bang, .nil => some (.bool true)
  | .bang, .bool b => some (.bool !b)
  | .bang, _ => some (.bool false)
  | .minus, .number x => some (.number (-x))
  | _, _ => none

def ofNumbers? : Kind → Option (Float → Float → Value)
  | .plus => some fun x y => .number (x + y)
  | .minus => some fun x y => .number (x - y)
  | .star => some fun x y => .number (x * y)
  | .slash => some fun x y => .number (x / y)
  | .greater => some fun x y => .bool (decide (x > y))
  | .greaterEqual => some fun x y => .bool (decide (x ≥ y))
  | .less => some fun x y => .bool (decide (x < y))
  | .lessEqual => some fun x y => .bool (decide (x ≤ y))
  | _ => none

def ofTwo? : Kind → Value → Value → Option Value
  | .equalEqual, v, w => some (.bool (v.equals w))
  | .bangEqual, v, w => some (.bool !v.equals w)
  | .plus, .string s, .string t => some (.string (s ++ t))
  | k, .number x, .number y => (ofNumbers? k).map fun f => f x y
  | _, _, _ => none

/-- The operators that take two numbers and nothing else. -/
def numericOperators : List Kind :=
  [.minus, .star, .slash, .greater, .greaterEqual, .less, .lessEqual]

/-- What a node can stop the machine with: a complaint about its operands, or, if its kind is no
operator of as many operands, a fault that names it. -/
inductive Blames : Node → Eval.Stop → Prop
  | negate (op : Token) (h : op.kind = .minus) :
      Blames (.unary op) (.runtime ⟨op, .operandMustBeNumber⟩)
  | plus (op : Token) (h : op.kind = .plus) :
      Blames (.binary op) (.runtime ⟨op, .operandsMustBeNumbersOrStrings⟩)
  | numeric (op : Token) (h : op.kind ∈ numericOperators) :
      Blames (.binary op) (.runtime ⟨op, .operandsMustBeNumbers⟩)
  | notUnary (op : Token) (h : op.kind ∉ Grammar.unaryOperators) :
      Blames (.unary op) (.fault (.notUnary op.lexeme))
  | notBinary (op : Token) (h : op.kind ∉ Grammar.binaryOperators) :
      Blames (.binary op) (.fault (.notBinary op.lexeme))

def unaryStop (op : Token) : Eval.Stop :=
  if op.kind = .minus then .runtime ⟨op, .operandMustBeNumber⟩
  else .fault (.notUnary op.lexeme)

def binaryStop (op : Token) : Eval.Stop :=
  if op.kind = .plus then .runtime ⟨op, .operandsMustBeNumbersOrStrings⟩
  else if op.kind ∈ numericOperators then .runtime ⟨op, .operandsMustBeNumbers⟩
  else .fault (.notBinary op.lexeme)

/-! ## The machine -/

/-- Why the machine halts early. A program that is the walk of an expression never underflows. -/
inductive Halt where
  | stop (s : Eval.Stop)
  | underflow
  deriving DecidableEq

def orStop (s : Eval.Stop) : Option Value → Except Eval.Stop Value
  | some v => .ok v
  | none => .error s

/-- Puts a value on the stack, or stops. -/
def push (stack : List Value) : Except Eval.Stop Value → Except Halt (List Value)
  | .ok v => .ok (v :: stack)
  | .error s => .error (.stop s)

def step (stack : List Value) (n : Node) : Except Halt (List Value) :=
  match n, stack with
  | .literal v, stack => .ok (v :: stack)
  | .group, stack => .ok stack
  | .unary op, v :: stack => push stack (orStop (unaryStop op) (ofOne? op.kind v))
  -- The right operand was pushed last.
  | .binary op, w :: v :: stack => push stack (orStop (binaryStop op) (ofTwo? op.kind v w))
  | _, _ => .error .underflow

def exec (stack : List Value) (ns : List Node) : Except Halt (List Value) := ns.foldlM step stack

/-- The answer of a program that leaves one value or stops. -/
def answer (ns : List Node) : Option (Except Eval.Stop Value) :=
  match exec [] ns with
  | .ok [v] => some (.ok v)
  | .error (.stop s) => some (.error s)
  | _ => none

/-! ## One node -/

theorem unary_eq (op : Token) (v : Value) :
    Eval.unary op v = orStop (unaryStop op) (ofOne? op.kind v) := by
  unfold Eval.unary unaryStop Eval.refuse
  cases op.kind <;> cases v <;> simp [ofOne?, orStop, Value.isTruthy]

theorem plus_eq (op : Token) (v w : Value) (h : op.kind = .plus) :
    Eval.plus op v w = orStop (binaryStop op) (ofTwo? op.kind v w) := by
  unfold Eval.plus Eval.refuse binaryStop
  rw [h]
  cases v <;> cases w <;> simp [ofTwo?, ofNumbers?, orStop]

theorem ofTwo?_numeric (k : Kind) (v w : Value) (h : k ∈ numericOperators) :
    ofTwo? k v w =
      match v, w with
      | .number x, .number y => (ofNumbers? k).map fun f => f x y
      | _, _ => none := by
  simp only [numericOperators, List.mem_cons, List.not_mem_nil, or_false] at h
  rcases h with rfl | rfl | rfl | rfl | rfl | rfl | rfl <;> cases v <;> cases w <;> rfl

theorem numeric_eq (op : Token) (f : Float → Float → Value) (v w : Value)
    (h : op.kind ∈ numericOperators) (hf : ofNumbers? op.kind = some f) :
    Eval.numeric op f v w = orStop (binaryStop op) (ofTwo? op.kind v w) := by
  have hplus : op.kind ≠ .plus := by
    intro hplus
    simp [hplus, numericOperators] at h
  unfold Eval.numeric Eval.refuse binaryStop
  rw [ofTwo?_numeric _ v w h, hf, if_neg hplus, if_pos h]
  cases v <;> cases w <;> rfl

theorem ofTwo?_illegal (k : Kind) (v w : Value) (h : k ∉ Grammar.binaryOperators) :
    ofTwo? k v w = none := by
  have hf : ofNumbers? k = none := by
    cases k <;> simp [Grammar.binaryOperators] at h <;> rfl
  unfold ofTwo?
  split <;> simp [Grammar.binaryOperators, hf] at h ⊢

theorem binary_eq (op : Token) (v w : Value) :
    Eval.binary op v w = orStop (binaryStop op) (ofTwo? op.kind v w) := by
  unfold Eval.binary
  split
  · rename_i h
    exact plus_eq op v w h
  case h_9 h => simp [h, ofTwo?, orStop]
  case h_10 h => simp [h, ofTwo?, orStop]
  case h_11 =>
    have h : op.kind ∉ Grammar.binaryOperators := by
      simp_all [Grammar.binaryOperators]
    have hnum : op.kind ∉ numericOperators := by
      simp_all [numericOperators]
    rw [ofTwo?_illegal _ v w h]
    unfold binaryStop
    simp_all [orStop]
  -- The seven operators on numbers.
  all_goals
    rename_i h
    apply numeric_eq
    · simp [h, numericOperators]
    · rw [h]
      rfl

theorem unaryStop_blames (op : Token) (v : Value) (h : ofOne? op.kind v = none) :
    Blames (.unary op) (unaryStop op) := by
  unfold unaryStop
  split
  · rename_i hk
    exact .negate op hk
  · rename_i hk
    apply Blames.notUnary
    intro hmem
    simp only [Grammar.unaryOperators, List.mem_cons, hk, List.not_mem_nil, or_false] at hmem
    rw [hmem] at h
    cases v <;> simp [ofOne?] at h

theorem binaryStop_blames (op : Token) (v w : Value) (h : ofTwo? op.kind v w = none) :
    Blames (.binary op) (binaryStop op) := by
  unfold binaryStop
  split
  · rename_i hk
    exact .plus op hk
  · split
    · rename_i hk
      exact .numeric op hk
    · rename_i hplus hnum
      apply Blames.notBinary
      intro hmem
      -- Of the operators of two operands, only the two equalities take everything.
      have heq : op.kind = .bangEqual ∨ op.kind = .equalEqual := by
        simp_all [Grammar.binaryOperators, numericOperators]
      rcases heq with hk | hk <;> simp [hk, ofTwo?] at h

theorem eq_none_of_push_error (stack : List Value) (s s' : Eval.Stop) (o : Option Value)
    (h : push stack (orStop s o) = .error (.stop s')) : o = none ∧ s = s' := by
  cases o with
  | some v => simp [orStop, push] at h
  | none => simpa [orStop, push] using h

theorem step_blames (stack : List Value) (n : Node) (s : Eval.Stop)
    (h : step stack n = .error (.stop s)) : Blames n s := by
  unfold step at h
  split at h
  · simp at h
  · simp at h
  · obtain ⟨hnone, rfl⟩ := eq_none_of_push_error _ _ _ _ h
    exact unaryStop_blames _ _ hnone
  · obtain ⟨hnone, rfl⟩ := eq_none_of_push_error _ _ _ _ h
    exact binaryStop_blames _ _ _ hnone
  · simp at h

/-! ## Programs -/

theorem exec_append (stack : List Value) (ns ms : List Node) :
    exec stack (ns ++ ms) = exec stack ns >>= fun stack => exec stack ms := by
  simp [exec]

theorem exec_singleton (stack : List Value) (n : Node) : exec stack [n] = step stack n := by
  simp [exec]

/-- The walk of an expression puts its value on the stack and leaves what is below alone. -/
theorem exec_postorder (e : Expr) (stack : List Value) :
    exec stack e.postorder = push stack e.evaluate := by
  induction e generalizing stack with
  | literal v => rfl
  | group e ih =>
    rw [Expr.postorder, exec_append, ih, Expr.evaluate]
    cases e.evaluate <;> rfl
  | unary op e ih =>
    rw [Expr.postorder, exec_append, ih, Expr.evaluate]
    cases e.evaluate with
    | error s => rfl
    | ok v =>
      change exec (v :: stack) [.unary op] = push stack (Eval.unary op v)
      rw [exec_singleton, unary_eq]
      rfl
  | binary l op r ihl ihr =>
    rw [Expr.postorder, exec_append, ihl, Expr.evaluate]
    cases l.evaluate with
    | error s => rfl
    | ok v =>
      change exec (v :: stack) (r.postorder ++ [.binary op]) = _
      rw [exec_append, ihr]
      cases r.evaluate with
      | error s => rfl
      | ok w =>
        change exec (w :: v :: stack) [.binary op] = push stack (Eval.binary op v w)
        rw [exec_singleton, binary_eq]
        rfl

theorem exec_error (stack : List Value) (ns : List Node) (h : Halt)
    (he : exec stack ns = .error h) :
    ∃ done n later reached, ns = done ++ n :: later ∧ exec stack done = .ok reached ∧
      step reached n = .error h := by
  induction ns generalizing stack with
  | nil => simp [exec, pure, Except.pure] at he
  | cons n ns ih =>
    have hcons : exec stack (n :: ns) = step stack n >>= fun stack => exec stack ns := by
      simp [exec]
    rw [hcons] at he
    cases hn : step stack n with
    | error h' =>
      rw [hn] at he
      cases he
      exact ⟨[], n, ns, stack, rfl, rfl, hn⟩
    | ok stack' =>
      rw [hn] at he
      obtain ⟨done, m, later, reached, rfl, hdone, hm⟩ := ih stack' he
      refine ⟨n :: done, m, later, reached, rfl, ?_, hm⟩
      simpa [exec, hn, bind, Except.bind] using hdone

theorem exec_stops (stack reached : List Value) (done later : List Node) (n : Node) (h : Halt)
    (hdone : exec stack done = .ok reached) (hn : step reached n = .error h) :
    exec stack (done ++ n :: later) = .error h := by
  rw [exec_append, hdone]
  simp [exec, hn, bind, Except.bind]

theorem answer_postorder (e : Expr) : answer e.postorder = some e.evaluate := by
  unfold answer
  rw [exec_postorder]
  cases e.evaluate <;> rfl

theorem evaluate_of_exec_error (e : Expr) (s : Eval.Stop)
    (h : exec [] e.postorder = .error (.stop s)) : e.evaluate = .error s := by
  rw [exec_postorder] at h
  cases he : e.evaluate with
  | ok v => simp [he, push] at h
  | error s' => simpa [he, push] using h

end Machine

namespace Expr

theorem postorder_ungrouped (e : Expr) :
    e.ungrouped.postorder = e.postorder.filter (· ≠ .group) := by
  induction e with
  | literal v => simp [ungrouped, postorder]
  | group e ih => simp [ungrouped, postorder, ih]
  | unary op e ih => simp [ungrouped, postorder, ih]
  | binary l op r ihl ihr => simp [ungrouped, postorder, ihl, ihr]

theorem evaluate_ungrouped (e : Expr) : e.ungrouped.evaluate = e.evaluate := by
  induction e with
  | literal v => rfl
  | group e ih => exact ih
  | unary op e ih => rw [ungrouped, evaluate, evaluate, ih]
  | binary l op r ihl ihr => rw [ungrouped, evaluate, evaluate, ihl, ihr]

/-- **Evaluation is a stack machine.** The machine gives every expression the answer that evaluation
gives it. A failure is the one of the first node that fails, and every walk that begins the same way
fails the same way, whatever comes later. Parentheses make no difference. -/
theorem evaluate_runs_on_stack (e : Expr) :
    Machine.answer e.postorder = some e.evaluate ∧
      (∀ s, e.evaluate = .error s → ∃ done n later stack, e.postorder = done ++ n :: later ∧
        Machine.exec [] done = .ok stack ∧ Machine.step stack n = .error (.stop s) ∧
        Machine.Blames n s ∧
        ∀ e' : Expr, done ++ [n] <+: e'.postorder → e'.evaluate = .error s) ∧
      e.ungrouped.postorder = e.postorder.filter (· ≠ .group) ∧
      e.ungrouped.evaluate = e.evaluate := by
  refine ⟨Machine.answer_postorder e, ?_, postorder_ungrouped e, evaluate_ungrouped e⟩
  intro s hs
  have hexec : Machine.exec [] e.postorder = .error (.stop s) := by
    rw [Machine.exec_postorder, hs]
    rfl
  obtain ⟨done, n, later, stack, hsplit, hdone, hn⟩ := Machine.exec_error [] _ _ hexec
  refine ⟨done, n, later, stack, hsplit, hdone, hn, Machine.step_blames stack n s hn, ?_⟩
  intro e' hprefix
  obtain ⟨later', hwalk⟩ := hprefix
  apply Machine.evaluate_of_exec_error
  rw [← hwalk, List.append_assoc, List.singleton_append]
  exact Machine.exec_stops [] stack done later' n _ hdone hn

theorem evaluate_runs_on_stack_minus_first :
    let minus : Token := ⟨.minus, "-", none, 1, ⟨1, 2⟩⟩
    let comma : Token := ⟨.comma, ",", none, 1, ⟨6, 7⟩⟩
    let e : Expr :=
      .binary (.group (.unary minus (.literal .nil))) comma (.unary comma (.literal .nil))
    let s : Eval.Stop := .runtime ⟨minus, .operandMustBeNumber⟩
    e.evaluate = .error s ∧ ∃ done n later stack, e.postorder = done ++ n :: later ∧
      Machine.exec [] done = .ok stack ∧ Machine.step stack n = .error (.stop s) ∧
      Machine.Blames n s := by
  -- The minus refuses `nil` before the commas, which are no operators, are reached.
  intro minus comma e s
  have hs : e.evaluate = .error s := rfl
  obtain ⟨done, n, later, stack, hsplit, hdone, hn, hblames, -⟩ :=
    (evaluate_runs_on_stack e).2.1 s hs
  exact ⟨hs, done, n, later, stack, hsplit, hdone, hn, hblames⟩

end Expr

end Lox
