import Lox.Proofs.Reporting

/-!
# Errors stand where an expression goes wrong

Some tokens are viable if an expression can begin with them. The parser takes in just the viable
tokens: whatever it has read it could still complete, and a token that it stops at with an error
leads nowhere. Which error it is says what could have come instead.
-/

namespace Lox

namespace Grammar

/-- An expression can begin with these tokens. -/
def Viable (ts : List Token) : Prop := ∃ us e, Derives .equality (ts ++ us) e

end Grammar

namespace Parse

open Grammar

/-! ## Tokens that are taken in -/

/-- The state behind a token that does not stop the parser. -/
def advance? (s : State) (t : Token) : Option State :=
  match step s t with
  | .next s' => some s'
  | .halt _ => none

/-- The state behind some tokens, if none of them stops the parser. -/
def reach? (s : State) (ts : List Token) : Option State := ts.foldlM advance? s

theorem advance?_eq_some_iff (s s' : State) (t : Token) :
    advance? s t = some s' ↔ step s t = .next s' := by
  unfold advance?
  cases step s t <;> simp

theorem reach?_cons (s : State) (t : Token) (ts : List Token) :
    reach? s (t :: ts) = (advance? s t).bind (reach? · ts) := rfl

theorem reach?_append (s : State) (ts us : List Token) :
    reach? s (ts ++ us) = (reach? s ts).bind (reach? · us) := List.foldlM_append

theorem run_reach? (s s' : State) (us more : List Token) (h : reach? s us = some s') :
    run s (us ++ more) = run s' more := by
  induction us generalizing s with
  | nil =>
    cases h
    rfl
  | cons t us ih =>
    rw [reach?_cons, Option.bind_eq_some_iff] at h
    obtain ⟨s₁, hstep, hs⟩ := h
    rw [advance?_eq_some_iff] at hstep
    rw [List.cons_append, run_next s s₁ t _ hstep, ih s₁ hs]

theorem reach?_of_run (s : State) (ts rest : List Token) (v : Verdict)
    (h : run s ts = (some v, rest)) :
    ∃ us t later s', ts = us ++ rest ∧ rest = t :: later ∧ reach? s us = some s' ∧
      step s' t = .halt v := by
  induction ts generalizing s with
  | nil => simp [run] at h
  | cons t ts ih =>
    cases hstep : step s t with
    | halt w =>
      rw [run, hstep] at h
      cases h
      exact ⟨[], t, ts, s, rfl, rfl, rfl, hstep⟩
    | next s' =>
      rw [run_next s s' t ts hstep] at h
      obtain ⟨us, u, later, s'', rfl, hrest, hs, hhalt⟩ := ih s' h
      refine ⟨t :: us, u, later, s'', rfl, hrest, ?_, hhalt⟩
      rw [reach?_cons, (advance?_eq_some_iff s s' t).mpr hstep]
      exact hs

/-! ## Every state can be completed -/

/-- The parentheses that are still open. -/
def openParens : List Frame → Nat
  | [] => 0
  | .paren :: stack => openParens stack + 1
  | .unary _ :: stack => openParens stack
  | .binary _ _ :: stack => openParens stack

def nilToken : Token := ⟨.keyword .kwNil, "nil", none, 1, ⟨0, 3⟩⟩

def closingToken : Token := ⟨.rightParen, ")", none, 1, ⟨0, 1⟩⟩

def endToken : Token := ⟨.eof, "", none, 1, ⟨0, 0⟩⟩

/-- What closes all that a stack has open, and the end. -/
def closers (stack : List Frame) : List Token :=
  List.replicate (openParens stack) closingToken ++ [endToken]

theorem head_closers (stack : List Frame) :
    ∃ t ts, closers stack = t :: ts ∧ t.kind.precedence = 0 := by
  unfold closers
  cases openParens stack with
  | zero => exact ⟨endToken, [], rfl, rfl⟩
  | succ n => exact ⟨closingToken, _, rfl, rfl⟩

theorem run_closers_cons (f : Frame) (stack : List Frame) (e e' : Expr)
    (hf : closeAll e (f :: stack) = closeAll e' stack)
    (hopen : openParens (f :: stack) = openParens stack) :
    run (.ended (f :: stack) e) (closers (f :: stack)) = run (.ended stack e') (closers stack) := by
  obtain ⟨t, ts, hclosers, ht⟩ := head_closers stack
  have hsame : closers (f :: stack) = closers stack := by rw [closers, hopen, closers]
  have hstep : step (.ended (f :: stack) e) t = step (.ended stack e') t := by
    simp [step, stepEnded, ht, hf]
  rw [hsame, hclosers, run, run, hstep]

theorem run_closers (stack : List Frame) (e : Expr) :
    ∃ tree, run (.ended stack e) (closers stack) = (some (.tree tree), [endToken]) := by
  induction stack generalizing e with
  | nil => exact ⟨e, rfl⟩
  | cons f stack ih =>
    cases f with
    | paren =>
      obtain ⟨tree, htree⟩ := ih (.group e)
      refine ⟨tree, ?_⟩
      rw [← htree]
      exact run_next _ _ closingToken (closers stack) rfl
    | unary op =>
      rw [run_closers_cons _ stack e (.unary op e) rfl rfl]
      exact ih (.unary op e)
    | binary left op =>
      rw [run_closers_cons _ stack e (.binary left op e) rfl rfl]
      exact ih (.binary left op e)

theorem run_completed (s : State) :
    ∃ us tree, run s (us ++ [endToken]) = (some (.tree tree), [endToken]) := by
  cases s with
  | due stack =>
    obtain ⟨tree, htree⟩ := run_closers stack (.literal .nil)
    refine ⟨nilToken :: List.replicate (openParens stack) closingToken, tree, ?_⟩
    rw [← htree]
    exact run_next _ _ nilToken (closers stack) rfl
  | ended stack e =>
    obtain ⟨tree, htree⟩ := run_closers stack e
    exact ⟨List.replicate (openParens stack) closingToken, tree, htree⟩

/-- An expression can begin with some tokens exactly if the parser takes them all in. -/
theorem viable_iff_reach? (ts : List Token) : Viable ts ↔ ∃ s, reach? (.due []) ts = some s := by
  constructor
  · rintro ⟨us, e, hd⟩
    have hrun := derives_run_tree (ts ++ us) [] endToken e hd (by decide)
    obtain ⟨read, t, later, s, hsplit, -, hs, -⟩ := reach?_of_run _ _ _ _ hrun
    rw [List.append_cancel_right_eq] at hsplit
    rw [← hsplit, reach?_append, Option.bind_eq_some_iff] at hs
    obtain ⟨s', hs', -⟩ := hs
    exact ⟨s', hs'⟩
  · rintro ⟨s, hs⟩
    obtain ⟨us, tree, hrun⟩ := run_completed s
    rw [← run_reach? _ s ts _ hs] at hrun
    obtain ⟨read, t, later, hsplit, -, hd, -⟩ := run_tree_derives _ _ _ hrun
    rw [← List.append_assoc, List.append_cancel_right_eq] at hsplit
    rw [← hsplit] at hd
    exact ⟨us, tree, hd⟩

theorem viable_concat_iff (ts : List Token) (s : State) (t : Token)
    (hs : reach? (.due []) ts = some s) : Viable (ts ++ [t]) ↔ ∃ s', step s t = .next s' := by
  rw [viable_iff_reach?, reach?_append, hs]
  simp [advance?_eq_some_iff, reach?]

/-! ## What an error says -/

theorem step_error (s : State) (t : Token) (cause : ParseError.Cause)
    (h : step s t = .halt (.error cause)) :
    (∃ stack, s = .due stack ∧ cause = .expectExpression) ∨
      ∃ stack outer e e', s = .ended stack e ∧ close 0 e stack = (e', .paren :: outer) ∧
        cause = .expectRightParen := by
  cases s with
  | due stack =>
    rcases stepDue_cases stack t with ⟨-, hstep⟩ | ⟨-, hstep⟩ | ⟨v, -, hstep⟩ |
      ⟨-, -, hstep⟩ | hstep
    all_goals rw [step, hstep] at h; cases h
    exact Or.inl ⟨stack, rfl, rfl⟩
  | ended stack e =>
    rcases stepEnded_cases stack e t with ⟨-, hstep⟩ | ⟨e', -, -, hstep⟩ |
      ⟨e', outer, -, -, hstep⟩ | ⟨e', outer, -, -, hc, hstep⟩
    all_goals rw [step, hstep] at h; cases h
    exact Or.inr ⟨stack, outer, e, e', rfl, hc, rfl⟩

section

variable (s : State) (t : Token) (cause : ParseError.Cause) (h : step s t = .halt (.error cause))

include h

theorem expectExpression_iff (n : Token) (hn : n.kind = .keyword .kwNil) :
    cause = .expectExpression ↔ ∃ s', step s n = .next s' := by
  rcases step_error s t cause h with ⟨stack, rfl, rfl⟩ | ⟨stack, outer, e, e', rfl, hc, rfl⟩
  · simp [step, stepDue, hn]
  · have hstep := stepEnded_of_close_paren stack outer e e' n (by simp [hn, Kind.precedence]) hc
    simp [step, hstep, hn]

theorem expectRightParen_iff (r : Token) (hr : r.kind = .rightParen) :
    cause = .expectRightParen ↔ ∃ s', step s r = .next s' := by
  rcases step_error s t cause h with ⟨stack, rfl, rfl⟩ | ⟨stack, outer, e, e', rfl, hc, rfl⟩
  · simp [step, stepDue, hr]
  · have hstep := stepEnded_of_close_paren stack outer e e' r (by simp [hr, Kind.precedence]) hc
    simp [step, hstep, hr]

end

end Parse

namespace Parser

open Grammar Parse

/-! ## Cursors -/

theorem expression_error (ts : List Token) (i : Nat) (err : ParseError) (p : Parser)
    (h : expression ⟨ts, i⟩ = (.ok (.error err), p)) :
    ∃ us later s, ts.drop i = us ++ err.token :: later ∧ p = ⟨ts, i + us.length⟩ ∧
      reach? (.due []) us = some s ∧ step s err.token = .halt (.error err.cause) := by
  obtain ⟨v, rest, hrun⟩ : ∃ v rest, Parse.run (.due []) (ts.drop i) = (v, rest) := ⟨_, _, rfl⟩
  simp only [expression, Parser.rest, hrun] at h
  split at h
  · simp at h
  · rename_i cause t later
    obtain ⟨us, u, later', s, hsplit, hrest, hs, hhalt⟩ := reach?_of_run _ _ _ _ hrun
    rw [moveTo_of_drop ts us (t :: later) i hsplit (by simp)] at h
    cases h
    cases hrest
    exact ⟨us, later, s, hsplit, rfl, hs, hhalt⟩
  · simp at h
  · simp at h

theorem parse_error (p p' : Parser) (err : ParseError) (s : Sink)
    (h : p.expression = (.ok (.error err), p')) :
    ∃ s', p.parse s = (.ok (none, s'), p') ∧ s.Grows [.ofParse err] s' := by
  refine ⟨(s.log (.aborted err)).malformed (.ofParse err), ?_, ?_⟩
  · unfold Parser.parse
    rw [h]
    rfl
  · exact Sink.grows_log_post s (.aborted err) (.ofParse err)

/-- **Errors stand where an expression goes wrong.** A parser that returns an error stands at the
token that the error names. An expression can begin with the tokens that it has read, but not with
these and that one too. An expression is expected exactly where an operand could have come, and a
parenthesis exactly where it could have been closed. The error is reported once. -/
theorem error_at_first_dead_end (ts : List Token) (i : Nat) (err : ParseError) (p : Parser)
    (h : expression ⟨ts, i⟩ = (.ok (.error err), p)) :
    ∃ k, p = ⟨ts, k⟩ ∧ i ≤ k ∧ ts[k]? = some err.token ∧
      Viable (ts.extract i k) ∧ ¬ Viable (ts.extract i k ++ [err.token]) ∧
      (∀ n : Token, n.kind = .keyword .kwNil →
        (err.cause = .expectExpression ↔ Viable (ts.extract i k ++ [n]))) ∧
      (∀ r : Token, r.kind = .rightParen →
        (err.cause = .expectRightParen ↔ Viable (ts.extract i k ++ [r]))) ∧
      ∀ s : Sink, ∃ s', parse ⟨ts, i⟩ s = (.ok (none, s'), ⟨ts, k⟩) ∧
        s.Grows [.malformed (.atToken err.token err.cause.message)] s' := by
  obtain ⟨us, later, s, hsplit, rfl, hs, hhalt⟩ := expression_error ts i err p h
  have hread : ts.extract i (i + us.length) = us := by
    rw [List.extract_eq_take_drop, hsplit, Nat.add_sub_cancel_left, List.take_left]
  have hat : ts[i + us.length]? = some err.token := by
    rw [← List.getElem?_drop, hsplit, List.getElem?_append_right (Nat.le_refl _), Nat.sub_self]
    rfl
  refine ⟨_, rfl, by omega, hat, ?_⟩
  rw [hread]
  refine ⟨(viable_iff_reach? us).mpr ⟨s, hs⟩, ?_, ?_, ?_, ?_⟩
  · rw [viable_concat_iff us s _ hs, hhalt]
    simp
  · intro n hn
    rw [viable_concat_iff us s n hs]
    exact expectExpression_iff s err.token err.cause hhalt n hn
  · intro r hr
    rw [viable_concat_iff us s r hs]
    exact expectRightParen_iff s err.token err.cause hhalt r hr
  · intro sink
    exact parse_error _ _ err sink h

theorem error_at_first_dead_end_two_operands :
    let opening : Token := ⟨.leftParen, "(", none, 1, ⟨0, 1⟩⟩
    let ts := [opening, nilToken, nilToken, endToken]
    expression ⟨ts, 0⟩ = (.ok (.error ⟨.expectRightParen, nilToken⟩), ⟨ts, 2⟩) ∧
      Viable [opening, nilToken] ∧ ¬ Viable [opening, nilToken, nilToken] ∧
      Viable [opening, nilToken, closingToken] := by
  -- Two operands side by side inside of a parenthesis: the second one is where it goes wrong.
  intro opening ts
  have h : expression ⟨ts, 0⟩ = (.ok (.error ⟨.expectRightParen, nilToken⟩), ⟨ts, 2⟩) := rfl
  obtain ⟨k, hk, -, -, hviable, hdead, -, hclosing, -⟩ := error_at_first_dead_end ts 0 _ _ h
  obtain rfl : 2 = k := congrArg cursor hk
  exact ⟨h, hviable, hdead, (hclosing closingToken rfl).mp rfl⟩

end Parser

end Lox
