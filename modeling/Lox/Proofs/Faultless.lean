import Lox.Proofs.Bounded
import Lox.Proofs.Coverage
import Lox.Proofs.Parsing
import Lox.RunFile

/-!
# No text leads to a fault

Each stage keeps the promises that the next one relies on: a scan ends with its end and gives
numbers and strings their values, a parse makes only operators that can be evaluated, and an
evaluation that fails is reported.
-/

namespace Lox

/-! ## Evaluation -/

namespace Expr

/-- An expression of operators that can be evaluated. -/
def Operable : Expr → Prop
  | literal _ => True
  | group e => e.Operable
  | unary op e => op.kind ∈ Grammar.unaryOperators ∧ e.Operable
  | binary l op r => l.Operable ∧ op.kind ∈ Grammar.binaryOperators ∧ r.Operable

theorem unary_ne_fault (op : Token) (v : Value) (f : Fault)
    (h : op.kind ∈ Grammar.unaryOperators) : Eval.unary op v ≠ .error (.fault f) := by
  simp only [Grammar.unaryOperators, List.mem_cons, List.not_mem_nil, or_false] at h
  rcases h with h | h
  · simp [Eval.unary, h]
  · cases v <;> simp [Eval.unary, Eval.refuse, h]

theorem numeric_ne_fault (op : Token) (g : Float → Float → Value) (v w : Value) (f : Fault) :
    Eval.numeric op g v w ≠ .error (.fault f) := by
  unfold Eval.numeric Eval.refuse
  split <;> simp

theorem plus_ne_fault (op : Token) (v w : Value) (f : Fault) :
    Eval.plus op v w ≠ .error (.fault f) := by
  unfold Eval.plus Eval.refuse
  split <;> simp

theorem binary_ne_fault (op : Token) (v w : Value) (f : Fault)
    (h : op.kind ∈ Grammar.binaryOperators) : Eval.binary op v w ≠ .error (.fault f) := by
  simp only [Grammar.binaryOperators, List.mem_cons, List.not_mem_nil, or_false] at h
  rcases h with h | h | h | h | h | h | h | h | h | h
  all_goals simp [Eval.binary, h, numeric_ne_fault, plus_ne_fault]

theorem evaluate_ne_fault (e : Expr) (h : e.Operable) (f : Fault) :
    e.evaluate ≠ .error (.fault f) := by
  induction e with
  | literal v => simp [evaluate]
  | group e ih => exact ih h
  | unary op e ih =>
    obtain ⟨hop, he⟩ := h
    apply bind_ne_error
    · exact ih he
    · intro v
      exact unary_ne_fault op v f hop
  | binary l op r ihl ihr =>
    obtain ⟨hl, hop, hr⟩ := h
    apply bind_ne_error
    · exact ihl hl
    · intro v
      apply bind_ne_error
      · exact ihr hr
      · intro w
        exact binary_ne_fault op v w f hop

theorem operable_of_derives (r : Grammar.Rule) (ts : List Token) (e : Expr)
    (h : Grammar.Derives r ts e) : e.Operable := by
  induction h with
  | literal t v h => trivial
  | group l r ts e hl he hr ih => exact ih
  | unary op ts e hop he ih => exact ⟨hop, ih⟩
  | operand r ts e he ih => exact ih
  | binary r ts us left right op hl hop hr ihl ihr =>
    have hmem : op.kind ∈ Grammar.binaryOperators := by
      rw [Grammar.mem_operators_iff] at hop
      have hrank := Grammar.one_le_rank r
      by_contra hnot
      rw [Grammar.not_mem_binaryOperators_iff] at hnot
      omega
    exact ⟨ihl, hmem, ihr⟩

end Expr

/-! ## Parsing -/

namespace Parse

theorem step_eof (s : State) (t : Token) (h : t.kind = .eof) : ∃ v, step s t = .halt v := by
  cases s with
  | due stack => exact ⟨.error .expectExpression, by simp [step, stepDue, h]⟩
  | ended stack e =>
    have hprec : t.kind.precedence = 0 := by simp [h, Kind.precedence]
    rcases stepEnded_cases stack e t with ⟨hne, -⟩ | ⟨e', -, -, hstep⟩ | ⟨e', outer, hk, -⟩ |
      ⟨e', outer, -, -, -, hstep⟩
    · exact absurd hprec hne
    · exact ⟨_, hstep⟩
    · rw [h] at hk
      cases hk
    · exact ⟨_, hstep⟩

theorem step_noLiteral (s : State) (t : Token) (h : step s t = .halt .noLiteral) :
    (t.kind = .number ∨ t.kind = .string) ∧ t.literal = none := by
  cases s with
  | due stack =>
    rcases stepDue_cases stack t with ⟨-, hstep⟩ | ⟨-, hstep⟩ | ⟨v, -, hstep⟩ |
      ⟨hk, hv, -⟩ | hstep
    · simp [step, hstep] at h
    · simp [step, hstep] at h
    · simp [step, hstep] at h
    · exact ⟨hk, hv⟩
    · simp [step, hstep] at h
  | ended stack e =>
    rcases stepEnded_cases stack e t with ⟨-, hstep⟩ | ⟨e', -, -, hstep⟩ |
      ⟨e', outer, -, -, hstep⟩ | ⟨e', outer, -, -, -, hstep⟩
    all_goals simp [step, hstep] at h

theorem run_stops (s : State) (ts : List Token) (h : ∃ t ∈ ts, t.kind = .eof) :
    ∃ v t rest s', run s ts = (some v, t :: rest) ∧ t ∈ ts ∧ step s' t = .halt v := by
  induction ts generalizing s with
  | nil => simp at h
  | cons t ts ih =>
    cases hstep : step s t with
    | halt v => exact ⟨v, t, ts, s, by rw [run, hstep], by simp, hstep⟩
    | next s' =>
      obtain ⟨u, hu, heof⟩ := h
      rcases List.mem_cons.mp hu with rfl | hu
      · obtain ⟨v, hv⟩ := step_eof s u heof
        rw [hv] at hstep
        cases hstep
      · obtain ⟨v, t', rest, s'', hrun, hmem, hhalt⟩ := ih s' ⟨u, hu, heof⟩
        exact ⟨v, t', rest, s'', by rw [run_next s s' t ts hstep, hrun], by simp [hmem], hhalt⟩

end Parse

/-- What the parser relies on. -/
structure Complete (ts : List Token) : Prop where
  ends : ∃ t ∈ ts, t.kind = .eof
  literals : ∀ t ∈ ts, t.kind = .number ∨ t.kind = .string → t.literal ≠ none

theorem expression_returns (ts : List Token) (h : Complete ts) :
    ∃ result p, Parser.expression ⟨ts, 0⟩ = (.ok result, p) ∧ ∀ e, result = .ok e → e.Operable := by
  obtain ⟨v, t, rest, s, hrun, hmem, hhalt⟩ := Parse.run_stops (.due []) ts h.ends
  have hrest : Parser.rest ⟨ts, 0⟩ = ts := List.drop_zero
  unfold Parser.expression
  rw [hrest, hrun]
  cases v with
  | tree e =>
    obtain ⟨us, -, -, -, -, hd, -⟩ := Parse.run_tree_derives ts (t :: rest) e hrun
    refine ⟨.ok e, _, rfl, ?_⟩
    rintro _ ⟨⟩
    exact Expr.operable_of_derives .equality us e hd
  | error cause =>
    refine ⟨.error ⟨cause, t⟩, _, rfl, ?_⟩
    rintro _ ⟨⟩
  | noLiteral =>
    obtain ⟨hk, hv⟩ := Parse.step_noLiteral s t hhalt
    exact absurd hv (h.literals t hmem hk)

/-! ## Scanning -/

theorem complete_scan (src : String) : Complete ((scan src).filterMap Item.token?) where
  ends := by
    obtain ⟨body, line, hscan, -⟩ := Lexical.laid_ends _ [] _ (Lexical.scan_laid src)
    refine ⟨⟨.eof, "", none, line, .point (byteLength src.toList)⟩, ?_, rfl⟩
    rw [hscan]
    simp [Item.eof, Item.token?]
  literals := by
    intro t ht hk
    obtain ⟨item, hitem, hsome⟩ := List.mem_filterMap.mp ht
    have hmem : .token t ∈ scan src := by
      cases item with
      | error e => cases hsome
      | token u =>
        cases hsome
        exact hitem
    have heof : t.isEof = false := by
      rcases hk with hk | hk <;> simp [Token.isEof, hk]
    have hsome := (Lexical.scan_munched src t hmem heof).literal.mpr hk
    intro hnone
    rw [hnone] at hsome
    cases hsome

/-! ## Running -/

theorem parser_returns (ts : List Token) (s : Sink) (h : Complete ts) :
    ∃ e s', (Parser.parse ⟨ts, 0⟩ s).1 = .ok (e, s') ∧ ∀ x, e = some x → x.Operable := by
  obtain ⟨result, p, hresult, hop⟩ := expression_returns ts h
  unfold Parser.parse
  rw [hresult]
  cases result with
  | ok e =>
    refine ⟨some e, _, rfl, ?_⟩
    rintro _ ⟨⟩
    exact hop e rfl
  | error err =>
    refine ⟨none, _, rfl, ?_⟩
    rintro _ ⟨⟩

theorem parse_returns (src : String) (s : Sink) :
    ∃ e s', parse src s = .ok (e, s') ∧ ∀ x, e = some x → x.Operable := by
  obtain ⟨e, s', hparse, hop⟩ := parser_returns _ (scanInto src s).2 (complete_scan src)
  refine ⟨if s'.hadError then none else e, s', ?_, ?_⟩
  · unfold parse
    simp only [scanInto, Sink.collect] at hparse ⊢
    rw [hparse]
    rfl
  · intro x hx
    by_cases herr : s'.hadError = true
    · simp [herr] at hx
    · simp only [herr] at hx
      exact hop x hx

theorem runtimeErrors_runtime (e : RuntimeError) (s : Sink) :
    (s.runtime e).runtimeErrors = s.runtimeErrors ++ [e] := by
  simp [Sink.runtime, Sink.post, Sink.runtimeErrors, Report.runtimeError?]

theorem interpret_returns (e : Expr) (s : Sink) (h : e.Operable) :
    ∃ v s', interpret e s = .ok (v, s') ∧ (v = none → s'.runtimeErrors ≠ []) := by
  unfold interpret
  cases he : e.evaluate with
  | ok v => exact ⟨some v, _, rfl, by simp⟩
  | error stop =>
    cases stop with
    | runtime err => exact ⟨none, _, rfl, by simp [runtimeErrors_runtime]⟩
    | fault f => exact absurd he (e.evaluate_ne_fault h f)

theorem run_returns (src : String) (s : Sink) :
    ∃ outcome s', run src s = .ok (outcome, s') ∧
      (outcome = .runtimeFailure → s'.runtimeErrors ≠ []) := by
  obtain ⟨e, s₁, hparse, hop⟩ := parse_returns src s
  rw [run_eq_parse, hparse]
  cases e with
  | none => exact ⟨.syntaxFailure, s₁, rfl, by simp⟩
  | some e =>
    obtain ⟨v, s₂, hinterpret, hreported⟩ := interpret_returns e s₁ (hop e rfl)
    simp only [bind, Except.bind, hinterpret]
    cases v with
    | none => exact ⟨.runtimeFailure, s₂, rfl, fun _ => hreported rfl⟩
    | some v => exact ⟨.value v, s₂, rfl, by simp⟩

theorem runText_returns (path src : String) (s : Sink) :
    ∃ answer s', runText path src s = .ok (answer, s') := by
  obtain ⟨outcome, s', hrun, hreported⟩ := run_returns src s
  unfold runText
  rw [hrun]
  cases outcome with
  | value v => exact ⟨.ok v, s', rfl⟩
  | syntaxFailure => exact ⟨.error (.malformed path src s'.syntaxErrors), s', rfl⟩
  | runtimeFailure =>
    obtain ⟨e, he⟩ := Option.ne_none_iff_exists'.mp
      (mt List.getLast?_eq_none_iff.mp (hreported rfl))
    exact ⟨.error (.runtime path src e), s', by simp [bind, Except.bind, he, pure, Except.pure]⟩

theorem runFile_returns (path : String) (content : Except IoCause (List UInt8)) (s : Sink) :
    ∃ answer s', runFile path content s = .ok (answer, s') := by
  unfold runFile
  split
  · exact ⟨_, s, rfl⟩
  · apply runText_returns

/-- **No text leads to a fault.** The counters of a scan stay within 32 bits, a number is read from
a numeral, a string is cut out of its quotes, and every run returns an outcome. -/
theorem run_faultless (src : String) (s : Sink) (hsize : src.utf8ByteSize < 2 ^ 32 - 1) :
    Bounded.scan src = .ok (scan src) ∧
      (∀ t, .token t ∈ scan src → t.kind = .number → Lexical.IsNumeral t.lexeme.toList) ∧
      (∀ t, .token t ∈ scan src → t.kind = .string →
        (slice? t.lexeme.toList ⟨1, byteLength t.lexeme.toList - 1⟩).isSome) ∧
      (∃ outcome s', run src s = .ok (outcome, s')) ∧
      ∀ path content, ∃ answer s', runFile path content s = .ok (answer, s') := by
  refine ⟨Bounded.scan_ok src hsize, ?_, ?_, ?_, ?_⟩
  · intro t ht hk
    have hmunched := Lexical.scan_munched src t ht (by simp [Token.isEof, hk])
    have hlexeme := hmunched.lexeme
    rw [hk] at hlexeme
    exact Lexical.lexeme_number _ hlexeme
  · intro t ht hk
    have hmunched := Lexical.scan_munched src t ht (by simp [Token.isEof, hk])
    obtain ⟨body, -, hlexeme, -⟩ := hmunched.string hk
    rw [hlexeme, Bounded.slice?_quoted]
    rfl
  · obtain ⟨outcome, s', hrun, -⟩ := run_returns src s
    exact ⟨outcome, s', hrun⟩
  · intro path content
    exact runFile_returns path content s

theorem run_faultless_mixed_sum :
    "1 + \"a\"".utf8ByteSize < 2 ^ 32 - 1 ∧
      Bounded.scan "1 + \"a\"" = .ok (scan "1 + \"a\"") ∧
      ∃ outcome s', run "1 + \"a\"" {} = .ok (outcome, s') := by
  have hsize : "1 + \"a\"".utf8ByteSize < 2 ^ 32 - 1 := by decide
  obtain ⟨hscan, -, -, hrun, -⟩ := run_faultless "1 + \"a\"" {} hsize
  exact ⟨hsize, hscan, hrun⟩

end Lox
