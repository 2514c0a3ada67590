import Lox.Proofs.Faultless

/-!
# What a run reports

Three stages write to one sink. `Sink.Grows` says what a stage adds to it, and each stage has one
lemma that gives its reports. The outcome of a run follows from them: it is a syntax failure exactly
if the sink is flagged at the end, whatever the sink held before.
-/

namespace Lox

/-! ## Sinks that grow -/

namespace Sink

/-- The second sink is the first with some reports behind the old ones, and each of them has raised
its flag and has been passed on. -/
structure Grows (s : Sink) (new : List Report) (s' : Sink) : Prop where
  reports : s'.reports = s.reports ++ new
  hadError : s'.hadError = (s.hadError || new.any (·.syntaxError?.isSome))
  hadRuntimeError : s'.hadRuntimeError = (s.hadRuntimeError || new.any (·.runtimeError?.isSome))
  emitted : s'.emitted = s.emitted ++ new

theorem grows_log (s : Sink) (l : Log) : s.Grows [] (s.log l) := by
  constructor <;> simp [log, emitted, Event.report?]

theorem grows_post (s : Sink) (r : Report) : s.Grows [r] (s.post r) := by
  constructor <;> simp [post, emitted, Event.report?]

theorem grows_trans (a b c : Sink) (xs ys : List Report) (h : a.Grows xs b) (h' : b.Grows ys c) :
    a.Grows (xs ++ ys) c := by
  constructor
  · rw [h'.reports, h.reports, List.append_assoc]
  · rw [h'.hadError, h.hadError, List.any_append, Bool.or_assoc]
  · rw [h'.hadRuntimeError, h.hadRuntimeError, List.any_append, Bool.or_assoc]
  · rw [h'.emitted, h.emitted, List.append_assoc]

theorem grows_log_post (s : Sink) (l : Log) (r : Report) : s.Grows [r] ((s.log l).post r) :=
  grows_trans s (s.log l) _ [] [r] (grows_log s l) (grows_post (s.log l) r)

end Sink

/-! ## Scanning -/

def Report.ofLexical (e : LexicalError) : Report := .malformed (.ofLexical e)

def Report.ofParse (e : ParseError) : Report := .malformed (.ofParse e)

def tokensOf (src : String) : List Token := (scan src).filterMap Item.token?

def lexicalErrors (src : String) : List LexicalError := (scan src).filterMap Item.error?

namespace Sink

theorem grows_record (s : Sink) (item : Item) :
    s.Grows (item.error?.toList.map .ofLexical) (s.record item) := by
  cases item with
  | token t => exact grows_log s (.token t)
  | error e => exact grows_post s (.ofLexical e)

theorem grows_foldl (items : List Item) (s : Sink) :
    s.Grows ((items.filterMap Item.error?).map .ofLexical) (items.foldl record s) := by
  induction items generalizing s with
  | nil => constructor <;> simp
  | cons item items ih =>
    have h := grows_trans _ _ _ _ _ (grows_record s item) (ih (s.record item))
    cases item with
    | token t => exact h
    | error e => exact h

theorem grows_collect (items : List Item) (s : Sink) :
    s.Grows ((items.filterMap Item.error?).map .ofLexical) (s.collect items).2 := by
  have h := grows_trans _ _ _ _ _ (grows_foldl items s)
    (grows_log _ (.scanned (items.filterMap Item.token?).length))
  rw [List.append_nil] at h
  exact h

end Sink

/-! ## Parsing -/

/-- What the parser makes of the tokens of a text. -/
def Parses (src : String) (result : Except ParseError Expr) : Prop :=
  (Parser.expression ⟨tokensOf src, 0⟩).1 = .ok result

theorem parses_operable (src : String) :
    ∃ result, Parses src result ∧ ∀ e, result = .ok e → e.Operable := by
  obtain ⟨result, p, hresult, hop⟩ := expression_returns _ (complete_scan src)
  refine ⟨result, ?_, hop⟩
  unfold Parses tokensOf
  rw [hresult]

theorem parses_unique (src : String) (a b : Except ParseError Expr) (ha : Parses src a)
    (hb : Parses src b) : a = b := by
  unfold Parses at ha hb
  rw [ha] at hb
  simpa using hb

/-- All that is wrong with how a text is written. -/
def complaints (src : String) : Except ParseError Expr → List Report
  | .ok _ => (lexicalErrors src).map .ofLexical
  | .error err => (lexicalErrors src).map .ofLexical ++ [.ofParse err]

theorem any_complaints (src : String) (result : Except ParseError Expr) :
    (complaints src result).any (·.syntaxError?.isSome) = !(complaints src result).isEmpty := by
  cases result with
  | ok e =>
    unfold complaints
    cases lexicalErrors src <;> simp [Report.ofLexical, Report.syntaxError?]
  | error err => simp [complaints, Report.ofParse, Report.syntaxError?]

theorem parse_grows (src : String) (s : Sink) (result : Except ParseError Expr)
    (h : Parses src result) :
    ∃ s', parse src s = .ok (if s'.hadError then none else result.toOption, s') ∧
      s.Grows (complaints src result) s' := by
  have hscan : s.Grows ((lexicalErrors src).map .ofLexical) (scanInto src s).2 :=
    Sink.grows_collect (scan src) s
  have htokens : (scanInto src s).1 = tokensOf src := rfl
  unfold Parses at h
  cases result with
  | ok e =>
    refine ⟨(scanInto src s).2.log (.parsed e), ?_, ?_⟩
    · simp only [parse, htokens, Parser.parse, h]
      rfl
    · have hlog := Sink.grows_trans _ _ _ _ _ hscan (Sink.grows_log _ (.parsed e))
      rw [List.append_nil] at hlog
      exact hlog
  | error err =>
    refine ⟨((scanInto src s).2.log (.aborted err)).post (.ofParse err), ?_, ?_⟩
    · simp only [parse, htokens, Parser.parse, h]
      rfl
    · exact Sink.grows_trans _ _ _ _ _ hscan (Sink.grows_log_post _ (.aborted err) (.ofParse err))

/-! ## Running -/

theorem run_of_unparsed (src : String) (s s' : Sink) (h : parse src s = .ok (none, s')) :
    run src s = .ok (.syntaxFailure, s') := by
  rw [run_eq_parse, h]
  rfl

theorem run_of_value (src : String) (s s' : Sink) (e : Expr) (v : Value)
    (h : parse src s = .ok (some e, s')) (hv : e.evaluate = .ok v) :
    run src s = .ok (.value v, s'.log (.evaluated v)) := by
  rw [run_eq_parse, h]
  simp only [bind, Except.bind, interpret, hv]
  rfl

theorem run_of_error (src : String) (s s' : Sink) (e : Expr) (err : RuntimeError)
    (h : parse src s = .ok (some e, s')) (herr : e.evaluate = .error (.runtime err)) :
    run src s = .ok (.runtimeFailure, (s'.log (.failed err)).post (.runtime err)) := by
  rw [run_eq_parse, h]
  simp only [bind, Except.bind, interpret, herr]
  rfl

/-- What a text leads to on a sink. Either the sink is flagged in the end and nothing has been
evaluated, or nothing is wrong with the text and its expression has been. -/
theorem run_cases (src : String) (s : Sink) (result : Except ParseError Expr)
    (h : Parses src result) :
    ∃ parsed, s.Grows (complaints src result) parsed ∧
      (parsed.hadError = true ∧ parse src s = .ok (none, parsed) ∧
        run src s = .ok (.syntaxFailure, parsed) ∨
      parsed.hadError = false ∧ complaints src result = [] ∧ ∃ e, result = .ok e ∧
        parse src s = .ok (some e, parsed) ∧
        ((∃ v, e.evaluate = .ok v ∧ run src s = .ok (.value v, parsed.log (.evaluated v))) ∨
        ∃ err, e.evaluate = .error (.runtime err) ∧
          run src s =
            .ok (.runtimeFailure, (parsed.log (.failed err)).post (.runtime err)))) := by
  obtain ⟨parsed, hparse, hgrows⟩ := parse_grows src s result h
  refine ⟨parsed, hgrows, ?_⟩
  cases hflag : parsed.hadError with
  | true =>
    simp only [hflag, if_true] at hparse
    exact Or.inl ⟨rfl, hparse, run_of_unparsed src s parsed hparse⟩
  | false =>
    have hnone : complaints src result = [] := by
      have hany := hgrows.hadError
      rw [hflag, any_complaints] at hany
      simp at hany
      exact hany.2
    simp only [hflag, Bool.false_eq_true, if_false] at hparse
    cases result with
    | error err => simp [complaints] at hnone
    | ok e =>
      refine Or.inr ⟨rfl, hnone, e, rfl, hparse, ?_⟩
      cases he : e.evaluate with
      | ok v => exact Or.inl ⟨v, rfl, run_of_value src s parsed e v hparse he⟩
      | error stop =>
        cases stop with
        | runtime err => exact Or.inr ⟨err, rfl, run_of_error src s parsed e err hparse he⟩
        | fault f =>
          obtain ⟨result', hresult', hop⟩ := parses_operable src
          have hsame := parses_unique src _ _ hresult' h
          exact absurd he (e.evaluate_ne_fault (hop e hsame) f)

/-! ## One story -/

/-- The error of the parser, if there is one, as it is reported. -/
def parserErrors : Except ParseError Expr → List SyntaxError
  | .ok _ => []
  | .error err => [.ofParse err]

theorem complaints_eq (src : String) (result : Except ParseError Expr) :
    complaints src result =
      ((lexicalErrors src).map SyntaxError.ofLexical ++ parserErrors result).map .malformed := by
  cases result <;> simp [complaints, parserErrors, Report.ofLexical, Report.ofParse]

theorem filter_complaints (src : String) (result : Except ParseError Expr) :
    (complaints src result).filter (·.syntaxError?.isSome) = complaints src result := by
  rw [List.filter_eq_self, complaints_eq]
  intro r hr
  obtain ⟨e, -, rfl⟩ := List.mem_map.mp hr
  rfl

theorem parserErrors_location (result : Except ParseError Expr) :
    ∀ x ∈ parserErrors result, ∃ name, x.location = " at " ++ name := by
  intro x hx
  cases result with
  | ok e => simp [parserErrors] at hx
  | error err =>
    obtain rfl : x = .ofParse err := by simpa [parserErrors] using hx
    unfold SyntaxError.ofParse SyntaxError.atToken SyntaxError.locationOf
    split
    · exact ⟨"end", rfl⟩
    · exact ⟨"'" ++ err.token.lexeme ++ "'", by simp [← String.toList_inj]⟩

theorem lexicalErrors_ordered (src : String) :
    (lexicalErrors src).Pairwise fun x y => x.span.stop ≤ y.span.start := by
  have hordered := Lexical.laid_ordered _ _ _ (Lexical.scan_laid src)
  unfold lexicalErrors
  rw [List.pairwise_filterMap]
  apply hordered.imp
  intro a b hab x hx y hy
  cases a with
  | token t => simp [Item.error?] at hx
  | error e =>
    cases b with
    | token t => simp [Item.error?] at hy
    | error e' =>
      simp only [Item.error?, Option.some.injEq] at hx hy
      subst hx hy
      exact hab

/-- How a run that adds the reports `new` to a sink, and a parse of the same text on the same sink,
fit together. -/
structure Story (src : String) (before : Sink) (outcome : Outcome) (after : Sink)
    (new : List Report) (tree : Option Expr) (parsed : Sink) : Prop where
  kept : after.reports = before.reports ++ new
  flagged : outcome = .syntaxFailure ↔ after.hadError = true
  stained : before.hadError = true → outcome = .syntaxFailure
  value : ∀ v, outcome = .value v → new = []
  runtime : outcome = .runtimeFailure →
    ∃ e err, tree = some e ∧ e.evaluate = .error (.runtime err) ∧ new = [.runtime err]
  -- The errors of the scanner in the order of the text, and then at most one of the parser.
  malformed : outcome = .syntaxFailure →
    ∃ (scanner : List SyntaxError) (result : Except ParseError Expr),
      scanner = (lexicalErrors src).map .ofLexical ∧ Parses src result ∧
      new = (scanner ++ parserErrors result).map .malformed ∧
      (∀ x ∈ scanner, x.location = "") ∧ (parserErrors result).length ≤ 1 ∧
      ∀ x ∈ parserErrors result, ∃ name, x.location = " at " ++ name
  ordered : (lexicalErrors src).Pairwise fun x y => x.span.stop ≤ y.span.start
  told : outcome = .syntaxFailure → before.hadError = false → new ≠ []
  -- Without a tree nothing is evaluated, and with one it is.
  isTree : tree.isSome = true ↔ outcome ≠ .syntaxFailure
  sameSyntax : parsed.reports = before.reports ++ new.filter (·.syntaxError?.isSome)
  unevaluated : outcome = .syntaxFailure → after = parsed
  evaluated : ∀ e, tree = some e → (∀ v, outcome = .value v ↔ e.evaluate = .ok v) ∧
    (outcome = .runtimeFailure ↔ ∃ err, e.evaluate = .error (.runtime err))

section

variable (src : String) (s parsed : Sink) (result : Except ParseError Expr)

theorem story_of_flag (h : Parses src result) (hgrows : s.Grows (complaints src result) parsed)
    (hflag : parsed.hadError = true) :
    Story src s .syntaxFailure parsed (complaints src result) none parsed where
  kept := hgrows.reports
  flagged := by simp [hflag]
  stained := by simp
  value := by simp
  runtime := by simp
  malformed := by
    intro _
    refine ⟨_, result, rfl, h, complaints_eq src result, ?_, ?_, parserErrors_location result⟩
    · intro x hx
      obtain ⟨e, -, rfl⟩ := List.mem_map.mp hx
      rfl
    · cases result <;> simp [parserErrors]
  ordered := lexicalErrors_ordered src
  told := by
    intro _ hclean hnone
    have hany := hgrows.hadError
    rw [hflag, hclean, hnone] at hany
    simp at hany
  isTree := by simp
  sameSyntax := by rw [filter_complaints, hgrows.reports]
  unevaluated := by simp
  evaluated := by simp

theorem clean_of_grows (new : List Report) (hgrows : s.Grows new parsed)
    (hflag : parsed.hadError = false) : s.hadError = false := by
  have hany := hgrows.hadError
  rw [hflag] at hany
  simp at hany
  exact hany.1

theorem story_of_value (e : Expr) (v : Value) (hgrows : s.Grows [] parsed)
    (hflag : parsed.hadError = false) (hv : e.evaluate = .ok v) :
    Story src s (.value v) (parsed.log (.evaluated v)) [] (some e) parsed where
  kept := hgrows.reports
  flagged := by simp [Sink.log, hflag]
  stained := by simp [clean_of_grows s parsed [] hgrows hflag]
  value := by simp
  runtime := by simp
  malformed := by simp
  ordered := lexicalErrors_ordered src
  told := by simp
  isTree := by simp
  sameSyntax := hgrows.reports
  unevaluated := by simp
  evaluated := by
    rintro _ ⟨⟩
    simp [hv]

theorem story_of_error (e : Expr) (err : RuntimeError) (hgrows : s.Grows [] parsed)
    (hflag : parsed.hadError = false) (herr : e.evaluate = .error (.runtime err)) :
    Story src s .runtimeFailure ((parsed.log (.failed err)).post (.runtime err)) [.runtime err]
      (some e) parsed where
  kept := (Sink.grows_trans _ _ _ _ _ hgrows (Sink.grows_log_post parsed _ _)).reports
  flagged := by simp [Sink.log, Sink.post, Report.syntaxError?, hflag]
  stained := by simp [clean_of_grows s parsed [] hgrows hflag]
  value := by simp
  runtime := by
    intro _
    exact ⟨e, err, rfl, herr, rfl⟩
  malformed := by simp
  ordered := lexicalErrors_ordered src
  told := by simp
  isTree := by simp
  sameSyntax := hgrows.reports
  unevaluated := by simp
  evaluated := by
    rintro _ ⟨⟩
    simp [herr]

end

/-- **The outcome and the sink tell one story.** Every run returns, on a clean sink and on a stained
one, and what it says, what it adds to the sink and what a parse makes of the text all agree. -/
theorem run_tells_one_story (src : String) (before : Sink) :
    ∃ outcome after new tree parsed, run src before = .ok (outcome, after) ∧
      parse src before = .ok (tree, parsed) ∧
      Story src before outcome after new tree parsed := by
  obtain ⟨result, hresult, -⟩ := parses_operable src
  obtain ⟨parsed, hgrows, hcases⟩ := run_cases src before result hresult
  rcases hcases with ⟨hflag, hparse, hrun⟩ | ⟨hflag, hnone, e, -, hparse, hcases⟩
  · exact ⟨_, _, _, _, _, hrun, hparse, story_of_flag src before parsed result hresult hgrows hflag⟩
  · rw [hnone] at hgrows
    rcases hcases with ⟨v, hv, hrun⟩ | ⟨err, herr, hrun⟩
    · exact ⟨_, _, _, _, _, hrun, hparse, story_of_value src before parsed e v hgrows hflag hv⟩
    · exact ⟨_, _, _, _, _, hrun, hparse, story_of_error src before parsed e err hgrows hflag herr⟩

end Lox
