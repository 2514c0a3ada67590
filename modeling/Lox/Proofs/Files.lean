import Lox.Proofs.Bookkeeping

/-!
# What a file leads to

The answer for a file is put together from its run and from what the sink holds behind it. The sink
may hold much from before: the errors of other texts, or a failed evaluation. The answer is still
the failure of this run.
-/

namespace Lox

/-! ## Sinks that hold the same

`s.Grows [] t` says that two sinks hold the same reports under the same flags and have passed on the
same reports. They may differ in what was logged.
-/

theorem Sink.grows_alike (s t s' t' : Sink) (new : List Report) (h : s.Grows [] t)
    (hs : s.Grows new s') (ht : t.Grows new t') : s'.Grows [] t' := by
  constructor
  · rw [ht.reports, hs.reports, h.reports, List.append_nil, List.append_nil]
  · rw [ht.hadError, hs.hadError, h.hadError]
    simp
  · rw [ht.hadRuntimeError, hs.hadRuntimeError, h.hadRuntimeError]
    simp
  · rw [ht.emitted, hs.emitted, h.emitted, List.append_nil, List.append_nil]

theorem Sink.syntaxErrors_of_alike (s t : Sink) (h : s.Grows [] t) :
    t.syntaxErrors = s.syntaxErrors := by
  unfold syntaxErrors
  rw [h.reports, List.append_nil]

theorem parse_alike (src : String) (s t s' : Sink) (tree : Option Expr) (h : s.Grows [] t)
    (hparse : parse src s = .ok (tree, s')) :
    ∃ t', parse src t = .ok (tree, t') ∧ s'.Grows [] t' := by
  obtain ⟨result, hresult, -⟩ := parses_operable src
  obtain ⟨ps, hps, hs⟩ := parse_grows src s result hresult
  obtain ⟨pt, hpt, ht⟩ := parse_grows src t result hresult
  have halike := Sink.grows_alike s t ps pt _ h hs ht
  have hflag : pt.hadError = ps.hadError := by
    rw [halike.hadError]
    simp
  rw [hparse] at hps
  cases hps
  rw [hflag] at hpt
  exact ⟨pt, hpt, halike⟩

theorem run_alike (src : String) (s t s' : Sink) (outcome : Outcome) (h : s.Grows [] t)
    (hrun : run src s = .ok (outcome, s')) :
    ∃ t', run src t = .ok (outcome, t') ∧ s'.Grows [] t' := by
  obtain ⟨result, hresult, -⟩ := parses_operable src
  obtain ⟨ps, -, hcases⟩ := run_cases src s result hresult
  rcases hcases with ⟨-, hparse, hs⟩ | ⟨-, -, e, -, hparse, ⟨v, hv, hs⟩ | ⟨err, herr, hs⟩⟩
  all_goals
    obtain ⟨pt, hpt, halike⟩ := parse_alike src s t ps _ h hparse
    rw [hs] at hrun
    cases hrun
  · exact ⟨pt, run_of_unparsed src t pt hpt, halike⟩
  · refine ⟨_, run_of_value src t pt e v hpt hv, ?_⟩
    exact Sink.grows_alike ps pt _ _ [] halike (Sink.grows_log _ _) (Sink.grows_log _ _)
  · refine ⟨_, run_of_error src t pt e err hpt herr, ?_⟩
    exact Sink.grows_alike ps pt _ _ _ halike (Sink.grows_log_post _ _ _)
      (Sink.grows_log_post _ _ _)

/-! ## The answer -/

/-- How the answer for a file with the text `src` fits the run of that text on the same sink, which
ends with `outcome` and leaves the sink `r`. -/
structure Answers (path src : String) (before : Sink) (outcome : Outcome) (r : Sink)
    (answer : Except Failure Value) : Prop where
  value : ∀ v, answer = .ok v ↔ outcome = .value v
  malformed : ∀ p text errors, answer = .error (.malformed p text errors) ↔
    r.hadError = true ∧ p = path ∧ text = src ∧ errors = r.syntaxErrors
  -- The error is that of this evaluation, whatever else the sink holds.
  runtime : ∀ p text err, answer = .error (.runtime p text err) ↔
    (p = path ∧ text = src) ∧
      ∃ e parsed, parse src before = .ok (some e, parsed) ∧ e.evaluate = .error (.runtime err)
  readable : ∀ cause, answer ≠ .error (.unreadable cause)
  -- The old errors come first, and then all that is wrong with this text.
  errors : ∃ result, Parses src result ∧ r.syntaxErrors =
    before.syntaxErrors ++ ((lexicalErrors src).map .ofLexical ++ parserErrors result)
  -- Behind every session the flags are sound, so a malformed text is never left unexplained.
  named : before.Sound → r.hadError = true → r.syntaxErrors ≠ []
  stained : before.hadError = true → r.hadError = true

theorem syntaxErrors_of_complaints (src : String) (s s' : Sink) (result : Except ParseError Expr)
    (h : s.Grows (complaints src result) s') :
    s'.syntaxErrors =
      s.syntaxErrors ++ ((lexicalErrors src).map .ofLexical ++ parserErrors result) := by
  unfold Sink.syntaxErrors
  rw [h.reports, List.filterMap_append, complaints_eq, List.filterMap_map]
  congr 1
  exact List.filterMap_some

section

variable (path src : String) (before parsed : Sink) (result : Except ParseError Expr)
  (hresult : Parses src result) (hgrows : before.Grows (complaints src result) parsed)

include hresult hgrows

theorem answers_of_flag (hflag : parsed.hadError = true)
    (hparse : parse src before = .ok (none, parsed)) :
    Answers path src before .syntaxFailure parsed
      (.error (.malformed path src parsed.syntaxErrors)) where
  value := by simp
  malformed := by
    intro p text errors
    simp [hflag, eq_comm]
  runtime := by simp [hparse]
  readable := by simp
  errors := ⟨result, hresult, syntaxErrors_of_complaints src before parsed result hgrows⟩
  named := by
    intro hs
    exact (Sink.hadError_iff parsed (Sink.sound_of_grows _ _ _ hgrows hs)).mp
  stained := fun _ => hflag

theorem answers_of_value (e : Expr) (v : Value) (hflag : parsed.hadError = false)
    (hparse : parse src before = .ok (some e, parsed)) (hv : e.evaluate = .ok v) :
    Answers path src before (.value v) (parsed.log (.evaluated v)) (.ok v) where
  value := by simp
  malformed := by simp [Sink.log, hflag]
  runtime := by simp [hparse, hv]
  readable := by simp
  errors := ⟨result, hresult, syntaxErrors_of_complaints src before parsed result hgrows⟩
  named := by simp [Sink.log, hflag]
  stained := by simp [clean_of_grows before parsed _ hgrows hflag]

theorem answers_of_error (e : Expr) (err : RuntimeError) (hflag : parsed.hadError = false)
    (hparse : parse src before = .ok (some e, parsed))
    (herr : e.evaluate = .error (.runtime err)) :
    Answers path src before .runtimeFailure ((parsed.log (.failed err)).post (.runtime err))
      (.error (.runtime path src err)) where
  value := by simp
  malformed := by simp [Sink.log, Sink.post, hflag, Report.syntaxError?]
  runtime := by
    intro p text err'
    simp [hparse, herr, eq_comm, and_assoc]
  readable := by simp
  errors := by
    refine ⟨result, hresult, ?_⟩
    rw [← syntaxErrors_of_complaints src before parsed result hgrows]
    simp [Sink.syntaxErrors, Sink.post, Sink.log, Report.syntaxError?]
  named := by simp [Sink.log, Sink.post, hflag, Report.syntaxError?]
  stained := by simp [clean_of_grows before parsed _ hgrows hflag]

end

/-- **A file fails as its own run does.** A file that cannot be read leaves the sink alone. For any
other one the answer is that of the run of its text, and the sink is left as the run leaves it, but
for the log. -/
theorem runFile_answers (path : String) (content : Except IoCause (List UInt8)) (before : Sink) :
    (∀ cause, content >>= Utf8.decode = .error cause →
      runFile path content before = .ok (.error (.unreadable cause), before)) ∧
    ∀ src, content >>= Utf8.decode = .ok src →
      ∃ outcome r answer after, run src before = .ok (outcome, r) ∧
        runFile path content before = .ok (answer, after) ∧ r.Grows [] after ∧
        Answers path src before outcome r answer := by
  constructor
  · intro cause hread
    unfold runFile
    rw [hread]
  · intro src hread
    have hfile : runFile path content before =
        runText path src (before.log (.runningFile path src.utf8ByteSize)) := by
      unfold runFile
      rw [hread]
    have hlog := before.grows_log (.runningFile path src.utf8ByteSize)
    obtain ⟨result, hresult, -⟩ := parses_operable src
    obtain ⟨parsed, hgrows, hcases⟩ := run_cases src before result hresult
    rcases hcases with ⟨hflag, hparse, hrun⟩ |
      ⟨hflag, -, e, -, hparse, ⟨v, hv, hrun⟩ | ⟨err, herr, hrun⟩⟩
    · obtain ⟨after, hafter, halike⟩ := run_alike src _ _ _ _ hlog hrun
      refine ⟨_, _, _, after, hrun, ?_, halike,
        answers_of_flag path src before parsed result hresult hgrows hflag hparse⟩
      rw [hfile, runText_of_syntaxFailure path src _ after hafter,
        Sink.syntaxErrors_of_alike parsed after halike]
    · obtain ⟨after, hafter, halike⟩ := run_alike src _ _ _ _ hlog hrun
      refine ⟨_, _, _, after, hrun, ?_, halike,
        answers_of_value path src before parsed result hresult hgrows e v hflag hparse hv⟩
      rw [hfile, runText_of_value path src _ after v hafter]
    · obtain ⟨after, hafter, halike⟩ := run_alike src _ _ _ _ hlog hrun
      refine ⟨_, _, _, after, hrun, ?_, halike,
        answers_of_error path src before parsed result hresult hgrows e err hflag hparse herr⟩
      have hlast := last_of_grows parsed after err
        (Sink.grows_trans _ _ _ _ _ (Sink.grows_log_post parsed (.failed err) _) halike)
      rw [hfile, runText_of_runtimeFailure path src _ after err hafter hlast]

/-- The sink still holds the error of another evaluation. -/
def afterProduct : Sink :=
  ({} : Sink).runtime ⟨⟨.star, "*", none, 7, ⟨2, 3⟩⟩, .operandsMustBeNumbers⟩

theorem runFile_answers_after_product :
    afterProduct.Sound ∧ Utf8.decode [45, 110, 105, 108] = .ok "-nil" ∧
      ∃ after, runFile "f" (.ok [45, 110, 105, 108]) afterProduct =
        .ok (.error (.runtime "f" "-nil"
          ⟨⟨.minus, "-", none, 1, ⟨0, 1⟩⟩, .operandMustBeNumber⟩), after) := by
  have hread : Utf8.decode [45, 110, 105, 108] = .ok "-nil" := by decide +kernel
  have hparses : Parses "-nil" (.ok (.unary ⟨.minus, "-", none, 1, ⟨0, 1⟩⟩ (.literal .nil))) := by
    unfold Parses
    decide +kernel
  refine ⟨⟨rfl, rfl⟩, hread, ?_⟩
  obtain ⟨outcome, r, answer, after, -, hfile, -, hanswers⟩ :=
    (runFile_answers "f" (.ok [45, 110, 105, 108]) afterProduct).2 "-nil" hread
  have hclean : lexicalErrors "-nil" = [] := by decide +kernel
  obtain ⟨parsed, hparse, hgrows⟩ := parse_grows "-nil" afterProduct _ hparses
  have hflag : parsed.hadError = false := by
    rw [hgrows.hadError, complaints, hclean]
    rfl
  rw [hflag] at hparse
  have hanswer := (hanswers.runtime "f" "-nil" _).mpr ⟨⟨rfl, rfl⟩, _, parsed, hparse, rfl⟩
  rw [hanswer] at hfile
  exact ⟨after, hfile⟩

end Lox
