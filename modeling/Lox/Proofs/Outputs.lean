import Lox.Proofs.Files
import Lox.Proofs.Prompting

/-!
# What running a file writes

A failure comes to standard error on one of two ways. Its reports are streamed, each as soon as it
is made, or the failure is drawn in full behind the run. The stream and the failure are made by
different parts of the program. They agree because every report is passed on once, in order, and the
failure holds just the reports of this run.
-/

namespace Lox

/-! ## The reports of a failure -/

/-- What a file has to answer for. -/
def reportsOf : Except Failure Value → List Report
  | .ok _ => []
  | .error f => f.reports

theorem join_lines (xs : List String) (h : xs ≠ []) :
    String.join (xs.map (· ++ "\n")) = "\n".intercalate xs ++ "\n" := by
  induction xs with
  | nil => exact absurd rfl h
  | cons x xs ih =>
    cases xs with
    | nil => simp
    | cons y ys =>
      rw [List.map_cons, String.join_cons, ih (by simp), String.intercalate_cons_cons]
      simp [String.append_assoc]

theorem Failure.join_reports (f : Failure) (h : f.reports ≠ []) :
    String.join (f.reports.map (·.text ++ "\n")) = f.plain ++ "\n" := by
  cases f with
  | malformed path src errors =>
    have hne : errors.map SyntaxError.text ≠ [] := by simpa [reports] using h
    rw [plain, ← join_lines _ hne]
    simp [reports, Function.comp_def, Report.text]
  | runtime path src error => simp [reports, plain, Report.text]
  | unreadable cause => exact absurd rfl h

/-! ## A file on a sink of its own -/

section

variable (path src : String) (s parsed : Sink) (result : Except ParseError Expr)
  (hclean : s.reports = [] ∧ s.hadError = false ∧ s.emitted = [])
  (hgrows : s.Grows (complaints src result) parsed)

include hclean hgrows

theorem reports_of_flag (hflag : parsed.hadError = true) :
    parsed.emitted = reportsOf (.error (.malformed path src parsed.syntaxErrors)) ∧
      parsed.syntaxErrors ≠ [] := by
  obtain ⟨hreports, hno, hemitted⟩ := hclean
  have herrors := syntaxErrors_of_complaints src s parsed result hgrows
  have hold : s.syntaxErrors = [] := by simp [Sink.syntaxErrors, hreports]
  rw [hold, List.nil_append] at herrors
  constructor
  · rw [hgrows.emitted, hemitted, herrors, complaints_eq]
    rfl
  · intro hnone
    have hany := hgrows.hadError
    rw [hflag, hno, complaints_eq, ← herrors, hnone] at hany
    simp at hany

end

theorem runFile_passes_on (path : String) (content : Except IoCause (List UInt8)) :
    ∃ answer s, runFile path content {} = .ok (answer, s) ∧ s.emitted = reportsOf answer ∧
      (∀ p src errors, answer = .error (.malformed p src errors) → errors ≠ []) ∧
      ∀ cause, answer = .error (.unreadable cause) ↔ content >>= Utf8.decode = .error cause := by
  unfold runFile
  cases hread : content >>= Utf8.decode with
  | error cause => exact ⟨_, _, rfl, rfl, by simp, by simp⟩
  | ok src =>
    obtain ⟨s, hs⟩ : ∃ s, s = ({} : Sink).log (.runningFile path src.utf8ByteSize) := ⟨_, rfl⟩
    have hclean : s.reports = [] ∧ s.hadError = false ∧ s.emitted = [] := by
      rw [hs]
      exact ⟨rfl, rfl, rfl⟩
    obtain ⟨result, hresult, -⟩ := parses_operable src
    obtain ⟨parsed, hgrows, hcases⟩ := run_cases src s result hresult
    simp only [← hs]
    rcases hcases with ⟨hflag, -, hrun⟩ | ⟨-, hnone, e, -, -, ⟨v, -, hrun⟩ | ⟨err, -, hrun⟩⟩
    · obtain ⟨hemitted, hne⟩ := reports_of_flag path src s parsed result hclean hgrows hflag
      refine ⟨_, _, runText_of_syntaxFailure path src s parsed hrun, hemitted, ?_, by simp⟩
      rintro p text errors ⟨⟩
      exact hne
    · have hlog := Sink.grows_trans _ _ _ _ _ hgrows (Sink.grows_log parsed (.evaluated v))
      refine ⟨_, _, runText_of_value path src s _ v hrun, ?_, by simp, by simp⟩
      rw [hlog.emitted, hclean.2.2, hnone]
      rfl
    · have hpost := Sink.grows_log_post parsed (.failed err) (.runtime err)
      have hlast := last_of_grows parsed _ err hpost
      refine ⟨_, _, runText_of_runtimeFailure path src s _ err hrun hlast, ?_, by simp, by simp⟩
      rw [hpost.emitted, hgrows.emitted, hclean.2.2, hnone]
      rfl

namespace Command

/-! ## The two ways to standard error -/

/-- A failure that is streamed: one piece for each report, and all of them together are the plain
text of the failure and a line feed. -/
structure Streams (f : Failure) (err : List String) : Prop where
  pieces : err = f.reports.map (·.text ++ "\n")
  plain : String.join err = f.plain ++ "\n"

/-- What running a file without a log writes to standard output and to standard error, and its exit
code, by what the file leads to and whether failures are to be drawn in full. -/
inductive Tells (colour : Bool) :
    Bool → Except Failure Value → String → List String → Nat → Prop
  | value (pretty : Bool) (v : Value) : Tells colour pretty (.ok v) (v.text ++ "\n") [] 0
  | malformed (path src : String) (errors : List SyntaxError) (err : List String)
      (h : Streams (.malformed path src errors) err) :
      Tells colour false (.error (.malformed path src errors)) "" err 65
  | runtime (path src : String) (error : RuntimeError) (err : List String)
      (h : Streams (.runtime path src error) err) :
      Tells colour false (.error (.runtime path src error)) "" err 70
  | malformedInFull (path src : String) (errors : List SyntaxError) :
      Tells colour true (.error (.malformed path src errors)) ""
        [(Failure.malformed path src errors).paint.render colour] 65
  | runtimeInFull (path src : String) (error : RuntimeError) :
      Tells colour true (.error (.runtime path src error)) ""
        [(Failure.runtime path src error).paint.render colour] 70
  -- Nothing was reported while the file was read, so this is drawn in full in any case.
  | unreadable (pretty : Bool) (cause : IoCause) :
      Tells colour pretty (.error (.unreadable cause)) ""
        [(Failure.unreadable cause).paint.render colour] 74

theorem streams_reports (f : Failure) (h : f.reports ≠ []) :
    Streams f (f.reports.map (·.text ++ "\n")) :=
  ⟨rfl, f.join_reports h⟩

theorem ofEvents_unstreamed (events : List Event) : Notice.ofEvents 0 false events = [] := by
  unfold Notice.ofEvents
  rw [List.filterMap_eq_nil_iff]
  intro event _
  cases event with
  | report r => rfl
  | log l => cases l <;> rfl

/-- What is streamed while a file runs. -/
def streamed (pretty : Bool) (reports : List Report) : List String :=
  if pretty then [] else reports.map (·.text ++ "\n")

theorem texts_streamed (pretty : Bool) (events : List Event) :
    texts (Notice.ofEvents 0 (!pretty) events) =
      streamed pretty (events.filterMap Event.report?) := by
  cases pretty with
  | true =>
    rw [Bool.not_true, ofEvents_unstreamed]
    rfl
  | false => exact texts_ofEvents 0 events

theorem quiet_streamed (pretty : Bool) (events : List Event) :
    Quiet (Notice.ofEvents 0 (!pretty) events) := by
  cases pretty with
  | true =>
    rw [Bool.not_true, ofEvents_unstreamed]
    rfl
  | false => exact quiet_ofEvents events

section

variable (path : String) (content : Except IoCause (List UInt8)) (pretty colour : Bool) (s : Sink)

theorem writes_value (v : Value) (h : runFile path content {} = .ok (.ok v, s))
    (hs : s.emitted = []) :
    Writes 0 (runCommand path pretty 0 colour content) (v.text ++ "\n") [] 0 := by
  have htexts := texts_streamed pretty s.feed
  have hnone : s.feed.filterMap Event.report? = [] := hs
  rw [hnone] at htexts
  unfold runCommand
  rw [h]
  refine ⟨rfl, ?_, fun _ => quiet_streamed pretty s.feed, rfl⟩
  cases pretty <;> exact htexts

theorem writes_failure (f : Failure) (h : runFile path content {} = .ok (.error f, s))
    (hs : s.emitted = f.reports) :
    Writes 0 (runCommand path pretty 0 colour content) ""
      (streamed pretty f.reports ++
        if shownInFull pretty f then [f.paint.render colour] else [])
      (Exit.ofFailure f).code := by
  have htexts := texts_streamed pretty s.feed
  have hreports : s.feed.filterMap Event.report? = f.reports := hs
  rw [hreports] at htexts
  unfold runCommand
  rw [h]
  constructor
  · rfl
  · simp only [if_true]
    rw [texts_append, htexts]
    cases shownInFull pretty f <;> rfl
  · intro _
    apply quiet_append
    · exact quiet_streamed pretty s.feed
    · cases shownInFull pretty f <;> rfl
  · rfl

end

theorem tells_failure (colour pretty : Bool) (f : Failure)
    (hne : ∀ path src errors, f = .malformed path src errors → errors ≠ []) :
    Tells colour pretty (.error f) ""
      (streamed pretty f.reports ++
        if shownInFull pretty f then [f.paint.render colour] else [])
      (Exit.ofFailure f).code := by
  cases f with
  | malformed path src errors =>
    cases pretty with
    | true => exact .malformedInFull path src errors
    | false =>
      apply Tells.malformed path src errors
      have hreports : (Failure.malformed path src errors).reports ≠ [] := by
        simpa [Failure.reports] using hne path src errors rfl
      simpa [shownInFull, streamed] using streams_reports _ hreports
  | runtime path src error =>
    cases pretty with
    | true => exact .runtimeInFull path src error
    | false =>
      apply Tells.runtime path src error
      have hreports : (Failure.runtime path src error).reports ≠ [] := by simp [Failure.reports]
      simpa [shownInFull, streamed] using streams_reports _ hreports
  | unreadable cause => cases pretty <;> exact .unreadable _ cause

/-- **A failure is told once.** A file that is run without a log leads to a value or to a failure.
The value goes to standard output, and the failure to standard error: report by report, which
together are its plain text, or drawn in full, but never both. Standard output and the exit code do
not depend on how failures are to be shown. -/
theorem run_tells_failure_once (path : String) (colour : Bool)
    (read : String → Except IoCause (List UInt8)) (input : List UInt8) :
    ∃ answer s out code, runFile path (read path) {} = .ok (answer, s) ∧
      (∀ cause, answer = .error (.unreadable cause) ↔
        read path >>= Utf8.decode = .error cause) ∧
      ∀ pretty, ∃ err, Tells colour pretty answer out err code ∧
        Writes 0 ((Command.run path pretty).execute 0 colour read input) out err code := by
  obtain ⟨answer, s, hfile, hemitted, hne, hcause⟩ := runFile_passes_on path (read path)
  cases answer with
  | ok v =>
    refine ⟨_, s, v.text ++ "\n", 0, hfile, hcause, ?_⟩
    intro pretty
    exact ⟨_, .value pretty v, writes_value path _ pretty colour s v hfile hemitted⟩
  | error f =>
    refine ⟨_, s, "", (Exit.ofFailure f).code, hfile, hcause, ?_⟩
    intro pretty
    refine ⟨_, tells_failure colour pretty f ?_, ?_⟩
    · rintro p src errors rfl
      exact hne p src errors rfl
    · exact writes_failure path _ pretty colour s f hfile hemitted

end Command

end Lox
