import Lox.Proofs.Reporting

/-!
# A sink keeps its books

A sink is used for many texts, and its feed is emptied by someone else. Whatever is done to the two,
the flags say what the reports hold, and every report that was ever passed on is still there or has
been taken out once, in order.
-/

namespace Lox

/-! ## Flags and counts -/

namespace Report

@[simp]
theorem syntaxError?_eq_some_iff (r : Report) (e : SyntaxError) :
    r.syntaxError? = some e ↔ r = .malformed e := by
  cases r <;> simp [syntaxError?]

@[simp]
theorem runtimeError?_eq_some_iff (r : Report) (e : RuntimeError) :
    r.runtimeError? = some e ↔ r = .runtime e := by
  cases r <;> simp [runtimeError?]

theorem isSome_runtimeError? (r : Report) :
    r.runtimeError?.isSome = !r.syntaxError?.isSome := by
  cases r <;> rfl

section

-- The selector takes apart exactly the reports that `make` has made.
variable {α : Type} (select : Report → Option α) (make : α → Report)
  (h : ∀ r a, select r = some a ↔ r = make a)

include h

theorem any_selected (rs : List Report) :
    rs.any (fun r => (select r).isSome) = true ↔ ∃ a, make a ∈ rs := by
  simp only [List.any_eq_true, Option.isSome_iff_exists, h]
  constructor
  · rintro ⟨r, hr, a, rfl⟩
    exact ⟨a, hr⟩
  · rintro ⟨a, ha⟩
    exact ⟨_, ha, a, rfl⟩

theorem map_selected (rs : List Report) :
    (rs.filterMap select).map make = rs.filter (fun r => (select r).isSome) := by
  rw [List.map_filterMap, ← List.filterMap_eq_filter]
  congr 1
  funext r
  cases hr : select r with
  | none => simp [Option.guard, hr]
  | some a =>
    obtain rfl := (h r a).mp hr
    simp [Option.guard, hr]

end

end Report

namespace Sink

/-- The flags say which reports the sink holds. -/
structure Sound (s : Sink) : Prop where
  hadError : s.hadError = s.reports.any (·.syntaxError?.isSome)
  hadRuntimeError : s.hadRuntimeError = s.reports.any (·.runtimeError?.isSome)

theorem sound_of_grows (s s' : Sink) (new : List Report) (h : s.Grows new s') (hs : s.Sound) :
    s'.Sound := by
  constructor
  · rw [h.hadError, h.reports, List.any_append, hs.hadError]
  · rw [h.hadRuntimeError, h.reports, List.any_append, hs.hadRuntimeError]

theorem mem_syntaxErrors (s : Sink) (e : SyntaxError) :
    e ∈ s.syntaxErrors ↔ .malformed e ∈ s.reports := by
  simp [syntaxErrors]

theorem hadError_iff (s : Sink) (hs : s.Sound) :
    s.hadError = true ↔ s.syntaxErrors ≠ [] := by
  rw [hs.hadError, Report.any_selected _ _ Report.syntaxError?_eq_some_iff, ne_eq,
    List.eq_nil_iff_forall_not_mem]
  simp [mem_syntaxErrors]

/-! ## What each operation adds -/

theorem grows_refl (s : Sink) : s.Grows [] s := by
  constructor <;> simp

end Sink

theorem run_grows (src : String) (s : Sink) :
    ∃ outcome s' new, run src s = .ok (outcome, s') ∧ s.Grows new s' := by
  obtain ⟨result, hresult, -⟩ := parses_operable src
  obtain ⟨parsed, hgrows, hcases⟩ := run_cases src s result hresult
  rcases hcases with ⟨-, -, hrun⟩ | ⟨-, -, e, -, -, ⟨v, -, hrun⟩ | ⟨err, -, hrun⟩⟩
  · exact ⟨_, _, _, hrun, hgrows⟩
  · exact ⟨_, _, _, hrun, Sink.grows_trans _ _ _ _ _ hgrows (Sink.grows_log parsed _)⟩
  · exact ⟨_, _, _, hrun, Sink.grows_trans _ _ _ _ _ hgrows (Sink.grows_log_post parsed _ _)⟩

/-! ## Files -/

section

variable (path src : String) (s s' : Sink)

theorem runText_of_value (v : Value) (h : run src s = .ok (.value v, s')) :
    runText path src s = .ok (.ok v, s') := by
  unfold runText
  rw [h]
  rfl

theorem runText_of_syntaxFailure (h : run src s = .ok (.syntaxFailure, s')) :
    runText path src s = .ok (.error (.malformed path src s'.syntaxErrors), s') := by
  unfold runText
  rw [h]
  rfl

theorem runText_of_runtimeFailure (err : RuntimeError)
    (h : run src s = .ok (.runtimeFailure, s')) (hlast : s'.runtimeErrors.getLast? = some err) :
    runText path src s = .ok (.error (.runtime path src err), s') := by
  unfold runText
  rw [h]
  simp only [bind, Except.bind, hlast]
  rfl

end

theorem last_of_grows (s s' : Sink) (err : RuntimeError) (h : s.Grows [.runtime err] s') :
    s'.runtimeErrors.getLast? = some err := by
  unfold Sink.runtimeErrors
  rw [h.reports, List.filterMap_append]
  exact List.getLast?_concat

theorem runText_grows (path src : String) (s : Sink) :
    ∃ answer s' new, runText path src s = .ok (answer, s') ∧ s.Grows new s' := by
  obtain ⟨result, hresult, -⟩ := parses_operable src
  obtain ⟨parsed, hgrows, hcases⟩ := run_cases src s result hresult
  rcases hcases with ⟨-, -, hrun⟩ | ⟨-, -, e, -, -, ⟨v, -, hrun⟩ | ⟨err, -, hrun⟩⟩
  · exact ⟨_, _, _, runText_of_syntaxFailure path src s _ hrun, hgrows⟩
  · have hlog := Sink.grows_trans _ _ _ _ _ hgrows (Sink.grows_log parsed (.evaluated v))
    exact ⟨_, _, _, runText_of_value path src s _ v hrun, hlog⟩
  · have hpost := Sink.grows_trans _ _ _ _ _ hgrows
      (Sink.grows_log_post parsed (.failed err) (.runtime err))
    have hlast := last_of_grows parsed _ err (Sink.grows_log_post parsed (.failed err) _)
    exact ⟨_, _, _, runText_of_runtimeFailure path src s _ err hrun hlast, hpost⟩

theorem runFile_grows (path : String) (content : Except IoCause (List UInt8)) (s : Sink) :
    ∃ answer s' new, runFile path content s = .ok (answer, s') ∧ s.Grows new s' := by
  unfold runFile
  split
  · exact ⟨_, s, [], rfl, Sink.grows_refl s⟩
  · rename_i src _
    obtain ⟨answer, s', new, htext, hgrows⟩ :=
      runText_grows path src (s.log (.runningFile path src.utf8ByteSize))
    exact ⟨answer, s', _, htext, Sink.grows_trans _ _ _ _ _ (Sink.grows_log s _) hgrows⟩

/-! ## Sessions -/

/-- What can be done to a sink, and to its feed. -/
inductive Action where
  | errorAtLine (line : Nat) (message : String)
  | errorAtToken (t : Token) (message : String)
  | lexicalError (e : LexicalError)
  | runtimeError (e : RuntimeError)
  | scan (src : String)
  | parse (src : String)
  | run (src : String)
  | runFile (path : String) (content : Except IoCause (List UInt8))
  | take
  | clear
  | takeFeed

/-- A sink, all reports that have been removed from it, and all that its feed has given away. -/
structure History where
  sink : Sink := {}
  removed : List Report := []
  given : List Report := []

namespace History

def perform (h : History) : Action → Except Fault History
  | .errorAtLine line message =>
    .ok { h with sink := h.sink.malformed (.atLine line message) }
  | .errorAtToken t message => .ok { h with sink := h.sink.malformed (.atToken t message) }
  | .lexicalError e => .ok { h with sink := h.sink.malformed (.ofLexical e) }
  | .runtimeError e => .ok { h with sink := h.sink.runtime e }
  | .scan src => .ok { h with sink := (scanInto src h.sink).2 }
  | .parse src => do
    let (_, sink) ← Lox.parse src h.sink
    return { h with sink }
  | .run src => do
    let (_, sink) ← Lox.run src h.sink
    return { h with sink }
  | .runFile path content => do
    let (_, sink) ← Lox.runFile path content h.sink
    return { h with sink }
  | .take =>
    let (reports, sink) := h.sink.take
    .ok { h with sink, removed := h.removed ++ reports }
  | .clear => .ok { h with sink := h.sink.clear, removed := h.removed ++ h.sink.reports }
  | .takeFeed =>
    let (events, sink) := h.sink.takeFeed
    .ok { h with sink, given := h.given ++ events.filterMap Event.report? }

/-- All that an action can change. -/
inductive Step (h : History) : History → Prop
  | grow (new : List Report) (sink : Sink) (hgrows : h.sink.Grows new sink) :
      Step h { h with sink }
  | remove : Step h { h with sink := h.sink.clear, removed := h.removed ++ h.sink.reports }
  | give : Step h { h with sink := h.sink.takeFeed.2, given := h.given ++ h.sink.emitted }

theorem perform_steps (h : History) (a : Action) : ∃ h', h.perform a = .ok h' ∧ Step h h' := by
  cases a with
  | errorAtLine line message => exact ⟨_, rfl, .grow _ _ (h.sink.grows_post _)⟩
  | errorAtToken t message => exact ⟨_, rfl, .grow _ _ (h.sink.grows_post _)⟩
  | lexicalError e => exact ⟨_, rfl, .grow _ _ (h.sink.grows_post _)⟩
  | runtimeError e => exact ⟨_, rfl, .grow _ _ (h.sink.grows_post _)⟩
  | scan src => exact ⟨_, rfl, .grow _ _ (Sink.grows_collect (Lox.scan src) h.sink)⟩
  | parse src =>
    obtain ⟨result, hresult, -⟩ := parses_operable src
    obtain ⟨s', hparse, hgrows⟩ := parse_grows src h.sink result hresult
    refine ⟨{ h with sink := s' }, ?_, .grow _ s' hgrows⟩
    simp only [perform, hparse]
    rfl
  | run src =>
    obtain ⟨outcome, s', new, hrun, hgrows⟩ := run_grows src h.sink
    refine ⟨{ h with sink := s' }, ?_, .grow new s' hgrows⟩
    simp only [perform, hrun]
    rfl
  | runFile path content =>
    obtain ⟨answer, s', new, hrun, hgrows⟩ := runFile_grows path content h.sink
    refine ⟨{ h with sink := s' }, ?_, .grow new s' hgrows⟩
    simp only [perform, hrun]
    rfl
  | take => exact ⟨_, rfl, .remove⟩
  | clear => exact ⟨_, rfl, .remove⟩
  | takeFeed => exact ⟨_, rfl, .give⟩

/-- The books are in order: the flags are sound, and what the feed was given is what the sink was
given. -/
structure Balanced (h : History) : Prop where
  sound : h.sink.Sound
  account : h.given ++ h.sink.emitted = h.removed ++ h.sink.reports

theorem balanced_fresh : Balanced {} := ⟨⟨rfl, rfl⟩, rfl⟩

theorem step_balanced (h h' : History) (hstep : Step h h') (hb : h.Balanced) : h'.Balanced := by
  cases hstep with
  | grow new sink hgrows =>
    constructor
    · exact Sink.sound_of_grows _ _ new hgrows hb.sound
    · rw [hgrows.emitted, hgrows.reports, ← List.append_assoc, hb.account, List.append_assoc]
  | remove =>
    constructor
    · exact ⟨rfl, rfl⟩
    · simpa [Sink.clear, Sink.take, Sink.emitted] using hb.account
  | give =>
    constructor
    · exact ⟨hb.sound.hadError, hb.sound.hadRuntimeError⟩
    · simpa [Sink.takeFeed, Sink.emitted] using hb.account

theorem session_balanced (actions : List Action) (h : History) (hb : h.Balanced) :
    ∃ h', actions.foldlM perform h = .ok h' ∧ h'.Balanced := by
  induction actions generalizing h with
  | nil => exact ⟨h, rfl, hb⟩
  | cons a actions ih =>
    obtain ⟨next, hperform, hstep⟩ := perform_steps h a
    obtain ⟨h', hrest, hb'⟩ := ih next (step_balanced h next hstep hb)
    refine ⟨h', ?_, hb'⟩
    rw [List.foldlM_cons, hperform]
    exact hrest

/-- What the owner of a sink and the reader of its feed can rely on. -/
structure Consistent (h : History) : Prop where
  flag : h.sink.hadError = true ↔ ∃ e, .malformed e ∈ h.sink.reports
  count : h.sink.hadError = true ↔ 0 < h.sink.errorCount
  runtimeFlag : h.sink.hadRuntimeError = true ↔ ∃ e, .runtime e ∈ h.sink.reports
  syntaxOrder : (h.sink.syntaxErrors.map Report.malformed).Sublist h.sink.reports
  runtimeOrder : (h.sink.runtimeErrors.map Report.runtime).Sublist h.sink.reports
  partition : (h.sink.syntaxErrors.map Report.malformed ++
    h.sink.runtimeErrors.map Report.runtime).Perm h.sink.reports
  account : h.given ++ h.sink.emitted = h.removed ++ h.sink.reports

theorem consistent_of_balanced (h : History) (hb : h.Balanced) : h.Consistent where
  flag := by rw [hb.sound.hadError, Report.any_selected _ _ Report.syntaxError?_eq_some_iff]
  count := by
    rw [h.sink.hadError_iff hb.sound, ← List.length_pos_iff]
    rfl
  runtimeFlag := by
    rw [hb.sound.hadRuntimeError, Report.any_selected _ _ Report.runtimeError?_eq_some_iff]
  syntaxOrder := by
    rw [Sink.syntaxErrors, Report.map_selected _ _ Report.syntaxError?_eq_some_iff]
    exact List.filter_sublist
  runtimeOrder := by
    rw [Sink.runtimeErrors, Report.map_selected _ _ Report.runtimeError?_eq_some_iff]
    exact List.filter_sublist
  partition := by
    rw [Sink.syntaxErrors, Sink.runtimeErrors,
      Report.map_selected _ _ Report.syntaxError?_eq_some_iff,
      Report.map_selected _ _ Report.runtimeError?_eq_some_iff]
    simp only [Report.isSome_runtimeError?]
    exact List.filter_append_perm _ _
  account := hb.account

/-- **A sink keeps its books.** No action fails. After any number of them the flags, the counts and
the two kinds of errors say what the reports are, and the feed has been given exactly the reports
that were removed from the sink and then those that are still in it. -/
theorem session_consistent (actions : List Action) :
    ∃ h, actions.foldlM perform {} = .ok h ∧ h.Consistent := by
  obtain ⟨h, hsession, hb⟩ := session_balanced actions {} balanced_fresh
  exact ⟨h, hsession, consistent_of_balanced h hb⟩

end History

end Lox
