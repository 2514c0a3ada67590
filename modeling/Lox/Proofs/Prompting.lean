import Lox.Command
import Lox.Proofs.Bookkeeping
import Lox.Proofs.Decoding

/-!
# Sessions at the prompt

One sink serves all lines of a session. It is cleared behind every line, so each line is answered as
if it were the only one: a session is the answers of its lines, one behind the other. `Conversation`
says what is written for which lines, and a session writes just that.
-/

namespace Lox.Command

/-! ## Lines -/

/-- The input is cut behind each line feed. Only the last chunk may lack one. -/
inductive Cut : List UInt8 → List (List UInt8) → Prop
  | nil : Cut [] []
  | last (body : List UInt8) (hne : body ≠ []) (h : 10 ∉ body) : Cut body [body]
  | line (body rest : List UInt8) (cs : List (List UInt8)) (h : 10 ∉ body) (hrest : Cut rest cs) :
      Cut (body ++ 10 :: rest) ((body ++ [10]) :: cs)

theorem chunks_cut (input : List UInt8) : Cut input (chunks input) := by
  induction input with
  | nil => exact .nil
  | cons b bs ih =>
    unfold chunks
    by_cases hb : b = 10
    · rw [if_pos hb, hb]
      exact .line [] bs _ (by simp) ih
    · rw [if_neg hb]
      generalize chunks bs = cs at ih ⊢
      cases ih with
      | nil => exact .last [b] (by simp) (by simpa using Ne.symm hb)
      | last body hne h => exact .last (b :: bs) (by simp) (by simp [h, Ne.symm hb])
      | line body rest cs h hrest => exact .line (b :: body) rest cs (by simp [h, Ne.symm hb]) hrest

/-- The second text is the first without this character at its end, if it stands there. -/
def Loses (c : Char) (cs ds : List Char) : Prop := cs = ds ++ [c] ∨ cs = ds ∧ ¬ [c] <:+ cs

/-- The chunk is a text, and the line is the text without its line feed and then without a carriage
return. -/
def IsLine (chunk : List UInt8) (line : String) : Prop :=
  ∃ text body, chunk = Utf8.encode text ∧ Loses '\n' text.toList body ∧ Loses '\r' body line.toList

theorem withoutLast_loses (c : Char) (cs : List Char) : Loses c cs (withoutLast c cs) := by
  unfold withoutLast
  split_ifs with h
  · left
    exact (List.dropLast_append_getLast? c h).symm
  · right
    refine ⟨rfl, ?_⟩
    rintro ⟨ds, rfl⟩
    simp at h

theorem isLine_trimLine (text : String) : IsLine (Utf8.encode text) (trimLine text) := by
  refine ⟨text, _, rfl, withoutLast_loses _ _, ?_⟩
  unfold trimLine
  rw [String.toList_ofList]
  exact withoutLast_loses _ _

/-! ## Answers -/

/-- What is printed for a line by itself, and which reports there are: the line is run, or parsed,
on a sink of its own. -/
inductive Says : Mode → String → String → List Report → Prop
  | value (line : String) (v : Value) (s : Sink) (h : Lox.run line {} = .ok (.value v, s)) :
      Says .evaluate line (v.text ++ "\n") s.reports
  | failure (line : String) (outcome : Outcome) (s : Sink) (hv : ∀ v, outcome ≠ .value v)
      (h : Lox.run line {} = .ok (outcome, s)) : Says .evaluate line "" s.reports
  | tokens (line : String) :
      Says .tokens line (String.join ((scan line).map fun i => itemText i ++ "\n")) []
  | tree (postfixed : Bool) (line : String) (e : Expr) (s : Sink)
      (h : parse line {} = .ok (some e, s)) :
      Says (.tree postfixed) line ((if postfixed then e.postfixForm else e.display) ++ "\n")
        s.reports
  | noTree (postfixed : Bool) (line : String) (s : Sink) (h : parse line {} = .ok (none, s)) :
      Says (.tree postfixed) line "" s.reports

/-- What a session writes to standard output for some chunks, what it writes to standard error, and
its exit code. -/
inductive Conversation (m : Mode) : List (List UInt8) → String → List String → Nat → Prop
  | over : Conversation m [] "> \n" [] 0
  | garbled (c : List UInt8) (later : List (List UInt8)) (h : ∀ text, c ≠ Utf8.encode text) :
      Conversation m (c :: later) "> " ["stream did not contain valid UTF-8\n"] 74
  | exit (c : List UInt8) (later : List (List UInt8)) (h : IsLine c ".exit") :
      Conversation m (c :: later) "> " [] 0
  | empty (c : List UInt8) (later : List (List UInt8)) (out : String) (err : List String)
      (code : Nat) (h : IsLine c "") (hlater : Conversation m later out err code) :
      Conversation m (c :: later) ("> " ++ out) err code
  | line (c : List UInt8) (later : List (List UInt8)) (line answer out : String)
      (reports : List Report) (err : List String) (code : Nat) (h : IsLine c line)
      (hne : line ≠ "") (hgo : line ≠ ".exit") (hspoken : Says m line answer reports)
      (hlater : Conversation m later out err code) :
      Conversation m (c :: later) ("> " ++ answer ++ out)
        (reports.map (·.text ++ "\n") ++ err) code

theorem emitted_of_grows (s : Sink) (new : List Report) (h : ({} : Sink).Grows new s) :
    s.emitted = s.reports := by
  rw [h.emitted, h.reports]
  rfl

theorem print_says (m : Mode) (line : String) :
    ∃ out s, m.print line {} = .ok (out, s) ∧ Says m line out s.reports ∧
      s.emitted = s.reports := by
  unfold Mode.print
  cases m with
  | evaluate =>
    obtain ⟨outcome, s, new, hrun, hgrows⟩ := run_grows line {}
    have hemitted := emitted_of_grows s new hgrows
    simp only [hrun]
    cases outcome with
    | value v => exact ⟨_, s, rfl, .value line v s hrun, hemitted⟩
    | syntaxFailure => exact ⟨_, s, rfl, .failure line _ s (by simp) hrun, hemitted⟩
    | runtimeFailure => exact ⟨_, s, rfl, .failure line _ s (by simp) hrun, hemitted⟩
  | tokens => exact ⟨_, {}, rfl, .tokens line, rfl⟩
  | tree postfixed =>
    obtain ⟨result, hresult, -⟩ := parses_operable line
    obtain ⟨s, hparse, hgrows⟩ := parse_grows line {} result hresult
    have hemitted := emitted_of_grows s _ hgrows
    generalize (if s.hadError then none else result.toOption) = tree at hparse
    simp only [hparse]
    cases tree with
    | some e => exact ⟨_, s, rfl, .tree postfixed line e s hparse, hemitted⟩
    | none => exact ⟨_, s, rfl, .noTree postfixed line s hparse, hemitted⟩

/-! ## Notices -/

/-- What is written besides the log. -/
def texts (notices : List Notice) : List String :=
  notices.filterMap fun
    | .text s => some s
    | .log _ | .elapsed => none

theorem texts_append (a b : List Notice) : texts (a ++ b) = texts a ++ texts b :=
  List.filterMap_append

theorem texts_ofEvents (verbosity : Nat) (events : List Event) :
    texts (Notice.ofEvents verbosity true events) =
      (events.filterMap Event.report?).map (·.text ++ "\n") := by
  unfold texts Notice.ofEvents
  rw [List.filterMap_filterMap, List.map_filterMap]
  congr 1
  funext event
  cases event with
  | report r => rfl
  | log l =>
    by_cases hl : l.level.verbosity ≤ verbosity <;> simp [Notice.ofEvent?, hl, Event.report?]

/-- Without verbosity nothing is logged. -/
def Quiet (notices : List Notice) : Prop := notices = (texts notices).map .text

theorem quiet_append (a b : List Notice) (ha : Quiet a) (hb : Quiet b) : Quiet (a ++ b) := by
  unfold Quiet at *
  rw [texts_append, List.map_append, ← ha, ← hb]

theorem quiet_ofEvents (events : List Event) : Quiet (Notice.ofEvents 0 true events) := by
  unfold Quiet
  rw [texts_ofEvents]
  unfold Notice.ofEvents
  rw [List.map_map, List.map_filterMap]
  congr 1
  funext event
  cases event with
  | report r => rfl
  | log l => cases l <;> rfl

/-! ## Sessions -/

/-- The transcript writes this to the two outputs, the log aside, and ends with this code. -/
structure Writes (verbosity : Nat) (t : Transcript) (out : String) (err : List String)
    (code : Nat) : Prop where
  out : t.out = out
  err : texts t.err = err
  quiet : verbosity = 0 → Quiet t.err
  code : t.exit.code = code

theorem respond_fresh (m : Mode) (verbosity : Nat) (line : String) :
    ∃ out reports err, m.respond verbosity line {} = ({ out, err }, {}) ∧
      Says m line out reports ∧ texts err = reports.map (·.text ++ "\n") ∧
      (verbosity = 0 → Quiet err) := by
  obtain ⟨out, s, hprint, hspoken, hemitted⟩ := print_says m line
  refine ⟨out, s.reports, Notice.ofEvents verbosity true s.feed, ?_, hspoken, ?_, ?_⟩
  · unfold Mode.respond
    rw [hprint]
    rfl
  · rw [texts_ofEvents, ← hemitted]
    rfl
  · rintro rfl
    exact quiet_ofEvents s.feed

theorem answer_cases (m : Mode) (verbosity : Nat) (c : List UInt8) :
    (∀ text, c ≠ Utf8.encode text) ∧ m.answer verbosity c {} =
        ({ err := [.text "stream did not contain valid UTF-8\n"], exit := some .ioError }, {}) ∨
    IsLine c ".exit" ∧ m.answer verbosity c {} = ({ exit := some .success }, {}) ∨
    IsLine c "" ∧ m.answer verbosity c {} = ({}, {}) ∨
    ∃ line, IsLine c line ∧ line ≠ "" ∧ line ≠ ".exit" ∧
      m.answer verbosity c {} = m.respond verbosity line {} := by
  cases hdecode : Utf8.decode c with
  | error cause =>
    left
    constructor
    · intro text hc
      rw [← Utf8.decode_eq_ok_iff, hdecode] at hc
      cases hc
    · simp [Mode.answer, hdecode]
  | ok text =>
    right
    have hline := isLine_trimLine text
    rw [← (Utf8.decode_eq_ok_iff c text).mp hdecode] at hline
    by_cases hempty : trimLine text = ""
    · rw [hempty] at hline
      exact .inr (.inl ⟨hline, by simp [Mode.answer, hdecode, hempty]⟩)
    · by_cases hexit : trimLine text = ".exit"
      · rw [hexit] at hline
        exact .inl ⟨hline, by simp [Mode.answer, hdecode, hexit]⟩
      · refine .inr (.inr ⟨trimLine text, hline, hempty, hexit, ?_⟩)
        simp [Mode.answer, hdecode, hempty, hexit]

theorem writes_cons (m : Mode) (verbosity : Nat) (c : List UInt8) (cs : List (List UInt8))
    (answer out : String) (notices : List Notice) (err : List String) (code : Nat)
    (h : m.answer verbosity c {} = ({ out := answer, err := notices }, {}))
    (hquiet : verbosity = 0 → Quiet notices)
    (hlater : Writes verbosity (m.proceed verbosity {} cs) out err code) :
    Writes verbosity (m.proceed verbosity {} (c :: cs)) ("> " ++ answer ++ out)
      (texts notices ++ err) code := by
  rw [Mode.proceed, h]
  constructor
  · simp only [hlater.out, prompt]
  · rw [texts_append, hlater.err]
  · intro hzero
    exact quiet_append _ _ (hquiet hzero) (hlater.quiet hzero)
  · exact hlater.code

theorem proceed_conversation (m : Mode) (verbosity : Nat) (cs : List (List UInt8)) :
    ∃ out err code, Conversation m cs out err code ∧
      Writes verbosity (m.proceed verbosity {} cs) out err code := by
  induction cs with
  | nil => exact ⟨_, _, _, .over, rfl, rfl, fun _ => rfl, rfl⟩
  | cons c cs ih =>
    obtain ⟨out, err, code, hlater, hwrites⟩ := ih
    rcases answer_cases m verbosity c with ⟨hgarbled, h⟩ | ⟨hexit, h⟩ | ⟨hempty, h⟩ |
      ⟨line, hline, hne, hgo, h⟩
    · refine ⟨_, _, _, .garbled c cs hgarbled, ?_⟩
      rw [Mode.proceed, h]
      exact ⟨rfl, rfl, fun _ => rfl, rfl⟩
    · refine ⟨_, _, _, .exit c cs hexit, ?_⟩
      rw [Mode.proceed, h]
      exact ⟨rfl, rfl, fun _ => rfl, rfl⟩
    · exact ⟨_, _, _, .empty c cs out err code hempty hlater,
        writes_cons m verbosity c cs "" out [] err code h (fun _ => rfl) hwrites⟩
    · obtain ⟨answer, reports, notices, hrespond, hspoken, htexts, hquiet⟩ :=
        respond_fresh m verbosity line
      rw [hrespond] at h
      have hcons := writes_cons m verbosity c cs answer out notices err code h hquiet hwrites
      rw [htexts] at hcons
      refine ⟨_, _, _, ?_, hcons⟩
      exact .line c cs line answer out reports err code hline hne hgo hspoken hlater

theorem session_conversation (m : Mode) (verbosity : Nat) (input : List UInt8) :
    ∃ out err code, Conversation m (chunks input) out err code ∧
      Writes verbosity (m.session verbosity input) (m.banner ++ out) err code := by
  obtain ⟨out, err, code, hconversation, hwrites⟩ :=
    proceed_conversation m verbosity (chunks input)
  refine ⟨out, err, code, hconversation, ?_⟩
  unfold Mode.session
  exact ⟨congrArg (m.banner ++ ·) hwrites.out, hwrites.err, hwrites.quiet, hwrites.code⟩

theorem run_of_tree (line : String) (e : Expr) (s : Sink) (h : parse line {} = .ok (some e, s)) :
    ∃ outcome s', Lox.run line {} = .ok (outcome, s') ∧ outcome ≠ .syntaxFailure := by
  obtain ⟨result, hresult, -⟩ := parses_operable line
  obtain ⟨parsed, -, hcases⟩ := run_cases line {} result hresult
  rcases hcases with ⟨-, hparse, -⟩ | ⟨-, -, e', -, -, ⟨v, -, hrun⟩ | ⟨err, -, hrun⟩⟩
  · rw [h] at hparse
    cases hparse
  · exact ⟨_, _, hrun, by simp⟩
  · exact ⟨_, _, hrun, by simp⟩

theorem says_tree_iff (postfixed : Bool) (line out : String) (reports : List Report)
    (h : Says (.tree postfixed) line out reports) :
    out ≠ "" ↔ ∃ outcome s, Lox.run line {} = .ok (outcome, s) ∧ outcome ≠ .syntaxFailure := by
  cases h with
  | tree _ _ e s hparse =>
    apply iff_of_true
    · simp
    · exact run_of_tree line e s hparse
  | noTree _ _ s hparse =>
    rw [run_of_unparsed line {} s hparse]
    simp

/-- **A session is its lines.** A session that evaluates, and one that prints trees, writes for each
line what a sink of its own would have led to, one line behind the other, and ends where its input
says. The same lines are evaluated by the one and printed by the other. -/
theorem session_is_its_lines (verbosity : Nat) (colour : Bool)
    (read : String → Except IoCause (List UInt8)) (input : List UInt8) :
    ∃ cs, Cut input cs ∧
      (∃ out err code, Conversation .evaluate cs out err code ∧
        Writes verbosity (Command.repl.execute verbosity colour read input)
          ("Type .exit or press Ctrl-D to quit\n\n" ++ out) err code) ∧
      (∀ postfixed, ∃ out err code, Conversation (.tree postfixed) cs out err code ∧
        Writes verbosity ((Command.rppl postfixed).execute verbosity colour read input)
          out err code) ∧
      ∀ postfixed line out reports, Says (.tree postfixed) line out reports →
        (out ≠ "" ↔
          ∃ outcome s, Lox.run line {} = .ok (outcome, s) ∧ outcome ≠ .syntaxFailure) := by
  refine ⟨chunks input, chunks_cut input, ?_, ?_, says_tree_iff⟩
  · obtain ⟨out, err, code, h, hwrites⟩ := session_conversation .evaluate verbosity input
    exact ⟨out, err, code, h, hwrites⟩
  · intro postfixed
    obtain ⟨out, err, code, h, hwrites⟩ := session_conversation (.tree postfixed) verbosity input
    rw [show (Mode.tree postfixed).banner = "" from rfl, String.empty_append] at hwrites
    exact ⟨out, err, code, h, hwrites⟩

end Lox.Command
