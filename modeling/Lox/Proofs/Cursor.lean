import Lox.Proofs.Bookkeeping
import Lox.Proofs.Viable

/-!
# A parser is a cursor

Whatever is asked of a parser, it reads on from where it stands and stops in front of an end. So an
operation cannot tell what is behind the first end of its list, and it misses an end only if it has
read all tokens in front of it. Both are said at once by `Confined`, for one operation, and carried
from there to whole sessions.
-/

namespace Lox

namespace Parse

/-! ## Up to an end -/

section

variable (ts : List Token) (eof : Token) (heof : eof.kind = .eof)

include heof

theorem run_eof (s : State) :
    ∃ v left, (∀ more, run s (ts ++ eof :: more) = (some v, left ++ eof :: more)) ∧
      run s ts = (if left = [] then none else some v, left) := by
  induction ts generalizing s with
  | nil =>
    obtain ⟨v, hv⟩ := step_eof s eof heof
    refine ⟨v, [], fun more => ?_, rfl⟩
    simp [run, hv]
  | cons t ts ih =>
    cases hstep : step s t with
    | halt v =>
      refine ⟨v, t :: ts, fun more => ?_, ?_⟩
      · rw [List.cons_append, run, hstep]
      · rw [run, hstep, if_neg (List.cons_ne_nil t ts)]
    | next s' =>
      obtain ⟨v, left, hended, hbare⟩ := ih s'
      refine ⟨v, left, fun more => ?_, ?_⟩
      · rw [List.cons_append, run_next s s' t _ hstep, hended]
      · rw [run_next s s' t _ hstep, hbare]

theorem boundary_eof (prev : Token) (more : List Token) :
    boundary prev (ts ++ eof :: more) = boundary prev ts ++ eof :: more := by
  induction ts generalizing prev with
  | nil => simp [boundary, Token.isEof, heof]
  | cons t ts ih =>
    rw [List.cons_append, boundary, boundary]
    split
    · rfl
    · exact ih t

end

theorem boundary_suffix (prev : Token) (ts : List Token) : boundary prev ts <:+ ts := by
  induction ts generalizing prev with
  | nil => exact List.suffix_rfl
  | cons t ts ih =>
    rw [boundary]
    split
    · exact List.suffix_rfl
    · exact (ih t).trans (List.suffix_cons t ts)

/-- What is left behind the tokens that recovery skips. -/
def skip : List Token → List Token
  | [] => []
  | t :: ts => if t.isEof then t :: ts else boundary t ts

theorem skip_eof (ts more : List Token) (eof : Token) (heof : eof.kind = .eof) :
    skip (ts ++ eof :: more) = skip ts ++ eof :: more := by
  cases ts with
  | nil => simp [skip, Token.isEof, heof]
  | cons t ts =>
    rw [List.cons_append, skip, skip]
    split
    · rfl
    · exact boundary_eof ts eof heof t more

theorem skip_suffix (ts : List Token) : skip ts <:+ ts := by
  cases ts with
  | nil => exact List.suffix_rfl
  | cons t ts =>
    rw [skip]
    split
    · exact List.suffix_rfl
    · exact (boundary_suffix t ts).trans (List.suffix_cons t ts)

end Parse

namespace Parser

open Parse Grammar

/-! ## One operation -/

/-- The operation answers `a` and moves from `i` to `j` if there is an end behind `front`, whatever
is behind that. Without the end it does the same, unless it comes to where the end was. -/
structure Confined {α : Type} (f : Parser → Except Fault α × Parser) (front : List Token)
    (eof : Token) (i : Nat) (a : α) (j : Nat) : Prop where
  forward : i ≤ j
  inside : j ≤ front.length
  ended : ∀ more, f ⟨front ++ eof :: more, i⟩ = (.ok a, ⟨front ++ eof :: more, j⟩)
  bare : j < front.length → f ⟨front, i⟩ = (.ok a, ⟨front, j⟩)
  missed : j = front.length → f ⟨front, i⟩ = (.error (.outOfTokens front.length), ⟨front, j⟩)

theorem confined_map {α β : Type} (f : Parser → Except Fault α × Parser) (g : α → β)
    (front : List Token) (eof : Token) (i j : Nat) (a : α) (h : Confined f front eof i a j) :
    Confined (fun p => ((f p).1.map g, (f p).2)) front eof i (g a) j where
  forward := h.forward
  inside := h.inside
  ended more := by rw [h.ended more]; rfl
  bare hj := by rw [h.bare hj]; rfl
  missed hj := by rw [h.missed hj]; rfl

theorem confined_of_left {α : Type} (f : Parser → Except Fault α × Parser) (front left : List Token)
    (eof : Token) (i : Nat) (a : α) (hi : i ≤ front.length) (hleft : left <:+ front.drop i)
    (hended : ∀ more, f ⟨front ++ eof :: more, i⟩ =
      (.ok a, moveTo ⟨front ++ eof :: more, i⟩ (left ++ eof :: more)))
    (hbare : left ≠ [] → f ⟨front, i⟩ = (.ok a, moveTo ⟨front, i⟩ left))
    (hmissed : left = [] → f ⟨front, i⟩ = (.error (ranOut ⟨front, i⟩), moveTo ⟨front, i⟩ [])) :
    Confined f front eof i a (front.length - left.length) := by
  have hlength := hleft.length_le
  rw [List.length_drop] at hlength
  constructor
  · omega
  · omega
  · intro more
    rw [hended more]
    simp only [moveTo, List.length_append, List.length_cons, Prod.mk.injEq, mk.injEq, true_and]
    omega
  · intro hj
    apply hbare
    rintro rfl
    exact absurd hj (Nat.lt_irrefl _)
  · intro hj
    obtain rfl : left = [] := List.eq_nil_of_length_eq_zero (by omega)
    exact hmissed rfl

theorem synchronize_eq (p : Parser) :
    p.synchronize = (if (skip p.rest).isEmpty then .error p.ranOut else .ok (),
      p.moveTo (skip p.rest)) := by
  unfold synchronize
  cases p.rest <;> rfl

theorem expression_of_halt (v : Verdict) (t : Token) (hv : v ≠ .noLiteral) :
    ∃ result, ∀ (p : Parser) (later : List Token),
      Parse.run (.due []) p.rest = (some v, t :: later) →
        p.expression = (.ok result, p.moveTo (t :: later)) := by
  cases v with
  | tree e =>
    refine ⟨.ok e, fun p later h => ?_⟩
    simp only [expression, h]
  | error cause =>
    refine ⟨.error ⟨cause, t⟩, fun p later h => ?_⟩
    simp only [expression, h]
  | noLiteral => exact absurd rfl hv

section

variable (front : List Token) (eof : Token) (heof : eof.kind = .eof) (i : Nat)
  (hi : i ≤ front.length)

include hi

theorem rest_append (more : List Token) :
    rest ⟨front ++ eof :: more, i⟩ = front.drop i ++ eof :: more :=
  List.drop_append_of_le_length hi

theorem peek_confined : ∃ t, Confined (fun p => (p.peek, p)) front eof i t i := by
  rcases Nat.lt_or_eq_of_le hi with hlt | rfl
  · have hdrop := List.drop_eq_getElem_cons hlt
    refine ⟨front[i], Nat.le_refl i, hi, fun more => ?_, fun _ => ?_, by omega⟩
    · simp only [peek, rest_append front eof i hi, hdrop, List.cons_append]
    · simp only [peek, rest, hdrop]
  · refine ⟨eof, Nat.le_refl _, hi, fun more => ?_, by omega, fun _ => ?_⟩
    · simp only [peek, rest_append front eof _ hi, List.drop_length, List.nil_append]
    · simp only [peek, rest, List.drop_length, ranOut]

include heof

theorem synchronize_confined : ∃ j, Confined synchronize front eof i () j := by
  refine ⟨_, confined_of_left _ front (skip (front.drop i)) eof i () hi (skip_suffix _) ?_ ?_ ?_⟩
  · intro more
    rw [synchronize_eq, rest_append front eof i hi, skip_eof _ _ eof heof]
    simp
  · intro hleft
    rw [synchronize_eq, rest, if_neg (by simpa using hleft)]
  · intro hleft
    rw [synchronize_eq, rest, hleft]
    rfl

theorem expression_confined
    (hliterals : ∀ t ∈ front, t.kind = .number ∨ t.kind = .string → t.literal ≠ none) :
    ∃ result j, Confined expression front eof i result j ∧ ∀ e, result = .ok e → i < j := by
  obtain ⟨v, left, hended, hbare⟩ := run_eof (front.drop i) eof heof (.due [])
  obtain ⟨us, t, later, s, hsplit, hleft, -, hhalt⟩ := reach?_of_run _ _ _ _ (hended [])
  rw [← List.append_assoc, List.append_cancel_right_eq] at hsplit
  have hv : v ≠ .noLiteral := by
    rintro rfl
    obtain ⟨hk, hnone⟩ := step_noLiteral s t hhalt
    have hmem : t ∈ left ++ [eof] := by simp [hleft]
    rcases List.mem_append.mp hmem with hmem | hmem
    · have hfront : t ∈ front := List.mem_of_mem_drop (by rw [hsplit]; simp [hmem])
      exact hliterals t hfront hk hnone
    · simp [List.mem_singleton.mp hmem, heof] at hk
  obtain ⟨result, hresult⟩ := expression_of_halt v t hv
  have hconfined : Confined expression front eof i result (front.length - left.length) := by
    apply confined_of_left expression front left eof i result hi ⟨us, hsplit.symm⟩
    · intro more
      have hmore : left ++ eof :: more = t :: (later ++ more) := by
        rw [← List.cons_append, ← hleft, List.append_assoc, List.singleton_append]
      rw [hmore]
      apply hresult
      rw [rest_append front eof i hi, hended, hmore]
    · intro hne
      obtain ⟨u, left, rfl⟩ := List.exists_cons_of_ne_nil hne
      obtain rfl : u = t := (List.cons.inj hleft).1
      apply hresult
      rw [rest, hbare, if_neg hne]
    · intro hnil
      simp only [expression, rest, hbare, hnil, if_true]
  refine ⟨result, _, hconfined, ?_⟩
  rintro e rfl
  obtain ⟨read, -, -, -, hj, hd, -⟩ :=
    (reads_iff _ _ _ _).mp ((expression_eq_ok_iff _ _ _ _).mp (hconfined.ended []))
  have hpos := List.length_pos_iff.mpr (derives_ne_nil _ _ _ hd)
  omega

end

/-! ## What can be asked -/

inductive Op where
  | expression
  | parse
  | synchronize
  | peek
  | isAtEnd
  deriving DecidableEq, Repr

inductive Answer where
  | expression (result : Except ParseError Expr)
  | parse (tree : Option Expr)
  | synchronize
  | peek (t : Token)
  | isAtEnd (atEnd : Bool)

namespace Answer

def op : Answer → Op
  | expression _ => .expression
  | parse _ => .parse
  | synchronize => .synchronize
  | peek _ => .peek
  | isAtEnd _ => .isAtEnd

/-- The tree that was read, if the answer is one. -/
def tree? : Answer → Option Expr
  | expression (.ok e) => some e
  | parse tree => tree
  | _ => none

end Answer

/-- The answer to one operation, and the sink that it may have reported to. -/
def ask (s : Sink) (p : Parser) : Op → Except Fault (Answer × Sink) × Parser
  | .expression => (p.expression.1.map fun result => (.expression result, s), p.expression.2)
  | .parse => ((p.parse s).1.map fun told => (.parse told.1, told.2), (p.parse s).2)
  | .synchronize => (p.synchronize.1.map fun _ => (.synchronize, s), p.synchronize.2)
  | .peek => (p.peek.map fun t => (.peek t, s), p)
  | .isAtEnd => (p.isAtEnd.map fun b => (.isAtEnd b, s), p)

/-- What may be relied on when an operation moves the cursor from `i` to `j`. -/
structure Follows (op : Op) (i : Nat) (s : Sink) (answer : Answer) (j : Nat) (s' : Sink) :
    Prop where
  answers : answer.op = op
  forward : i ≤ j
  progress : answer.tree?.isSome = true → i < j
  -- Only a parse that returns no tree says so, and it says so once.
  reported : answer = .parse none → ∃ e, s.Grows [.malformed e] s'
  silent : answer ≠ .parse none → s.Grows [] s'

/-- What `parse` returns and tells the sink. -/
def tell (s : Sink) : Except ParseError Expr → Option Expr × Sink
  | .ok e => (some e, s.log (.parsed e))
  | .error err => (none, (s.log (.aborted err)).malformed (.ofParse err))

theorem parse_eq (p : Parser) (s : Sink) :
    p.parse s = (p.expression.1.map (tell s), p.expression.2) := by
  unfold Parser.parse
  rcases p.expression with ⟨_ | (_ | _), _⟩ <;> rfl

theorem follows_tell (i j : Nat) (s : Sink) (result : Except ParseError Expr) (hij : i ≤ j)
    (hprogress : ∀ e, result = .ok e → i < j) :
    Follows .parse i s (.parse (tell s result).1) j (tell s result).2 := by
  cases result with
  | ok e =>
    have hlog := s.grows_log (.parsed e)
    exact ⟨rfl, hij, fun _ => hprogress e rfl, by simp [tell], fun _ => hlog⟩
  | error err =>
    have hpost := s.grows_log_post (.aborted err) (.malformed (.ofParse err))
    exact ⟨rfl, hij, by simp [tell, Answer.tree?], fun _ => ⟨_, hpost⟩, by simp [tell]⟩

section

variable (front : List Token) (eof : Token) (heof : eof.kind = .eof)
  (hliterals : ∀ t ∈ front, t.kind = .number ∨ t.kind = .string → t.literal ≠ none)

include heof hliterals

theorem parse_confined (i : Nat) (hi : i ≤ front.length) (s : Sink) :
    ∃ result j, Confined (fun p => p.parse s) front eof i (tell s result) j ∧
      ∀ e, result = .ok e → i < j := by
  obtain ⟨result, j, hconfined, hprogress⟩ := expression_confined front eof heof i hi hliterals
  refine ⟨result, j, ?_, hprogress⟩
  simp only [parse_eq]
  exact confined_map _ _ _ _ _ _ _ hconfined

theorem ask_confined (i : Nat) (hi : i ≤ front.length) (s : Sink) (op : Op) :
    ∃ answer j s', Confined (fun p => p.ask s op) front eof i (answer, s') j ∧
      Follows op i s answer j s' := by
  cases op with
  | expression =>
    obtain ⟨result, j, hconfined, hprogress⟩ :=
      expression_confined front eof heof i hi hliterals
    refine ⟨.expression result, j, s, confined_map _ _ _ _ _ _ _ hconfined, rfl,
      hconfined.forward, ?_, by simp, fun _ => s.grows_refl⟩
    cases result with
    | ok e => exact fun _ => hprogress e rfl
    | error err => simp [Answer.tree?]
  | parse =>
    obtain ⟨result, j, hconfined, hprogress⟩ := parse_confined front eof heof hliterals i hi s
    exact ⟨_, j, _, confined_map _ _ _ _ _ _ _ hconfined,
      follows_tell i j s result hconfined.forward hprogress⟩
  | synchronize =>
    obtain ⟨j, hconfined⟩ := synchronize_confined front eof heof i hi
    exact ⟨.synchronize, j, s, confined_map _ _ _ _ _ _ _ hconfined, rfl, hconfined.forward,
      by simp [Answer.tree?], by simp, fun _ => s.grows_refl⟩
  | peek =>
    obtain ⟨t, hconfined⟩ := peek_confined front eof i hi
    exact ⟨.peek t, i, s, confined_map _ _ _ _ _ _ _ hconfined, rfl, Nat.le_refl i,
      by simp [Answer.tree?], by simp, fun _ => s.grows_refl⟩
  | isAtEnd =>
    obtain ⟨t, hconfined⟩ := peek_confined front eof i hi
    have hisAtEnd : Confined (fun p => (p.isAtEnd, p)) front eof i t.isEof i :=
      confined_map _ _ _ _ _ _ _ hconfined
    exact ⟨.isAtEnd t.isEof, i, s, confined_map _ _ _ _ _ _ _ hisAtEnd, rfl, Nat.le_refl i,
      by simp [Answer.tree?], by simp, fun _ => s.grows_refl⟩

end

/-! ## Sessions -/

structure Session where
  parser : Parser
  sink : Sink := {}

namespace Session

/-- One operation on the parser. A fault leaves the sink as it was. -/
def perform (s : Session) (op : Op) : Except Fault Answer × Session :=
  match s.parser.ask s.sink op with
  | (.ok (answer, sink), parser) => (.ok answer, { parser, sink })
  | (.error f, parser) => (.error f, { s with parser })

/-- One operation after the other. -/
def play (s : Session) : List Op → List (Except Fault Answer) × Session
  | [] => ([], s)
  | op :: ops =>
    let (reply, s) := s.perform op
    let (replies, s) := s.play ops
    (reply :: replies, s)

section

variable (front : List Token) (eof : Token) (heof : eof.kind = .eof)
  (hliterals : ∀ t ∈ front, t.kind = .number ∨ t.kind = .string → t.literal ≠ none)

include heof hliterals

theorem perform_eof (i : Nat) (hi : i ≤ front.length) (s : Sink) (op : Op) :
    ∃ answer j s', j ≤ front.length ∧ Follows op i s answer j s' ∧
      (∀ more, perform ⟨⟨front ++ eof :: more, i⟩, s⟩ op =
        (.ok answer, ⟨⟨front ++ eof :: more, j⟩, s'⟩)) ∧
      (j < front.length → perform ⟨⟨front, i⟩, s⟩ op = (.ok answer, ⟨⟨front, j⟩, s'⟩)) ∧
      (j = front.length → perform ⟨⟨front, i⟩, s⟩ op =
        (.error (.outOfTokens front.length), ⟨⟨front, j⟩, s⟩)) := by
  obtain ⟨answer, j, s', hconfined, hfollows⟩ := ask_confined front eof heof hliterals i hi s op
  refine ⟨answer, j, s', hconfined.inside, hfollows, fun more => ?_, fun hj => ?_, fun hj => ?_⟩
  · simp only [perform, hconfined.ended more]
  · simp only [perform, hconfined.bare hj]
  · simp only [perform, hconfined.missed hj]

theorem play_eof (ops : List Op) (i : Nat) (hi : i ≤ front.length) (s : Sink) :
    ∃ (answers : List Answer) (j : Nat) (s' : Sink), j ≤ front.length ∧ ∀ more,
      play ⟨⟨front ++ eof :: more, i⟩, s⟩ ops =
        (answers.map .ok, ⟨⟨front ++ eof :: more, j⟩, s'⟩) := by
  induction ops generalizing i s with
  | nil => exact ⟨[], i, s, hi, fun more => rfl⟩
  | cons op ops ih =>
    obtain ⟨answer, j, s', hj, -, hperform, -⟩ :=
      perform_eof front eof heof hliterals i hi s op
    obtain ⟨answers, k, s'', hk, hplay⟩ := ih j hj s'
    refine ⟨answer :: answers, k, s'', hk, fun more => ?_⟩
    simp only [play, hperform, hplay, List.map_cons]

end

theorem split_at_first_eof (ts : List Token) (h : Complete ts) :
    ∃ front eof behind, ts = front ++ eof :: behind ∧ eof.kind = .eof ∧
      front.length = ts.findIdx Token.isEof := by
  obtain ⟨t, ht, heof⟩ := h.ends
  have hlt : ts.findIdx Token.isEof < ts.length :=
    List.findIdx_lt_length_of_exists ⟨t, ht, by simp [Token.isEof, heof]⟩
  refine ⟨ts.take (ts.findIdx Token.isEof), ts[ts.findIdx Token.isEof],
    ts.drop (ts.findIdx Token.isEof + 1), ?_, ?_, ?_⟩
  · rw [← List.drop_eq_getElem_cons hlt, List.take_append_drop]
  · have hfound := List.findIdx_getElem (w := hlt)
    simpa [Token.isEof] using hfound
  · rw [List.length_take, Nat.min_eq_left hlt.le]

/-- **A parser is a cursor.** In any session every operation returns, keeps the tokens, and moves the
cursor forward, if at all, up to the first end at most; with a tree it does move. A parse reports
once if it returns no tree, and nothing else is reported. Tokens behind the first end change no
answer, no report and no place of the cursor. -/
theorem session_moves_cursor (ts : List Token) (h : Complete ts) (sink : Sink) (ops : List Op) :
    ∃ (answers : List Answer) (s : Session),
      play ⟨{ tokens := ts }, sink⟩ ops = (answers.map .ok, s) ∧
      (∀ op, ∃ answer s', s.perform op = (.ok answer, s') ∧ s'.parser.tokens = ts ∧
        s'.parser.cursor ≤ ts.findIdx Token.isEof ∧
        Follows op s.parser.cursor s.sink answer s'.parser.cursor s'.sink) ∧
      ∀ ts', ts'.take (ts.findIdx Token.isEof + 1) = ts.take (ts.findIdx Token.isEof + 1) →
        play ⟨{ tokens := ts' }, sink⟩ ops =
          (answers.map .ok, ⟨⟨ts', s.parser.cursor⟩, s.sink⟩) := by
  obtain ⟨front, eof, behind, hts, heof, hfirst⟩ := split_at_first_eof ts h
  have hliterals : ∀ t ∈ front, t.kind = .number ∨ t.kind = .string → t.literal ≠ none :=
    fun t ht => h.literals t (by simp [hts, ht])
  obtain ⟨answers, i, sink', hi, hplay⟩ :=
    play_eof front eof heof hliterals ops 0 (Nat.zero_le _) sink
  rw [← hfirst]
  refine ⟨answers, ⟨⟨ts, i⟩, sink'⟩, ?_, ?_, ?_⟩
  · rw [hts]
    exact hplay behind
  · intro op
    obtain ⟨answer, j, sink'', hj, hfollows, hperform, -⟩ :=
      perform_eof front eof heof hliterals i hi sink' op
    rw [hts]
    exact ⟨answer, _, hperform behind, rfl, hj, hfollows⟩
  · intro ts' hsame
    have hts' : ts' = front ++ eof :: ts'.drop (front.length + 1) := by
      conv_lhs => rw [← List.take_append_drop (front.length + 1) ts', hsame, hts]
      simp [List.take_append, List.take_of_length_le]
    rw [hts']
    exact hplay _

theorem session_moves_cursor_lone_paren :
    let ts := [nilToken, closingToken, nilToken, endToken, closingToken]
    let ops := [Op.parse, .parse, .synchronize]
    Complete ts ∧ ∃ replies sink, play ⟨{ tokens := ts }, {}⟩ ops = (replies, ⟨⟨ts, 3⟩, sink⟩) ∧
      sink.reports.length = 1 ∧
      play ⟨{ tokens := ts.dropLast }, {}⟩ ops = (replies, ⟨⟨ts.dropLast, 3⟩, sink⟩) := by
  -- The second parse fails at a parenthesis that is never opened. The last token is behind the
  -- end.
  intro ts ops
  have hcomplete : Complete ts := ⟨⟨endToken, by simp [ts], rfl⟩, by decide⟩
  have hparser : (play ⟨{ tokens := ts }, {}⟩ ops).2.parser = ⟨ts, 3⟩ := rfl
  have hreports : (play ⟨{ tokens := ts }, {}⟩ ops).2.sink.reports.length = 1 := rfl
  obtain ⟨answers, ⟨parser, sink⟩, hplay, -, hsame⟩ := session_moves_cursor ts hcomplete {} ops
  rw [hplay] at hparser hreports
  obtain rfl : parser = ⟨ts, 3⟩ := hparser
  exact ⟨hcomplete, _, sink, hplay, hreports, hsame ts.dropLast rfl⟩

/-! ## Without an end -/

/-- **An end is missed only where it would be reached.** Some tokens and an end behind them are
compared with the tokens alone. Without the end an operation faults, and reports nothing, exactly if
with the end it comes to stand there. Otherwise it answers, reports and moves just the same. -/
theorem perform_without_eof (ts : List Token) (eof : Token) (i : Nat) (sink : Sink) (op : Op)
    (heof : eof.kind = .eof) (hi : i ≤ ts.length)
    (hliterals : ∀ t ∈ ts, t.kind = .number ∨ t.kind = .string → t.literal ≠ none) :
    ∃ answer reply ended bare,
      perform ⟨⟨ts ++ [eof], i⟩, sink⟩ op = (.ok answer, ended) ∧
      perform ⟨⟨ts, i⟩, sink⟩ op = (reply, bare) ∧
      ((∃ f, reply = .error f ∧ f.message = "index out of bounds: the len is " ++
          toString ts.length ++ " but the index is " ++ toString ts.length ∧ bare.sink = sink) ↔
        ended.parser.cursor = ts.length) ∧
      (ended.parser.cursor ≠ ts.length → reply = .ok answer ∧ bare.sink = ended.sink ∧
        bare.parser.cursor = ended.parser.cursor) := by
  obtain ⟨answer, j, sink', hj, -, hended, hbare, hmissed⟩ :=
    perform_eof ts eof heof hliterals i hi sink op
  rcases Nat.lt_or_eq_of_le hj with hlt | heq
  · refine ⟨answer, _, _, _, hended [], hbare hlt, ?_, fun _ => ⟨rfl, rfl, rfl⟩⟩
    constructor
    · rintro ⟨f, hf, -⟩
      cases hf
    · exact fun h => absurd h (Nat.ne_of_lt hlt)
  · refine ⟨answer, _, _, _, hended [], hmissed heq, ?_, fun h => absurd heq h⟩
    exact ⟨fun _ => heq, fun _ => ⟨_, rfl, rfl, rfl⟩⟩

theorem perform_without_eof_operands :
    let ts := [nilToken, nilToken]
    (∃ answer s, perform ⟨⟨ts, 0⟩, {}⟩ .parse = (.ok answer, s) ∧ s.parser.cursor = 1) ∧
      ∃ f s, perform ⟨⟨ts, 1⟩, {}⟩ .parse = (.error f, s) ∧ s.sink.reports = [] ∧
        f.message = "index out of bounds: the len is 2 but the index is 2" := by
  -- Of two operands without an end the first one is read, but not the second.
  intro ts
  have hliterals : ∀ t ∈ ts, t.kind = .number ∨ t.kind = .string → t.literal ≠ none := by decide
  constructor
  · have hcursor : (perform ⟨⟨ts ++ [endToken], 0⟩, {}⟩ .parse).2.parser.cursor = 1 := rfl
    obtain ⟨answer, reply, ended, bare, hended, hbare, -, hsame⟩ :=
      perform_without_eof ts endToken 0 {} .parse rfl (by decide) hliterals
    rw [hended] at hcursor
    obtain ⟨rfl, -, hmoved⟩ := hsame (by rw [hcursor]; decide)
    exact ⟨answer, bare, hbare, hmoved.trans hcursor⟩
  · have hcursor : (perform ⟨⟨ts ++ [endToken], 1⟩, {}⟩ .parse).2.parser.cursor = 2 := rfl
    obtain ⟨answer, reply, ended, bare, hended, hbare, hfaults, -⟩ :=
      perform_without_eof ts endToken 1 {} .parse rfl (by decide) hliterals
    rw [hended] at hcursor
    obtain ⟨f, rfl, hmessage, hsink⟩ := hfaults.mpr hcursor
    refine ⟨f, bare, hbare, by rw [hsink], ?_⟩
    rw [hmessage]
    decide

end Session

end Parser

end Lox
