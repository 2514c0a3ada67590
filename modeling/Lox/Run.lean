import Lox.Sink

/-!
# Running a text

A text is scanned, parsed and evaluated. Each stage tells the sink what it met. A text is evaluated
only if nothing in the sink says that it, or one before it, is malformed.
-/

namespace Lox

namespace Sink

/-- Logs a token and reports an error. -/
def record (s : Sink) : Item → Sink
  | .token t => s.log (.token t)
  | .error e => s.malformed (.ofLexical e)

/-- The tokens among some items. The sink is told of each item, in order. -/
def collect (items : List Item) (s : Sink) : List Token × Sink :=
  let tokens := items.filterMap Item.token?
  (tokens, (items.foldl record s).log (.scanned tokens.length))

end Sink

/-- The tokens of a text. -/
def scanInto (src : String) (s : Sink) : List Token × Sink := s.collect (scan src)

/-- Reads one expression and reports what is wrong with it, if anything. -/
def Parser.parse (p : Parser) (s : Sink) : Except Fault (Option Expr × Sink) × Parser :=
  let (result, p) := p.expression
  let told := result.map fun
    | .ok e => (some e, s.log (.parsed e))
    | .error err => (none, (s.log (.aborted err)).malformed (.ofParse err))
  (told, p)

/-- The expression that a text begins with. There is none while the sink holds an error in how a
text is written. -/
def parse (src : String) (s : Sink) : Except Fault (Option Expr × Sink) := do
  let (tokens, s) := scanInto src s
  let (e, s) ← (Parser.parse { tokens } s).1
  return (if s.hadError then none else e, s)

/-- The value of an expression, or a report of why it has none. -/
def interpret (e : Expr) (s : Sink) : Except Fault (Option Value × Sink) :=
  match e.evaluate with
  | .ok v => .ok (some v, s.log (.evaluated v))
  | .error (.runtime err) => .ok (none, (s.log (.failed err)).runtime err)
  | .error (.fault f) => .error f

inductive Outcome where
  | value (v : Value)
  /-- The text was not evaluated. -/
  | syntaxFailure
  | runtimeFailure
  deriving DecidableEq, Inhabited

/-- Scans, parses and evaluates a text. -/
def run (src : String) (s : Sink) : Except Fault (Outcome × Sink) := do
  let (tokens, s) := scanInto src s
  let (e, s) ← (Parser.parse { tokens } s).1
  match e, s.hadError with
  | some e, false =>
    match ← interpret e s with
    | (some v, s) => return (.value v, s)
    | (none, s) => return (.runtimeFailure, s)
  | _, _ => return (.syntaxFailure, s)

/-- A run evaluates the expression that `parse` gives. -/
theorem run_eq_parse (src : String) (s : Sink) :
    run src s = (do
      match ← parse src s with
      | (none, s) => return (.syntaxFailure, s)
      | (some e, s) =>
        match ← interpret e s with
        | (some v, s) => return (.value v, s)
        | (none, s) => return (.runtimeFailure, s)) := by
  unfold run parse
  cases h : (Parser.parse { tokens := (scanInto src s).1 } (scanInto src s).2).1 with
  | error f => simp [h, bind, Except.bind]
  | ok told =>
    obtain ⟨e, s'⟩ := told
    simp only [h, bind, Except.bind]
    cases e <;> cases s'.hadError <;> simp [pure, Except.pure]

end Lox
