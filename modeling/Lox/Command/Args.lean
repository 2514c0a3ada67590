/-!
# Arguments

    [-v]... [run PATH [--pretty] | repl | rlpl | rppl [--postfix]]

Without a command it is `repl`. `-v` may stand anywhere and several times, also joined as in `-vv`;
counted behind the command, it replaces what was counted in front of it. `--version` and `-V` stand
in front of the command only and end the reading at once. Behind `--` nothing is an option.
-/

namespace Lox

/-- What the program is asked to do: run a file, or hold a session at the prompt that evaluates
lines, lists their tokens or prints their trees. -/
inductive Command where
  | run (path : String) (pretty : Bool)
  | repl
  | rlpl
  | rppl (postfixed : Bool)
  deriving DecidableEq, Repr, Inhabited

namespace Command

inductive Request where
  | version
  | invoke (command : Command) (verbosity : Nat)
  deriving DecidableEq, Repr, Inhabited

/-- What an argument looks like. -/
inductive Arg where
  | escape
  | long (name : String)
  | short (letters : List Char)
  | word (w : String)
  deriving DecidableEq, Repr, Inhabited

/-- A single dash is a word. -/
def Arg.ofString (s : String) : Arg :=
  match s.toList with
  | ['-', '-'] => .escape
  | '-' :: '-' :: name => .long (String.ofList name)
  | '-' :: c :: cs => .short (c :: cs)
  | _ => .word s

/-- What may follow a command: one flag, if any, and whether a path must be there. -/
structure Shape where
  flag : Option String
  takesPath : Bool
  deriving DecidableEq, Repr, Inhabited

/-- What has followed a command so far. -/
structure Given where
  verbosity : Nat := 0
  flag : Bool := false
  path : Option String := none
  deriving DecidableEq, Repr, Inhabited

/-- Takes a word as the path. There is at most one, and it is not empty. -/
def Given.withPath? (shape : Shape) (g : Given) (w : String) : Option Given :=
  if shape.takesPath ∧ g.path = none ∧ w ≠ "" then some { g with path := some w } else none

/-- Takes an option. The flag of the command stands there at most once. -/
def Given.withLong? (shape : Shape) (g : Given) (name : String) : Option Given :=
  if name = "verbose" then some { g with verbosity := g.verbosity + 1 }
  else if shape.flag = some name ∧ !g.flag then some { g with flag := true }
  else none

/-- Reads what follows a command. -/
def readGiven (shape : Shape) (escaped : Bool) (g : Given) : List String → Option Given
  | [] => some g
  | a :: as =>
    if escaped then (g.withPath? shape a).bind (readGiven shape true · as)
    else
      match Arg.ofString a with
      | .escape => readGiven shape true g as
      | .long name => (g.withLong? shape name).bind (readGiven shape false · as)
      | .short letters =>
        if letters.all (· == 'v') then
          readGiven shape false { g with verbosity := g.verbosity + letters.length } as
        else none
      | .word w => (g.withPath? shape w).bind (readGiven shape false · as)

/-- The shape of what follows a command, and the command that it makes. -/
def commands : List (String × Shape × (Given → Option Command)) :=
  [("run", ⟨some "pretty", true⟩, fun g => g.path.map (.run · g.flag)),
    ("repl", ⟨none, false⟩, fun _ => some .repl),
    ("rlpl", ⟨none, false⟩, fun _ => some .rlpl),
    ("rppl", ⟨some "postfix", false⟩, fun g => some (.rppl g.flag))]

/-- Reads a command by its name and what follows it, having counted `verbosity` in front. -/
def readCommand (verbosity : Nat) (name : String) (args : List String) : Option Request := do
  let (shape, make) ← commands.lookup name
  let g ← readGiven shape false {} args
  let command ← make g
  return .invoke command (if g.verbosity = 0 then verbosity else g.verbosity)

/-- Reads joined letters in front of the command: the verbosity, unless the version is asked for. -/
def readLetters (verbosity : Nat) : List Char → Option (Option Nat)
  | [] => some (some verbosity)
  | 'v' :: cs => readLetters (verbosity + 1) cs
  | 'V' :: _ => some none
  | _ => none

/-- Reads all arguments, having counted `verbosity`; none if they make no sense. -/
def readArgs (verbosity : Nat) : List String → Option Request
  | [] => some (.invoke .repl verbosity)
  | a :: as =>
    match Arg.ofString a with
    | .escape => if as.isEmpty then some (.invoke .repl verbosity) else none
    | .long "verbose" => readArgs (verbosity + 1) as
    | .long "version" => some .version
    | .long _ => none
    | .short letters =>
      match readLetters verbosity letters with
      | some (some n) => readArgs n as
      | some none => some .version
      | none => none
    | .word w => readCommand verbosity w as

/-- What the arguments ask for; none if they make no sense. -/
def Request.ofArgs? (args : List String) : Option Request := readArgs 0 args

end Command

end Lox
