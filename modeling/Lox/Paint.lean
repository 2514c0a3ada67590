/-!
# Painted text

Text for a terminal with changes of style in between. Written plainly, the styles are left out;
otherwise each one becomes escape sequences that first end the style before it.
-/

namespace Lox

inductive Colour where
  | red
  | blue
  | brightRed
  | brightGreen
  | brightMagenta
  deriving DecidableEq, Repr, Inhabited

structure Style where
  bold : Bool := false
  colour : Option Colour := none
  deriving DecidableEq, Repr, Inhabited

/-- A piece of text, or a change of style for what follows. -/
inductive Stroke where
  | text (s : String)
  | style (st : Style)
  deriving DecidableEq, Repr, Inhabited

abbrev Paint := List Stroke

/-- The parameters that select a colour. -/
def Colour.parameters : Colour → String
  | red => "31"
  | blue => "34"
  | brightRed => "38;5;9"
  | brightGreen => "38;5;10"
  | brightMagenta => "38;5;13"

namespace Style

/-- The sequence that selects something by its parameters. -/
def select (parameters : String) : String := "\x1b[" ++ parameters ++ "m"

/-- The sequences that end the current style and begin this one. -/
def sequences (st : Style) : String :=
  select "0" ++ (if st.bold then select "1" else "") ++
    (match st.colour with
      | some c => select c.parameters
      | none => "")

end Style

namespace Paint

/-- Text in the style that is in force. -/
def plain (s : String) : Paint := [.text s]

/-- Text in a style of its own. -/
def styled (st : Style) (s : String) : Paint := [.style st, .text s, .style {}]

/-- The text alone. -/
def text (p : Paint) : String :=
  String.join (p.map fun
    | .text s => s
    | .style _ => "")

/-- The text with escape sequences. -/
def ansi (p : Paint) : String :=
  String.join (p.map fun
    | .text s => s
    | .style st => st.sequences)

/-- The text with or without escape sequences. -/
def render (colour : Bool) (p : Paint) : String := if colour then p.ansi else p.text

end Paint

end Lox
