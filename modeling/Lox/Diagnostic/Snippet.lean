import Lox.Diagnostic.Line
import Lox.Paint
import Lox.Text.Align
import Lox.Text.WhiteSpace

/-!
# Snippets

A span is shown in the lines that it runs over. On a single line carets stand under it. Over several
lines a bracket runs down their left side, from a caret where the span begins to one where it ends;
in the middle of a long span lines are left out.
-/

open Lox.Text (spaces padLeft)

namespace Lox.Snippet

def frame : Style := { colour := some .blue }

def accent : Style := { colour := some .red }

/-! ## Margins -/

/-- The margin of a row without a line number. -/
def blankMargin (pad : Nat) (border : String) : Paint :=
  .plain (spaces pad ++ " ") ++ .styled frame border

/-- The margin of a row that shows a line. -/
def numberMargin (pad n : Nat) : Paint :=
  .styled frame (padLeft pad (toString n)) ++ .plain " " ++ .styled frame "│"

/-- The column of the bracket. -/
def bracket (s : String) : Paint := .plain " " ++ .styled accent s

/-- The column of the bracket where there is none. -/
def noBracket : Paint := .plain "  "

/-! ## Lines -/

/-- The text of a line, with each run of marked cells accented. -/
def source (marked : Cell → Bool) (cells : List Cell) : Paint := go false cells
where
  go (inside : Bool) : List Cell → Paint
    | [] => if inside then [.style {}] else []
    | c :: cs =>
      let change := match inside, marked c with
        | false, true => [.style accent]
        | true, false => [.style {}]
        | _, _ => []
      change ++ .text c.text :: go (marked c) cs

/-- The message of a label behind a caret, if it has one. -/
def message (label : Option String) : Option String := label.filter (· ≠ "")

/-! ## A span on one line -/

/-- The bytes of a line that a label covers, at least one. -/
structure Range where
  start : Nat
  stop : Nat
  deriving DecidableEq, Repr, Inhabited

namespace Range

/-- Whether the bytes from `a` up to `b` are covered in part. -/
def overlaps (r : Range) (a b : Nat) : Bool := max r.start a < min r.stop b

end Range

/-- The carets under a line. A place behind its last character is there for a span that ends with
the line. -/
def carets (r : Range) (cells : List Cell) (shownBytes : Nat) : Paint :=
  go false (cells.map (fun c => (c.byte, c.stop, c.width)) ++ [(shownBytes, shownBytes + 1, 1)])
where
  go (inside : Bool) : List (Nat × Nat × Nat) → Paint
    | [] => if inside then [.style {}] else []
    | (byte, stop, width) :: rest =>
      let covered := r.overlaps byte stop
      let change := match inside, covered with
        | false, true => [.style accent]
        | true, false => [.style {}]
        | _, _ => []
      let mark := if covered then String.ofList (List.replicate width '^')
        else if byte < r.stop then spaces width
        else ""
      change ++ .text mark :: go covered rest

/-- The rows for a span on one line. -/
def singleLine (pad : Nat) (l : Line) (span : Span) (label : Option String) : Paint :=
  let start := span.start - l.start
  let r : Range := ⟨start, max (span.stop - l.start) (start + 1)⟩
  let note := match message label with
    | some m => .plain " " ++ .styled accent m
    | none => []
  numberMargin pad l.number ++ .plain " " ++
    source (fun c => r.overlaps c.byte c.stop) l.cells ++ .plain "\n" ++
    blankMargin pad "│" ++ .plain " " ++ carets r l.cells (byteLength l.shown) ++ note ++
    .plain "\n"

/-! ## A span over several lines -/

/-- What a line shows of a span: where it begins, where it ends, some of its middle, or nothing. -/
inductive Mark where
  | top (byte : Nat)
  | inner
  | bottom (byte : Nat)
  | none
  deriving DecidableEq, Repr, Inhabited

/-- The bytes of white space that a line begins with. -/
def indentation (l : Line) : Nat := byteLength (l.shown.takeWhile Text.isWhiteSpace)

namespace Mark

/-- Whether the span begins in front of everything that the line shows, so that no caret is
needed. -/
def opensLine (l : Line) : Mark → Bool
  | top byte => byte ≤ indentation l
  | _ => false

/-- Whether a cell belongs to the span. -/
def covers : Mark → Cell → Bool
  | top byte, c => byte ≤ c.byte
  | inner, _ => true
  | bottom byte, c => c.stop ≤ byte
  | none, _ => false

/-- The bracket beside a line. -/
def bracketBeside (l : Line) (m : Mark) : Paint :=
  match m with
  | top _ => if m.opensLine l then bracket "╭" else noBracket
  | inner | bottom _ => bracket "│"
  | none => noBracket

/-- The bracket beside the row that stands for lines left out below a line. -/
def bracketBelow : Mark → Paint
  | inner | bottom _ => bracket "│"
  | top _ | none => noBracket

end Mark

/-- A row that runs from the bracket to a caret under a line. -/
def caretRow (pad : Nat) (corner : String) (cells : List Cell) (note : String) : Paint :=
  let run := String.join (cells.map fun c => String.ofList (List.replicate c.width '─'))
  blankMargin pad "│" ++ bracket corner ++ .styled accent (run ++ "^" ++ note) ++ .plain "\n"

/-- The rows for a line and its mark. -/
def markedLine (pad : Nat) (label : Option String) (l : Line) (m : Mark) : Paint :=
  let text := numberMargin pad l.number ++ m.bracketBeside l ++ .plain " " ++
    source m.covers l.cells ++ .plain "\n"
  let below := match m with
    | .top byte =>
      if m.opensLine l then [] else caretRow pad "╭" (l.cells.filter (·.byte < byte + 1)) ""
    | .bottom byte =>
      let note := match message label with
        | some s => " " ++ s
        | none => ""
      caretRow pad "╰" (l.cells.filter (·.byte < byte)) note
    | .inner | .none => []
  text ++ below

/-- The row that stands for lines left out below a line with this mark. -/
def breakRow (pad : Nat) (m : Mark) : Paint :=
  blankMargin pad "·" ++ m.bracketBelow ++ .plain "\n"

/-- A line that a span runs over, and whether it must be shown. -/
structure Row where
  line : Line
  mark : Mark
  needed : Bool
  deriving Inhabited

/-- Lines of context that are shown below the first line of a span. -/
def contextBelow : Nat := 3

/-- Lines of context that are shown above the last line of a span. -/
def contextAbove : Nat := 1

/-- The mark of a line for a span between two lines. If the span ends on an earlier line than it
begins on, nothing lies in between. -/
def rowOf (first last : Line) (span : Span) (l : Line) : Row :=
  if l.number = first.number then ⟨l, .top (span.start - first.start), true⟩
  else if l.number = last.number then ⟨l, .bottom (span.stop - last.start), true⟩
  else if first.number < last.number then
    ⟨l, .inner, l.number - first.number ≤ contextBelow || last.number - l.number ≤ contextAbove⟩
  else ⟨l, .none, false⟩

/-- The rows in order. A single line that is not needed is shown all the same, and a break stands
for several. `above` is the mark of the last line shown, `skipped` are the lines left out since. -/
def assemble (pad : Nat) (label : Option String) (above : Mark) (skipped : List Row) :
    List Row → Paint
  | [] => []
  | r :: rs =>
    if r.needed then
      let gap := match skipped with
        | [] => []
        | [s] => markedLine pad label s.line s.mark
        | _ => breakRow pad above
      gap ++ markedLine pad label r.line r.mark ++ assemble pad label r.mark [] rs
    else assemble pad label above (skipped ++ [r]) rs

/-- The rows for a span between two lines. -/
def multiLine (pad : Nat) (lines : List Line) (first last : Line) (span : Span)
    (label : Option String) : Paint :=
  let low := min first.number last.number
  let high := max first.number last.number
  let rows := (lines.filter fun l => low ≤ l.number && l.number ≤ high).map (rowOf first last span)
  assemble pad label .none [] rows

/-! ## The whole snippet -/

/-- A span of a text with the path of the text, a message, and empty rows around it. -/
def render (src path : String) (span : Span) (label : Option String) : Paint :=
  let lines := Line.all src
  let first := Line.locate lines span.start
  let last := Line.locate lines span.stop
  let pad := (toString (max first.number last.number)).length
  let place := path ++ ":" ++ toString first.number ++ ":" ++ toString (first.columnOf span.start)
  let locus := .plain (spaces pad ++ " ") ++ .styled frame "┌─" ++ .plain (" " ++ place ++ "\n")
  let body :=
    if first.number = last.number then
      blankMargin pad "│" ++ .plain "\n" ++ singleLine pad first span label
    else
      blankMargin pad "│" ++ noBracket ++ .plain "\n" ++ multiLine pad lines first last span label
  locus ++ body ++ .plain "\n"

end Lox.Snippet
