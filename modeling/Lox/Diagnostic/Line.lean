import Lox.Span
import Lox.Text.Width

/-!
# Lines of a text

A line begins at the front of a text and behind every line feed, so there is always at least one.
-/

namespace Lox

/-- A line of a text, with its number, where it begins, and its characters up to and including its
line feed. -/
structure Line where
  number : Nat
  start : Nat
  chars : List Char
  deriving DecidableEq, Repr, Inhabited

namespace Line

/-- The lines of a text as characters. -/
def cut : List Char → List (List Char)
  | [] => [[]]
  | c :: cs =>
    if c = '\n' then [c] :: cut cs
    else match cut cs with
      | [] => [[c]]
      | l :: ls => (c :: l) :: ls

/-- Numbers lines from `number` on, the first of which begins at `start`. -/
def enumerate (number start : Nat) : List (List Char) → List Line
  | [] => []
  | l :: ls => ⟨number, start, l⟩ :: enumerate (number + 1) (start + byteLength l) ls

/-- The lines of a text. -/
def all (src : String) : List Line := enumerate 1 0 (cut src.toList)

/-- The line that an offset lies on: the last one that begins at or before it. -/
def locate (lines : List Line) (offset : Nat) : Line :=
  ((lines.filter (·.start ≤ offset)).getLast?).getD ⟨1, 0, []⟩

/-- What is shown of a line: its end is left out. -/
def shown (l : Line) : List Char :=
  (l.chars.reverse.dropWhile fun c => c == '\n' || c == '\r' || c == '\x00').reverse

/-- The column of an offset: one more than the number of characters of the line that end at or
before it. -/
def columnOf (l : Line) (offset : Nat) : Nat := go l.start l.chars + 1
where
  go (start : Nat) : List Char → Nat
    | [] => 0
    | c :: cs =>
      let stop := start + c.utf8Size
      if stop ≤ offset then go stop cs + 1 else 0

end Line

/-! ## Cells -/

/-- A character of a shown line: the byte of the line at which it begins, and how many columns it
takes. -/
structure Cell where
  char : Char
  byte : Nat
  width : Nat
  deriving DecidableEq, Repr, Inhabited

namespace Cell

/-- The byte behind the character. -/
def stop (c : Cell) : Nat := c.byte + c.char.utf8Size

/-- What is printed of the character. A tab is printed as blanks. -/
def text (c : Cell) : String :=
  if c.char = '\t' then String.ofList (List.replicate c.width ' ') else c.char.toString

/-- The columns between two stops of the tabulator. -/
def tabWidth : Nat := 4

/-- The number of columns that a character takes in this column. -/
def widthAt (column : Nat) (c : Char) : Nat :=
  if c = '\t' then tabWidth - column % tabWidth else Text.width c

/-- The cells of some characters that stand at this byte and this column of a line. -/
def layOut (byte column : Nat) : List Char → List Cell
  | [] => []
  | c :: cs =>
    let width := widthAt column c
    ⟨c, byte, width⟩ :: layOut (byte + c.utf8Size) (column + width) cs

end Cell

/-- The cells of what is shown of a line. -/
def Line.cells (l : Line) : List Cell := Cell.layOut 0 0 l.shown

end Lox
