import Lox.Layout
import Lox.Piece

/-!
# Scanning

A text is scanned into items: a token for each lexeme, an error for each piece that is none, and one
token for the end. An error does not stop the scan. A `Scanner` stands at a place of the text and
yields one item at a time.
-/

namespace Lox

namespace LexicalError

/-- What is wrong with a piece that is no lexeme. -/
inductive Cause where
  | unexpectedCharacter (c : Char)
  | unterminatedString
  deriving DecidableEq, Repr, Inhabited

def Cause.message : Cause → String
  | unexpectedCharacter _ => "Unexpected character."
  | unterminatedString => "Unterminated string."

end LexicalError

/-- A piece of the text that is no lexeme. The line is the one that the piece ends on. -/
structure LexicalError where
  cause : LexicalError.Cause
  line : Nat
  span : Span
  deriving DecidableEq, Repr, Inhabited

namespace LexicalError

def message (e : LexicalError) : String := e.cause.message

end LexicalError

/-- What a scanner yields. -/
inductive Item where
  | token (t : Token)
  | error (e : LexicalError)
  deriving DecidableEq, Inhabited

namespace Item

def isEof : Item → Bool
  | token t => t.isEof
  | error _ => false

def token? : Item → Option Token
  | token t => some t
  | error _ => none

def error? : Item → Option LexicalError
  | token _ => none
  | error e => some e

/-- The token for the end of a text. -/
def eof (p : Place) : Item := token ⟨.eof, "", none, p.line, .point p.offset⟩

/-- The item for a piece that stands between two places. -/
def ofPiece (p q : Place) : Piece → Item
  | .lexeme kind text literal => token ⟨kind, String.ofList text, literal, q.line, p.span q⟩
  | .unexpected c => error ⟨.unexpectedCharacter c, q.line, p.span q⟩
  | .unterminated _ => error ⟨.unterminatedString, q.line, p.span q⟩

end Item

/-- A place in a text with what is still to be read. A scanner that has yielded the end to a reader
who stops there is finished. -/
structure Scanner where
  place : Place := .start
  rest : List Char
  finished : Bool := false
  deriving Inhabited

namespace Scanner

def ofText (s : String) : Scanner where
  rest := s.toList

/-- The next item. At the end of the text it is the same end every time. -/
def pull (s : Scanner) : Item × Scanner :=
  let (gap, rest) := Layout.split false s.rest
  let start := s.place.after gap
  match rest with
  | [] => (.eof start, { s with place := start, rest := [] })
  | c :: cs =>
    let (piece, rest) := Piece.first c cs
    let stop := start.after piece.text
    (.ofPiece start stop piece, { s with place := stop, rest })

/-- The next item, or none once the end has been yielded here. -/
def next? (s : Scanner) : Option Item × Scanner :=
  if s.finished then (none, s)
  else
    let (item, s) := s.pull
    (some item, { s with finished := item.isEof })

/-- The items of a text that begins at `p`, up to its end. -/
def items (p : Place) (cs : List Char) : List Item :=
  let start := p.after (Layout.split false cs).1
  match _behind : (Layout.split false cs).2 with
  | [] => [.eof start]
  | c :: cs' =>
    let stop := start.after (Piece.first c cs').1.text
    .ofPiece start stop (Piece.first c cs').1 :: items stop (Piece.first c cs').2
termination_by cs.length
decreasing_by
  have h₁ := Piece.first_length_lt c cs'
  have h₂ := Layout.split_length_le false cs
  rw [_behind] at h₂
  omega

/-- All items that a reader who stops at the end still gets. -/
def drain (s : Scanner) : List Item := if s.finished then [] else items s.place s.rest

end Scanner

/-- The items of a text. -/
def scan (s : String) : List Item := (Scanner.ofText s).drain

end Lox
