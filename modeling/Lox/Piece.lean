import Lox.Token

/-!
# The pieces of a text

A text without its layout is cut into pieces. A piece is a lexeme, as long as it can be, or what is
taken where no lexeme starts: the whole rest behind a quote that is never closed, or else one
character.
-/

namespace Lox

/-- Letters are those of ASCII and the underscore. -/
def isLetter (c : Char) : Bool := c.isAlpha || c == '_'

def isWordChar (c : Char) : Bool := isLetter c || c.isDigit

inductive Piece where
  | lexeme (kind : Kind) (text : List Char) (literal : Option Value)
  | unexpected (c : Char)
  | unterminated (text : List Char)
  deriving Inhabited

namespace Piece

/-- The characters that the piece takes from the text. -/
def text : Piece → List Char
  | lexeme _ text _ => text
  | unexpected c => [c]
  | unterminated text => text

@[simp] theorem text_lexeme (k : Kind) (t : List Char) (v : Option Value) :
    (lexeme k t v).text = t := rfl

@[simp] theorem text_unexpected (c : Char) : (unexpected c).text = [c] := rfl

@[simp] theorem text_unterminated (t : List Char) : (unterminated t).text = t := rfl

/-- A string begins behind its opening quote. It has no escapes and may run over several lines. -/
def string (cs : List Char) : Piece × List Char :=
  let body := cs.takeWhile (· != '"')
  match cs.dropWhile (· != '"') with
  | [] => (unterminated ('"' :: body), [])
  | quote :: rest =>
    (lexeme .string ('"' :: body ++ [quote]) (some (.string (String.ofList body))), rest)

/-- The digits of a fraction at the front, and what is behind it. A fraction is a point and at
least one digit; a point without digits is left alone. -/
def fraction : List Char → List Char × List Char
  | '.' :: cs =>
    let digits := cs.takeWhile Char.isDigit
    if digits = [] then ([], '.' :: cs) else (digits, cs.dropWhile Char.isDigit)
  | cs => ([], cs)

/-- A fraction as it is written: without digits, it has no point either. -/
def fractionText (digits : List Char) : List Char := if digits = [] then [] else '.' :: digits

/-- A number that begins with the digit `c`. -/
def number (c : Char) (cs : List Char) : Piece × List Char :=
  let whole := c :: cs.takeWhile Char.isDigit
  let (digits, rest) := fraction (cs.dropWhile Char.isDigit)
  (lexeme .number (whole ++ fractionText digits) (some (.number (Number.ofDigits whole digits))),
    rest)

/-- A word that begins with the letter `c`. -/
def word (c : Char) (cs : List Char) : Piece × List Char :=
  let text := c :: cs.takeWhile isWordChar
  (lexeme (.ofWord (String.ofList text)) text none, cs.dropWhile isWordChar)

/-- A sign of one character, or a character that begins no lexeme. -/
def single (c : Char) : Piece :=
  match Kind.ofSign? c with
  | some kind => lexeme kind [c] none
  | none => unexpected c

/-- A sign of two characters if there is one, else a single character. -/
def sign (c : Char) (cs : List Char) : Piece × List Char :=
  match cs, Kind.ofSignEqual? c with
  | '=' :: rest, some kind => (lexeme kind [c, '='] none, rest)
  | _, _ => (single c, cs)

/-- The piece that begins with `c`, and what is behind it. -/
def first (c : Char) (cs : List Char) : Piece × List Char :=
  if c == '"' then string cs
  else if c.isDigit then number c cs
  else if isLetter c then word c cs
  else sign c cs

/-! ## Nothing is lost -/

theorem string_append (cs : List Char) : (string cs).1.text ++ (string cs).2 = '"' :: cs := by
  have h := List.takeWhile_append_dropWhile (p := (· != '"')) (l := cs)
  unfold string
  split
  · rename_i h0
    rw [h0] at h
    simpa using h
  · rename_i quote rest h1
    rw [h1] at h
    simpa using h

theorem fraction_append (cs : List Char) :
    fractionText (fraction cs).1 ++ (fraction cs).2 = cs := by
  unfold fraction
  split
  · rename_i cs
    by_cases h : cs.takeWhile Char.isDigit = [] <;> simp [h, fractionText]
  · rfl

theorem number_append (c : Char) (cs : List Char) :
    (number c cs).1.text ++ (number c cs).2 = c :: cs := by
  simp [number, fraction_append]

theorem word_append (c : Char) (cs : List Char) :
    (word c cs).1.text ++ (word c cs).2 = c :: cs := by
  simp [word]

@[simp] theorem single_text (c : Char) : (single c).text = [c] := by
  unfold single
  split <;> rfl

theorem sign_append (c : Char) (cs : List Char) :
    (sign c cs).1.text ++ (sign c cs).2 = c :: cs := by
  unfold sign
  split
  · rfl
  · simp

theorem first_append (c : Char) (cs : List Char) :
    (first c cs).1.text ++ (first c cs).2 = c :: cs := by
  unfold first
  split
  · rename_i h
    rw [string_append, eq_of_beq h]
  · split
    · exact number_append c cs
    · split
      · exact word_append c cs
      · exact sign_append c cs

theorem first_text_ne_nil (c : Char) (cs : List Char) : (first c cs).1.text ≠ [] := by
  unfold first string number word sign
  repeat' split
  all_goals simp

theorem first_length_lt (c : Char) (cs : List Char) :
    (first c cs).2.length < (c :: cs).length := by
  have h := congrArg List.length (first_append c cs)
  have h0 := List.length_pos_iff.2 (first_text_ne_nil c cs)
  rw [List.length_append] at h
  omega

end Piece

end Lox
