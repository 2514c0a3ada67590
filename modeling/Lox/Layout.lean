/-!
# Layout

Blanks and line comments stand between lexemes and mean nothing. A comment runs from two slashes up
to the next line feed, which is a blank, or to the end of the text.
-/

namespace Lox.Layout

def isBlank (c : Char) : Bool := c == ' ' || c == '\t' || c == '\r' || c == '\n'

/-- Whether a comment begins with `c`, given what follows it. -/
def opensComment (c : Char) (cs : List Char) : Bool := c == '/' && cs.head? == some '/'

/-- The layout at the front of a text and what is behind it. The flag says that the text begins
inside a comment. -/
def split (inComment : Bool) : List Char → List Char × List Char
  | [] => ([], [])
  | c :: cs =>
    if inComment then
      let (gap, rest) := split (c != '\n') cs
      (c :: gap, rest)
    else if isBlank c then
      let (gap, rest) := split false cs
      (c :: gap, rest)
    else if opensComment c cs then
      let (gap, rest) := split true cs
      (c :: gap, rest)
    else ([], c :: cs)

theorem split_append (b : Bool) (cs : List Char) : (split b cs).1 ++ (split b cs).2 = cs := by
  induction cs generalizing b with
  | nil => rfl
  | cons c cs ih =>
    simp only [split]
    split
    · simp [ih]
    · split
      · simp [ih]
      · split <;> simp [ih]

theorem split_length_le (b : Bool) (cs : List Char) : (split b cs).2.length ≤ cs.length := by
  have h := congrArg List.length (split_append b cs)
  simp at h
  omega

end Lox.Layout
