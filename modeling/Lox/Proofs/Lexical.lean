import Lox.Scan

/-!
# The lexical grammar

What a lexeme is, what may stand between lexemes, and which items a text has: skip the layout, take
the longest lexeme, go on behind it. Nothing here says how the longest lexeme is found.
`Munch.lean` shows that the scanner yields exactly these items.
-/

namespace Lox.Lexical

/-! ## Lexemes -/

/-- The signs, of one character or two. -/
def signs : List (List Char × Kind) :=
  [(['('], .leftParen), ([')'], .rightParen), (['\x7b'], .leftBrace), (['\x7d'], .rightBrace),
    ([','], .comma), (['.'], .dot), (['-'], .minus), (['+'], .plus), ([';'], .semicolon),
    (['/'], .slash), (['*'], .star), (['!'], .bang), (['!', '='], .bangEqual), (['='], .equal),
    (['=', '='], .equalEqual), (['>'], .greater), (['>', '='], .greaterEqual), (['<'], .less),
    (['<', '='], .lessEqual)]

/-- The sixteen reserved words. -/
def reservedWords : List (String × Keyword) :=
  [("and", .kwAnd), ("class", .kwClass), ("else", .kwElse), ("false", .kwFalse), ("for", .kwFor),
    ("fun", .kwFun), ("if", .kwIf), ("nil", .kwNil), ("or", .kwOr), ("print", .kwPrint),
    ("return", .kwReturn), ("super", .kwSuper), ("this", .kwThis), ("true", .kwTrue),
    ("var", .kwVar), ("while", .kwWhile)]

/-- One digit or more. -/
def IsDigits (w : List Char) : Prop := w ≠ [] ∧ ∀ c ∈ w, c.isDigit = true

/-- Digits, or digits, a point and more digits. -/
def IsNumeral (w : List Char) : Prop :=
  IsDigits w ∨ ∃ ds fs, IsDigits ds ∧ IsDigits fs ∧ w = ds ++ '.' :: fs

/-- A quote, anything but quotes, and a quote. -/
def IsQuoted (w : List Char) : Prop := ∃ body, '"' ∉ body ∧ w = '"' :: body ++ ['"']

/-- A letter, and then letters and digits. -/
def IsWord : List Char → Prop
  | [] => False
  | c :: cs => isLetter c = true ∧ ∀ d ∈ cs, isWordChar d = true

/-- The texts of each kind of token. The end of a text has none. -/
inductive Lexeme : Kind → List Char → Prop
  | sign (w : List Char) (k : Kind) (h : (w, k) ∈ signs) : Lexeme k w
  | string (w : List Char) (h : IsQuoted w) : Lexeme .string w
  | number (w : List Char) (h : IsNumeral w) : Lexeme .number w
  | reserved (w : String) (k : Keyword) (h : (w, k) ∈ reservedWords) :
      Lexeme (.keyword k) w.toList
  | identifier (w : List Char) (hw : IsWord w)
      (h : ∀ k, (String.ofList w, k) ∉ reservedWords) : Lexeme .identifier w

/-- The number that a text is read as, if it is a numeral. -/
def readNumeral? (w : List Char) : Option Float :=
  let whole := w.takeWhile Char.isDigit
  match w.dropWhile Char.isDigit with
  | [] => if whole = [] then none else some (Number.ofDigits whole [])
  | c :: fs =>
    if whole ≠ [] ∧ c = '.' ∧ fs ≠ [] ∧ fs.all Char.isDigit then some (Number.ofDigits whole fs)
    else none

/-- What a token with this text carries: the number that is read, the text between the quotes, or
nothing. -/
def literalOf : Kind → List Char → Option Value
  | .number, w => (readNumeral? w).map .number
  | .string, w => some (.string (String.ofList w.tail.dropLast))
  | _, _ => none

/-- The longest lexeme that a text begins with. -/
def Longest (cs w : List Char) : Prop :=
  w <+: cs ∧ (∃ k, Lexeme k w) ∧ ∀ k v, Lexeme k v → v <+: cs → v.length ≤ w.length

/-- A text that begins with no lexeme. -/
def NoLexeme (cs : List Char) : Prop := ∀ k v, Lexeme k v → ¬ v <+: cs

/-- A token that stands for the longest lexeme where it begins. -/
structure Munched (cs : List Char) (t : Token) : Prop where
  longest : ∃ before behind, cs = before ++ (t.lexeme.toList ++ behind) ∧
    t.span = ⟨byteLength before, byteLength (before ++ t.lexeme.toList)⟩ ∧
    Longest (t.lexeme.toList ++ behind) t.lexeme.toList
  lexeme : Lexeme t.kind t.lexeme.toList
  reserved : ∀ k, t.kind = .keyword k ↔ (t.lexeme, k) ∈ reservedWords
  identifier : t.kind = .identifier ↔
    IsWord t.lexeme.toList ∧ ∀ k, (t.lexeme, k) ∉ reservedWords
  literal : t.literal.isSome ↔ t.kind = .number ∨ t.kind = .string
  number : t.kind = .number →
    ∃ x, readNumeral? t.lexeme.toList = some x ∧ t.literal = some (.number x)
  string : t.kind = .string → ∃ body, '"' ∉ body ∧ t.lexeme.toList = '"' :: body ++ ['"'] ∧
    t.literal = some (.string (String.ofList body))

/-! ## Layout -/

/-- Blanks and whole line comments. A comment goes up to a line feed, or up to the end of the text
if the flag says that the text ends here. -/
inductive Gap : Bool → List Char → Prop
  | nil (atEnd : Bool) : Gap atEnd []
  | blank (atEnd : Bool) (c : Char) (cs : List Char) (hc : Layout.isBlank c = true)
      (h : Gap atEnd cs) : Gap atEnd (c :: cs)
  | comment (atEnd : Bool) (body cs : List Char) (hb : '\n' ∉ body)
      (h : Gap atEnd ('\n' :: cs)) : Gap atEnd ('/' :: '/' :: body ++ '\n' :: cs)
  | lastComment (body : List Char) (hb : '\n' ∉ body) : Gap true ('/' :: '/' :: body)

/-- A text that begins with a blank or a comment. -/
def BeginsGap (cs : List Char) : Prop :=
  (∃ c ∈ cs.head?, Layout.isBlank c = true) ∨ ['/', '/'] <+: cs

/-! ## Texts -/

/-- The items of a text that begins at a place. -/
inductive Tokenizes : Place → List Char → List Item → Prop
  -- Behind the last layout stands the end.
  | done (p : Place) (gap : List Char) (hg : Gap true gap) :
      Tokenizes p gap [.eof (p.after gap)]
  -- The longest lexeme is a token.
  | token (p : Place) (gap w rest : List Char) (k : Kind) (items : List Item)
      (hg : Gap false gap) (hb : ¬ BeginsGap (w ++ rest)) (hk : Lexeme k w)
      (hw : Longest (w ++ rest) w) (h : Tokenizes ((p.after gap).after w) rest items) :
      Tokenizes p (gap ++ (w ++ rest))
        (.token ⟨k, String.ofList w, literalOf k w, ((p.after gap).after w).line,
          (p.after gap).span ((p.after gap).after w)⟩ :: items)
  -- A quote that begins no lexeme takes the whole rest.
  | unterminated (p : Place) (gap body : List Char) (hg : Gap false gap)
      (hn : NoLexeme ('"' :: body)) :
      Tokenizes p (gap ++ '"' :: body)
        [.error ⟨.unterminatedString, ((p.after gap).after ('"' :: body)).line,
          (p.after gap).span ((p.after gap).after ('"' :: body))⟩,
        .eof ((p.after gap).after ('"' :: body))]
  -- Any other character that begins no lexeme is skipped by itself.
  | unexpected (p : Place) (gap rest : List Char) (c : Char) (items : List Item)
      (hg : Gap false gap) (hb : ¬ BeginsGap (c :: rest)) (hc : c ≠ '"')
      (hn : NoLexeme (c :: rest)) (h : Tokenizes ((p.after gap).after [c]) rest items) :
      Tokenizes p (gap ++ c :: rest)
        (.error ⟨.unexpectedCharacter c, ((p.after gap).after [c]).line,
          (p.after gap).span ((p.after gap).after [c])⟩ :: items)

end Lox.Lexical
