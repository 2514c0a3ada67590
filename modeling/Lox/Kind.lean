/-!
# Kinds of token
-/

namespace Lox

/-- The reserved words. -/
inductive Keyword where
  | kwAnd
  | kwClass
  | kwElse
  | kwFalse
  | kwFun
  | kwFor
  | kwIf
  | kwNil
  | kwOr
  | kwPrint
  | kwReturn
  | kwSuper
  | kwThis
  | kwTrue
  | kwVar
  | kwWhile
  deriving DecidableEq, Repr, Inhabited

namespace Keyword

/-- How the word is spelled. -/
def word : Keyword → String
  | kwAnd => "and"
  | kwClass => "class"
  | kwElse => "else"
  | kwFalse => "false"
  | kwFun => "fun"
  | kwFor => "for"
  | kwIf => "if"
  | kwNil => "nil"
  | kwOr => "or"
  | kwPrint => "print"
  | kwReturn => "return"
  | kwSuper => "super"
  | kwThis => "this"
  | kwTrue => "true"
  | kwVar => "var"
  | kwWhile => "while"

def all : List Keyword :=
  [kwAnd, kwClass, kwElse, kwFalse, kwFun, kwFor, kwIf, kwNil, kwOr, kwPrint, kwReturn, kwSuper,
    kwThis, kwTrue, kwVar, kwWhile]

/-- The reserved word with this spelling. Case matters. -/
def ofWord? (w : String) : Option Keyword := all.find? (·.word == w)

/-- What the word is called in a listing of tokens. -/
def name : Keyword → String
  | kwAnd => "AND"
  | kwClass => "CLASS"
  | kwElse => "ELSE"
  | kwFalse => "FALSE"
  | kwFun => "FUN"
  | kwFor => "FOR"
  | kwIf => "IF"
  | kwNil => "NIL"
  | kwOr => "OR"
  | kwPrint => "PRINT"
  | kwReturn => "RETURN"
  | kwSuper => "SUPER"
  | kwThis => "THIS"
  | kwTrue => "TRUE"
  | kwVar => "VAR"
  | kwWhile => "WHILE"

/-- The words that a statement may begin with. Recovery from an error stops in front of them. -/
def startsStatement : Keyword → Bool
  | kwClass | kwFun | kwVar | kwFor | kwIf | kwWhile | kwPrint | kwReturn => true
  | _ => false

end Keyword

/-- The kinds of token. -/
inductive Kind where
  | leftParen
  | rightParen
  | leftBrace
  | rightBrace
  | comma
  | dot
  | minus
  | plus
  | semicolon
  | slash
  | star
  | bang
  | bangEqual
  | equal
  | equalEqual
  | greater
  | greaterEqual
  | less
  | lessEqual
  | identifier
  | string
  | number
  | keyword (w : Keyword)
  | eof
  deriving DecidableEq, Repr, Inhabited

namespace Kind

/-- What the kind is called in a listing of tokens. -/
def name : Kind → String
  | leftParen => "LEFT_PAREN"
  | rightParen => "RIGHT_PAREN"
  | leftBrace => "LEFT_BRACE"
  | rightBrace => "RIGHT_BRACE"
  | comma => "COMMA"
  | dot => "DOT"
  | minus => "MINUS"
  | plus => "PLUS"
  | semicolon => "SEMICOLON"
  | slash => "SLASH"
  | star => "STAR"
  | bang => "BANG"
  | bangEqual => "BANG_EQUAL"
  | equal => "EQUAL"
  | equalEqual => "EQUAL_EQUAL"
  | greater => "GREATER"
  | greaterEqual => "GREATER_EQUAL"
  | less => "LESS"
  | lessEqual => "LESS_EQUAL"
  | identifier => "IDENTIFIER"
  | string => "STRING"
  | number => "NUMBER"
  | keyword w => w.name
  | eof => "EOF"

def isReserved : Kind → Bool
  | keyword _ => true
  | _ => false

def startsStatement : Kind → Bool
  | keyword w => w.startsStatement
  | _ => false

/-- The kind of a word: reserved words are keywords, all others are identifiers. -/
def ofWord (w : String) : Kind :=
  match Keyword.ofWord? w with
  | some k => keyword k
  | none => identifier

/-- The kind of a sign that is one character long. -/
def ofSign? : Char → Option Kind
  | '(' => some leftParen
  | ')' => some rightParen
  | '\x7b' => some leftBrace
  | '\x7d' => some rightBrace
  | ',' => some comma
  | '.' => some dot
  | '-' => some minus
  | '+' => some plus
  | ';' => some semicolon
  | '/' => some slash
  | '*' => some star
  | '!' => some bang
  | '=' => some equal
  | '>' => some greater
  | '<' => some less
  | _ => none

/-- The kind of a sign that is this character and an equals sign. -/
def ofSignEqual? : Char → Option Kind
  | '!' => some bangEqual
  | '=' => some equalEqual
  | '>' => some greaterEqual
  | '<' => some lessEqual
  | _ => none

end Kind

end Lox
