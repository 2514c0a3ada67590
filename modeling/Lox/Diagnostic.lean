import Lox.Diagnostic.Snippet

/-!
# Diagnostics

A report in the form in which it is shown: a title, the place in the text if it has one, and a line
of its own.
-/

namespace Lox

structure Location where
  src : String
  path : String
  label : Option String
  span : Span
  deriving DecidableEq, Repr, Inhabited

structure Diagnostic where
  title : String
  text : String
  location : Option Location
  deriving DecidableEq, Repr, Inhabited

namespace Diagnostic

/-- The title above a snippet. -/
def header (title : String) : Paint :=
  [.style { bold := true, colour := some .brightRed }, .text "error", .style { bold := true },
    .text (": " ++ title), .style {}, .text "\n"]

/-- The title where there is no snippet. -/
def bareHeader (title : String) : Paint :=
  [.style { bold := true, colour := some .red }, .text "error", .style { bold := true },
    .text (": " ++ title ++ "\n\n"), .style {}]

def paint (d : Diagnostic) : Paint :=
  let top := match d.location with
    | some l => header d.title ++ Snippet.render l.src l.path l.span l.label
    | none => bareHeader d.title
  top ++ .plain (if d.text = "" then "" else d.text ++ "\n")

end Diagnostic

end Lox
