/-!
# Alignment
-/

namespace Lox.Text

def spaces (n : Nat) : String := String.ofList (List.replicate n ' ')

/-- A text right-aligned to some columns, each character taking one. -/
def padLeft (columns : Nat) (s : String) : String := spaces (columns - s.length) ++ s

end Lox.Text
