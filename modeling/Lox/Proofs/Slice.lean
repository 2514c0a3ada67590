import Lox.Span

/-!
# Cutting a text at byte offsets

An offset is good for a cut only if it lies between two characters of the text, or at an end of it.
-/

namespace Lox

/-- The characters in front of a byte offset and those behind it. -/
def cut? : Nat → List Char → Option (List Char × List Char)
  | 0, cs => some ([], cs)
  | _ + 1, [] => none
  | n + 1, c :: cs =>
    if c.utf8Size ≤ n + 1 then (cut? (n + 1 - c.utf8Size) cs).map fun (a, b) => (c :: a, b)
    else none

/-- The characters of a span. -/
def slice? (cs : List Char) (s : Span) : Option (List Char) :=
  if s.start ≤ s.stop then
    (cut? s.start cs).bind fun (_, rest) => (cut? (s.stop - s.start) rest).map Prod.fst
  else none

theorem cut?_append (a b : List Char) : cut? (byteLength a) (a ++ b) = some (a, b) := by
  induction a with
  | nil => rw [byteLength_nil, cut?, List.nil_append]
  | cons c a ih =>
    have hpos := c.utf8Size_pos
    obtain ⟨n, hn⟩ : ∃ n, byteLength (c :: a) = n + 1 := ⟨byteLength (c :: a) - 1, by simp; omega⟩
    have hrest : n + 1 - c.utf8Size = byteLength a := by
      rw [← hn, byteLength_cons]
      omega
    rw [hn, List.cons_append, cut?, if_pos (by rw [← hn, byteLength_cons]; omega), hrest, ih]
    rfl

theorem slice?_of_eq (cs a w b : List Char) (h : cs = a ++ (w ++ b)) :
    slice? cs ⟨byteLength a, byteLength (a ++ w)⟩ = some w := by
  have hlen : byteLength (a ++ w) - byteLength a = byteLength w := by simp
  simp only [h, slice?, cut?_append, Option.bind_some, hlen, Option.map_some]
  rw [if_pos (by simp)]

theorem slice?_end (cs : List Char) : slice? cs ⟨byteLength cs, byteLength cs⟩ = some [] := by
  simpa using slice?_of_eq cs cs [] [] (by simp)

theorem byteLength_pos (cs : List Char) (h : cs ≠ []) : 0 < byteLength cs := by
  obtain ⟨c, cs, rfl⟩ := List.exists_cons_of_ne_nil h
  have := c.utf8Size_pos
  rw [byteLength_cons]
  omega

end Lox
