/-!
# Places and spans

Offsets count the bytes of the UTF-8 form of a text, lines count from one. A `Place` is where a
reader stands, a `Span` is the stretch between two offsets.
-/

namespace Lox

/-- A stretch of text, from byte `start` up to but not including byte `stop`. -/
structure Span where
  start : Nat
  stop : Nat
  deriving DecidableEq, Repr, Inhabited

namespace Span

/-- The empty stretch at one offset. -/
def point (offset : Nat) : Span := ⟨offset, offset⟩

def isPoint (s : Span) : Bool := s.start == s.stop

/-- The number of bytes covered; a span that ends before it starts covers none. -/
def length (s : Span) : Nat := s.stop - s.start

/-- Both ends, moved back to `bound` if they lie beyond it. -/
def clamp (bound : Nat) (s : Span) : Span := ⟨min s.start bound, min s.stop bound⟩

/-- The same stretch, `n` bytes further on. -/
def shift (n : Nat) (s : Span) : Span := ⟨s.start + n, s.stop + n⟩

def text (s : Span) : String := toString s.start ++ ".." ++ toString s.stop

end Span

/-- The number of bytes that the UTF-8 form of some characters takes. -/
def byteLength (cs : List Char) : Nat := cs.foldr (fun c n => c.utf8Size + n) 0

@[simp] theorem byteLength_nil : byteLength [] = 0 := rfl

@[simp] theorem byteLength_cons (c : Char) (cs : List Char) :
    byteLength (c :: cs) = c.utf8Size + byteLength cs := rfl

@[simp] theorem byteLength_append (a b : List Char) :
    byteLength (a ++ b) = byteLength a + byteLength b := by
  induction a with
  | nil => simp
  | cons c a ih => simp [ih, Nat.add_assoc]

theorem utf8ByteSize_ofList (cs : List Char) : (String.ofList cs).utf8ByteSize = byteLength cs := by
  induction cs with
  | nil => rfl
  | cons c cs ih =>
    rw [String.ofList_cons, String.utf8ByteSize_append, String.utf8ByteSize_singleton, ih,
      byteLength_cons]

theorem utf8ByteSize_eq (s : String) : s.utf8ByteSize = byteLength s.toList := by
  rw [← utf8ByteSize_ofList, String.ofList_toList]

/-- The number of line feeds among some characters. -/
def lineFeeds (cs : List Char) : Nat := cs.count '\n'

theorem lineFeeds_append (a b : List Char) : lineFeeds (a ++ b) = lineFeeds a + lineFeeds b :=
  List.count_append

theorem lineFeeds_le_byteLength (cs : List Char) : lineFeeds cs ≤ byteLength cs := by
  induction cs with
  | nil => exact Nat.le_refl 0
  | cons c cs ih =>
    have hpos := c.utf8Size_pos
    have hcons : lineFeeds (c :: cs) ≤ lineFeeds cs + 1 := by
      unfold lineFeeds
      rw [List.count_cons]
      split <;> omega
    rw [byteLength_cons]
    omega

/-- Where a reader stands: the byte offset, and the line that it is on. -/
structure Place where
  offset : Nat
  line : Nat
  deriving DecidableEq, Repr, Inhabited

namespace Place

/-- The front of a text. -/
def start : Place := ⟨0, 1⟩

/-- The place behind some characters that begin here. -/
def after (p : Place) (cs : List Char) : Place :=
  ⟨p.offset + byteLength cs, p.line + lineFeeds cs⟩

/-- The stretch from `p` to `q`. -/
def span (p q : Place) : Span := ⟨p.offset, q.offset⟩

@[simp] theorem offset_after (p : Place) (cs : List Char) :
    (p.after cs).offset = p.offset + byteLength cs := rfl

@[simp] theorem line_after (p : Place) (cs : List Char) :
    (p.after cs).line = p.line + lineFeeds cs := rfl

@[simp] theorem after_nil (p : Place) : p.after [] = p := rfl

theorem after_append (p : Place) (a b : List Char) : p.after (a ++ b) = (p.after a).after b := by
  simp [after, lineFeeds, Nat.add_assoc]

end Place

end Lox
