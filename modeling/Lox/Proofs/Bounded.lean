import Lox.Fault
import Lox.Proofs.Munch
import Lox.Proofs.Slice
import Mathlib.Algebra.Ring.Nat

/-!
# Scanning with 32 bits

Here the scanner counts bytes and lines in 32 bits, one character at a time, and takes the value of
a token out of its lexeme. Each of these steps can go wrong, and then the scan panics. On a text of
fewer than 2³² - 1 bytes none does, and the items are the same.
-/

namespace Lox.Bounded

/-! ## The scan -/

inductive Panic where
  | overflow
  | notANumber (text : List Char)
  | badSlice (text : List Char)
  deriving DecidableEq, Repr

def add (a b : UInt32) : Except Panic UInt32 :=
  if a.toNat + b.toNat < 2 ^ 32 then .ok (a + b) else .error .overflow

/-- Where a reader with counters of 32 bits stands. -/
structure Counters where
  offset : UInt32
  line : UInt32
  deriving DecidableEq, Repr

namespace Counters

def place (p : Counters) : Place := ⟨p.offset.toNat, p.line.toNat⟩

@[simp] theorem offset_place (p : Counters) : p.place.offset = p.offset.toNat := rfl

@[simp] theorem line_place (p : Counters) : p.place.line = p.line.toNat := rfl

def step (p : Counters) (c : Char) : Except Panic Counters := do
  let offset ← add p.offset (.ofNat c.utf8Size)
  let line ← add p.line (if c = '\n' then 1 else 0)
  return ⟨offset, line⟩

def after (p : Counters) (cs : List Char) : Except Panic Counters := cs.foldlM step p

end Counters

/-- The value of a token. A number is read from the whole lexeme, and a string is what stands
between the first byte of it and the last. -/
def literal : Kind → List Char → Except Panic (Option Value)
  | .number, w =>
    match Lexical.readNumeral? w with
    | some x => .ok (some (.number x))
    | none => .error (.notANumber w)
  | .string, w =>
    match slice? w ⟨1, byteLength w - 1⟩ with
    | some body => .ok (some (.string (String.ofList body)))
    | none => .error (.badSlice w)
  | _, _ => .ok none

def item (p q : Counters) : Piece → Except Panic Item
  | .lexeme kind text _ => do
    let value ← literal kind text
    return .token ⟨kind, String.ofList text, value, q.line.toNat, p.place.span q.place⟩
  | .unexpected c => .ok (.error ⟨.unexpectedCharacter c, q.line.toNat, p.place.span q.place⟩)
  | .unterminated _ => .ok (.error ⟨.unterminatedString, q.line.toNat, p.place.span q.place⟩)

def items (p : Counters) (cs : List Char) : Except Panic (List Item) :=
  match _behind : (Layout.split false cs).2 with
  | [] => do
    let start ← p.after (Layout.split false cs).1
    return [.eof start.place]
  | c :: cs' => do
    let start ← p.after (Layout.split false cs).1
    let stop ← start.after (Piece.first c cs').1.text
    let first ← item start stop (Piece.first c cs').1
    let rest ← items stop (Piece.first c cs').2
    return first :: rest
termination_by cs.length
decreasing_by
  have h₁ := Piece.first_length_lt c cs'
  have h₂ := Layout.split_length_le false cs
  rw [_behind] at h₂
  omega

def scan (src : String) : Except Panic (List Item) := items ⟨0, 1⟩ src.toList

/-! ## Counting -/

theorem add_eq_ok_iff (a b c : UInt32) : add a b = .ok c ↔ c.toNat = a.toNat + b.toNat := by
  unfold add
  by_cases h : a.toNat + b.toNat < 2 ^ 32
  · rw [if_pos h, Except.ok.injEq, ← UInt32.toNat_inj, UInt32.toNat_add, Nat.mod_eq_of_lt h]
    exact eq_comm
  · have hc := c.toNat_lt
    rw [if_neg h]
    simp only [reduceCtorEq, false_iff]
    omega

theorem step_eq_ok_iff (p q : Counters) (c : Char) :
    p.step c = .ok q ↔ q.place = p.place.after [c] := by
  have hsize : (UInt32.ofNat c.utf8Size).toNat = c.utf8Size := by
    have := c.utf8Size_le_four
    rw [UInt32.toNat_ofNat']
    omega
  have hline : (if c = '\n' then 1 else 0 : UInt32).toNat = lineFeeds [c] := by
    by_cases hc : c = '\n' <;> simp [hc, lineFeeds]
  obtain ⟨offset, line⟩ := q
  unfold Counters.step
  simp only [bind_eq_ok_iff, add_eq_ok_iff, hsize, hline, Counters.place, Place.after, pure,
    Except.pure, Except.ok.injEq, Counters.mk.injEq, Place.mk.injEq, byteLength_cons,
    byteLength_nil, Nat.add_zero]
  constructor
  · rintro ⟨a, ha, b, hb, rfl, rfl⟩
    exact ⟨ha, hb⟩
  · rintro ⟨ha, hb⟩
    exact ⟨offset, ha, line, hb, rfl, rfl⟩

theorem exists_counters (p : Place) (ho : p.offset < 2 ^ 32) (hl : p.line < 2 ^ 32) :
    ∃ q : Counters, q.place = p := by
  refine ⟨⟨.ofNat p.offset, .ofNat p.line⟩, ?_⟩
  unfold Counters.place
  rw [UInt32.toNat_ofNat', UInt32.toNat_ofNat', Nat.mod_eq_of_lt ho, Nat.mod_eq_of_lt hl]

theorem place_inj (p q : Counters) (h : p.place = q.place) : p = q := by
  obtain ⟨a, b⟩ := p
  obtain ⟨c, d⟩ := q
  simpa [Counters.place, UInt32.toNat_inj] using h

theorem place_eq_after_iff (p q : Counters) (cs : List Char) :
    q.place = p.place.after cs ↔ q.offset.toNat = p.offset.toNat + byteLength cs ∧
      q.line.toNat = p.line.toNat + lineFeeds cs := by
  simp [Counters.place, Place.after]

theorem after_eq_ok_iff (p q : Counters) (cs : List Char) :
    p.after cs = .ok q ↔ q.place = p.place.after cs := by
  induction cs generalizing p with
  | nil =>
    simp only [Counters.after, List.foldlM_nil, pure, Except.pure, Except.ok.injEq,
      Place.after_nil]
    exact ⟨fun h => by rw [h], fun h => (place_inj q p h).symm⟩
  | cons c cs ih =>
    have hsplit : p.place.after (c :: cs) = (p.place.after [c]).after cs :=
      Place.after_append p.place [c] cs
    have hcons : p.after (c :: cs) = p.step c >>= fun r => r.after cs := by
      simp only [Counters.after, List.foldlM_cons]
    rw [hcons, bind_eq_ok_iff, hsplit]
    constructor
    · rintro ⟨r, hr, hq⟩
      rw [← (step_eq_ok_iff p r c).mp hr]
      exact (ih r).mp hq
    · intro hq
      -- Both counters only grow, so they fit here if they fit at the end.
      have hplace := hq
      rw [← Place.after_append, place_eq_after_iff, byteLength_append, lineFeeds_append] at hplace
      have ho := q.offset.toNat_lt
      have hl := q.line.toNat_lt
      obtain ⟨r, hr⟩ := exists_counters (p.place.after [c])
        (by rw [Place.offset_after, Counters.offset_place]; omega)
        (by rw [Place.line_after, Counters.line_place]; omega)
      refine ⟨r, (step_eq_ok_iff p r c).mpr hr, (ih r).mpr ?_⟩
      rw [hr, hq]

theorem after_ok (p : Counters) (cs : List Char) (ho : p.offset.toNat + byteLength cs < 2 ^ 32)
    (hl : p.line.toNat + lineFeeds cs < 2 ^ 32) :
    ∃ q, p.after cs = .ok q ∧ q.place = p.place.after cs := by
  obtain ⟨q, hq⟩ := exists_counters (p.place.after cs) ho hl
  exact ⟨q, (after_eq_ok_iff p q cs).mpr hq, hq⟩

/-! ## Reading values -/

theorem slice?_quoted (body : List Char) :
    slice? ('"' :: body ++ ['"']) ⟨1, byteLength ('"' :: body ++ ['"']) - 1⟩ = some body := by
  have hquote : '"'.utf8Size = 1 := by decide
  have hslice := slice?_of_eq ('"' :: body ++ ['"']) ['"'] body ['"'] rfl
  simp only [byteLength_append, byteLength_cons, byteLength_nil, hquote] at hslice ⊢
  exact hslice

theorem literal_ok (k : Kind) (w : List Char) (h : Lexical.Lexeme k w) :
    literal k w = .ok (Lexical.literalOf k w) := by
  cases h with
  | sign _ _ h =>
    have htable : ∀ p ∈ Lexical.signs, literal p.2 p.1 = .ok (Lexical.literalOf p.2 p.1) := by decide
    exact htable (w, k) h
  | string _ h =>
    obtain ⟨body, hbody, rfl⟩ := h
    simp only [literal, slice?_quoted, Lexical.literalOf]
    simp
  | number _ h =>
    obtain ⟨x, hx⟩ := Lexical.readNumeral?_isNumeral w h
    simp only [literal, hx, Lexical.literalOf, Option.map_some]
  | reserved w k h => rfl
  | identifier _ hw h => rfl

theorem item_ok (p q : Counters) (c : Char) (cs : List Char) :
    item p q (Piece.first c cs).1 = .ok (.ofPiece p.place q.place (Piece.first c cs).1) := by
  have htakes := Lexical.first_takes c cs
  cases hpiece : (Piece.first c cs).1 with
  | lexeme k w v =>
    rw [hpiece] at htakes
    obtain ⟨hk, rfl, -⟩ := htakes
    simp only [item, literal_ok k w hk]
    rfl
  | unexpected d => rfl
  | unterminated w => rfl

/-! ## The whole scan -/

theorem items_ok (p : Place) (cs : List Char) (q : Counters) (hq : q.place = p)
    (ho : p.offset + byteLength cs < 2 ^ 32) (hl : p.line + lineFeeds cs < 2 ^ 32) :
    items q cs = .ok (Scanner.items p cs) := by
  fun_induction Scanner.items p cs generalizing q with
  | case1 p cs start hrest =>
    have hsplit := Layout.split_append false cs
    subst hq
    rw [← hsplit, byteLength_append] at ho
    rw [← hsplit, lineFeeds_append] at hl
    simp only [Counters.offset_place, Counters.line_place] at ho hl
    obtain ⟨r, hr, hplace⟩ := after_ok q (Layout.split false cs).1 (by omega) (by omega)
    rw [items]
    split
    · rw [hr]
      exact congrArg (fun p => Except.ok [Item.eof p]) hplace
    · rename_i c' cs'' hcons
      rw [hrest] at hcons
      cases hcons
  | case2 p cs start c cs' hrest stop ih =>
    have hsplit := Layout.split_append false cs
    have hfirst := Piece.first_append c cs'
    subst hq
    rw [hrest, ← hfirst] at hsplit
    rw [← hsplit] at ho hl
    simp only [byteLength_append, lineFeeds_append, Counters.offset_place,
      Counters.line_place] at ho hl
    obtain ⟨r, hr, hstart⟩ := after_ok q (Layout.split false cs).1 (by omega) (by omega)
    have hfit := (place_eq_after_iff _ _ _).mp hstart
    obtain ⟨t, ht, hstop⟩ := after_ok r (Piece.first c cs').1.text (by omega) (by omega)
    have htail := ih t (by rw [hstop, hstart])
      (by simp only [stop, start, Place.offset_after, Counters.offset_place]; omega)
      (by simp only [stop, start, Place.line_after, Counters.line_place]; omega)
    rw [items]
    split
    · rename_i hnil
      rw [hrest] at hnil
      cases hnil
    · rename_i c'' cs'' hcons
      obtain ⟨rfl, rfl⟩ := List.cons.inj (hrest.symm.trans hcons)
      simp only [bind_eq_ok_iff]
      refine ⟨r, hr, t, ht, _, item_ok r t c cs', _, htail, ?_⟩
      rw [hstop, hstart]
      rfl

theorem items_fit (q : Counters) (cs : List Char) (l : List Item) (h : items q cs = .ok l) :
    q.offset.toNat + byteLength cs < 2 ^ 32 ∧ q.line.toNat + lineFeeds cs < 2 ^ 32 := by
  fun_induction items q cs generalizing l with
  | case1 q cs hrest =>
    obtain ⟨r, hr, -⟩ := (bind_eq_ok_iff _ _ _).mp h
    have hplace := (after_eq_ok_iff _ _ _).mp hr
    have hsplit := Layout.split_append false cs
    rw [hrest, List.append_nil] at hsplit
    rw [hsplit, place_eq_after_iff] at hplace
    have ho := r.offset.toNat_lt
    have hl := r.line.toNat_lt
    omega
  | case2 q cs c cs' hrest ih =>
    simp only [bind_eq_ok_iff] at h
    obtain ⟨r, hr, t, ht, -, -, tail, htail, -⟩ := h
    have hplace := (after_eq_ok_iff _ _ _).mp ht
    rw [(after_eq_ok_iff _ _ _).mp hr, ← Place.after_append, place_eq_after_iff] at hplace
    have hsplit := Layout.split_append false cs
    rw [hrest, ← Piece.first_append c cs', ← List.append_assoc] at hsplit
    have hfit := ih t tail htail
    rw [← hsplit, byteLength_append, lineFeeds_append]
    omega

/-- The scan panics exactly if the counters cannot reach the end of the text. -/
theorem scan_eq_ok_iff (src : String) (l : List Item) :
    scan src = .ok l ↔ src.utf8ByteSize < 2 ^ 32 ∧ 1 + lineFeeds src.toList < 2 ^ 32 ∧
      l = Lox.scan src := by
  have hok (ho : byteLength src.toList < 2 ^ 32) (hl : 1 + lineFeeds src.toList < 2 ^ 32) :
      scan src = .ok (Lox.scan src) :=
    items_ok .start src.toList ⟨0, 1⟩ rfl (by rwa [Place.start, Nat.zero_add]) hl
  rw [utf8ByteSize_eq]
  constructor
  · intro h
    obtain ⟨ho, hl⟩ := items_fit _ _ l h
    simp only [UInt32.toNat_zero, UInt32.toNat_one, Nat.zero_add] at ho hl
    rw [hok ho hl] at h
    cases h
    exact ⟨ho, hl, rfl⟩
  · rintro ⟨ho, hl, rfl⟩
    exact hok ho hl

theorem scan_ok (src : String) (h : src.utf8ByteSize < 2 ^ 32 - 1) :
    scan src = .ok (Lox.scan src) := by
  -- There are at most as many lines to count as bytes, and one.
  have hfeeds := lineFeeds_le_byteLength src.toList
  have hbytes := utf8ByteSize_eq src
  rw [scan_eq_ok_iff]
  exact ⟨by omega, by omega, rfl⟩

end Lox.Bounded
