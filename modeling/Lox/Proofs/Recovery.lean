import Lox.Proofs.Cursor
import Mathlib.Order.Bounds.Defs

/-!
# Recovery

A parser that has failed skips to the nearest place where a statement may begin. Parsing and
skipping in turn gets to the end of the tokens, because no round leaves the cursor where it was.
-/

namespace Lox

namespace Parser

open Parse

/-! ## Boundaries -/

def kindAt (ts : List Token) (k : Nat) : Option Kind := ts[k]?.map Token.kind

def statementWords : List Keyword :=
  [.kwClass, .kwFun, .kwVar, .kwFor, .kwIf, .kwWhile, .kwPrint, .kwReturn]

/-- Nothing is left at `k`, or a statement has ended in front of it, or one begins there. -/
def IsBoundary (ts : List Token) (k : Nat) : Prop :=
  kindAt ts k = some .eof ∨ kindAt ts (k - 1) = some .semicolon ∨
    ∃ w ∈ statementWords, kindAt ts k = some (.keyword w)

theorem startsStatement_iff (k : Kind) :
    k.startsStatement = true ↔ ∃ w ∈ statementWords, k = .keyword w := by
  cases k with
  | keyword w =>
    simp only [Kind.startsStatement, Kind.keyword.injEq, exists_eq_right']
    cases w <;> decide
  | _ => simp [Kind.startsStatement]

theorem isBoundary_cons (t : Token) (ts : List Token) (k : Nat) :
    IsBoundary (t :: ts) (k + 2) ↔ IsBoundary ts (k + 1) := by
  simp [IsBoundary, kindAt]

theorem isBoundary_drop (ts : List Token) (i k : Nat) :
    IsBoundary (ts.drop i) (k + 1) ↔ IsBoundary ts (i + k + 1) := by
  simp [IsBoundary, kindAt, List.getElem?_drop, Nat.add_assoc]

theorem isBoundary_one (prev t : Token) (ts : List Token) :
    IsBoundary (prev :: t :: ts) 1 ↔
      (t.isEof || prev.kind == .semicolon || t.kind.startsStatement) = true := by
  simp [IsBoundary, kindAt, Token.isEof, startsStatement_iff, or_assoc]

theorem boundary_least (prev : Token) (ts : List Token) (h : ∃ t ∈ ts, t.kind = .eof) :
    ∃ k, boundary prev ts = ts.drop k ∧ k < ts.length ∧ IsBoundary (prev :: ts) (k + 1) ∧
      ∀ j < k, ¬ IsBoundary (prev :: ts) (j + 1) := by
  induction ts generalizing prev with
  | nil => simp at h
  | cons t ts ih =>
    have hone := isBoundary_one prev t ts
    rw [boundary]
    split
    · rename_i hstop
      exact ⟨0, rfl, by simp, hone.mpr hstop, by simp⟩
    · rename_i hgo
      have hlater : ∃ u ∈ ts, u.kind = .eof := by
        obtain ⟨u, hu, heof⟩ := h
        rcases List.mem_cons.mp hu with rfl | hu
        · simp [Token.isEof, heof] at hgo
        · exact ⟨u, hu, heof⟩
      obtain ⟨k, hdrop, hlt, hbound, hleast⟩ := ih t hlater
      refine ⟨k + 1, hdrop, by simpa using hlt, (isBoundary_cons prev _ k).mpr hbound, ?_⟩
      intro j hj
      cases j with
      | zero => exact fun h => hgo (hone.mp h)
      | succ j => exact fun h => hleast j (by omega) ((isBoundary_cons prev _ j).mp h)

theorem synchronize_least (ts : List Token) (i : Nat) (t : Token) (later : List Token)
    (hdrop : ts.drop i = t :: later) (ht : t.kind ≠ .eof) (hend : ∃ u ∈ later, u.kind = .eof) :
    ∃ k, IsLeast {k | i < k ∧ IsBoundary ts k} k ∧ synchronize ⟨ts, i⟩ = (.ok (), ⟨ts, k⟩) := by
  obtain ⟨k, hskip, hlt, hbound, hleast⟩ := boundary_least t later hend
  have hlength := congrArg List.length hdrop
  rw [List.length_drop, List.length_cons] at hlength
  rw [← hdrop, isBoundary_drop] at hbound
  refine ⟨i + k + 1, ⟨⟨by omega, hbound⟩, ?_⟩, ?_⟩
  · rintro m ⟨hm, hboundary⟩
    by_contra hnot
    obtain ⟨j, rfl⟩ : ∃ j, m = i + j + 1 := ⟨m - i - 1, by omega⟩
    apply hleast j (by omega)
    rwa [← hdrop, isBoundary_drop]
  · have hleft : skip (ts.drop i) = later.drop k := by
      rw [hdrop, skip, if_neg (by simpa [Token.isEof] using ht), hskip]
    rw [synchronize_eq, rest, hleft, if_neg (by simpa using hlt)]
    simp only [moveTo, List.length_drop, Prod.mk.injEq, mk.injEq, true_and]
    omega

theorem synchronize_at_eof (ts : List Token) (i : Nat) (t : Token) (later : List Token)
    (hdrop : ts.drop i = t :: later) (ht : t.kind = .eof) :
    synchronize ⟨ts, i⟩ = (.ok (), ⟨ts, i⟩) := by
  have hlength := congrArg List.length hdrop
  rw [List.length_drop, List.length_cons] at hlength
  have hleft : skip (ts.drop i) = t :: later := by
    rw [hdrop, skip, if_pos (by simpa [Token.isEof] using ht)]
  rw [synchronize_eq, rest, hleft]
  simp only [moveTo, List.isEmpty_cons, Bool.false_eq_true, if_false, List.length_cons,
    Prod.mk.injEq, mk.injEq, true_and]
  omega

/-! ## Lists with one end -/

/-- The last token is the end, and no other one is. -/
def EndsOnce (ts : List Token) : Prop :=
  ∃ front eof, ts = front ++ [eof] ∧ eof.kind = .eof ∧ ∀ t ∈ front, t.kind ≠ .eof

section

variable (front : List Token) (eof : Token) (heof : eof.kind = .eof)
  (honce : ∀ t ∈ front, t.kind ≠ .eof) (i : Nat)

theorem drop_ended (hi : i < front.length) :
    (front ++ [eof]).drop i = front[i] :: (front.drop (i + 1) ++ [eof]) := by
  rw [List.drop_append_of_le_length hi.le, List.drop_eq_getElem_cons hi, List.cons_append]

include honce in
theorem isAtEnd_inside (hi : i < front.length) : isAtEnd ⟨front ++ [eof], i⟩ = .ok false := by
  simp only [isAtEnd, peek, rest, drop_ended front eof i hi, Except.map]
  simpa [Token.isEof] using honce _ (List.getElem_mem hi)

include heof

theorem isAtEnd_last : isAtEnd ⟨front ++ [eof], front.length⟩ = .ok true := by
  simp [isAtEnd, peek, rest, Token.isEof, heof, Except.map]

theorem synchronize_last :
    synchronize ⟨front ++ [eof], front.length⟩ = (.ok (), ⟨front ++ [eof], front.length⟩) :=
  synchronize_at_eof _ _ eof [] List.drop_left heof

include honce

theorem kindAt_eq_eof_iff (hi : i ≤ front.length) :
    kindAt (front ++ [eof]) i = some .eof ↔ i = front.length := by
  rcases Nat.lt_or_eq_of_le hi with hlt | rfl
  · have hne := honce _ (List.getElem_mem hlt)
    rw [kindAt, List.getElem?_append_left hlt, List.getElem?_eq_getElem hlt]
    simp [hne, hlt.ne]
  · simp [kindAt, heof]

theorem synchronize_inside (hi : i < front.length) :
    ∃ k, IsLeast {k | i < k ∧ IsBoundary (front ++ [eof]) k} k ∧
      synchronize ⟨front ++ [eof], i⟩ = (.ok (), ⟨front ++ [eof], k⟩) := by
  apply synchronize_least _ _ _ _ (drop_ended front eof i hi)
  · exact honce _ (List.getElem_mem hi)
  · exact ⟨eof, by simp, heof⟩

theorem synchronize_moves (hi : i ≤ front.length) :
    ∃ k, synchronize ⟨front ++ [eof], i⟩ = (.ok (), ⟨front ++ [eof], k⟩) ∧
      i ≤ k ∧ k ≤ front.length ∧ (i < front.length → i < k) := by
  rcases Nat.lt_or_eq_of_le hi with hlt | rfl
  · obtain ⟨k, ⟨⟨hik, -⟩, hleast⟩, hsync⟩ := synchronize_inside front eof heof honce i hlt
    have hlast : IsBoundary (front ++ [eof]) front.length := Or.inl (by simp [kindAt, heof])
    exact ⟨k, hsync, hik.le, hleast ⟨hlt, hlast⟩, fun _ => hik⟩
  · exact ⟨_, synchronize_last front eof heof, Nat.le_refl _, Nat.le_refl _, by omega⟩

end

/-! ## Rounds -/

namespace Session

/-- Parses once and, if that gives no tree, skips to the next boundary. -/
def round (s : Session) : Except Fault Session := do
  let (told, parser) := s.parser.parse s.sink
  let (tree, sink) ← told
  match tree with
  | some _ => return { parser, sink }
  | none =>
    let (skipped, parser) := parser.synchronize
    skipped
    return { parser, sink }

/-- Round follows round until one comes to the end. -/
inductive Recovers : Nat → Session → Session → Prop
  | last (s s' : Session) (h : s.round = .ok s') (hend : s'.parser.isAtEnd = .ok true) :
      Recovers 1 s s'
  | more (n : Nat) (s s' s'' : Session) (h : s.round = .ok s')
      (hend : s'.parser.isAtEnd = .ok false) (hmore : Recovers n s' s'') : Recovers (n + 1) s s''

section

variable (front : List Token) (eof : Token) (heof : eof.kind = .eof)
  (honce : ∀ t ∈ front, t.kind ≠ .eof)
  (hliterals : ∀ t ∈ front, t.kind = .number ∨ t.kind = .string → t.literal ≠ none)

include heof honce hliterals

theorem round_moves (i : Nat) (hi : i ≤ front.length) (sink : Sink) :
    ∃ j sink', round ⟨⟨front ++ [eof], i⟩, sink⟩ = .ok ⟨⟨front ++ [eof], j⟩, sink'⟩ ∧
      i ≤ j ∧ j ≤ front.length ∧ (i < front.length → i < j) := by
  obtain ⟨result, j, hconfined, hprogress⟩ := parse_confined front eof heof hliterals i hi sink
  have hforward := hconfined.forward
  cases result with
  | ok e =>
    have hlt := hprogress e rfl
    refine ⟨j, (tell sink (.ok e)).2, ?_, hforward, hconfined.inside, fun _ => hlt⟩
    simp only [round, hconfined.ended []]
    rfl
  | error err =>
    obtain ⟨k, hsync, hjk, hk, hmoves⟩ :=
      synchronize_moves front eof heof honce j hconfined.inside
    refine ⟨k, (tell sink (.error err)).2, ?_, by omega, hk, by omega⟩
    simp only [round, hconfined.ended [], tell, bind, Except.bind, hsync]
    rfl

theorem recovers_within (i : Nat) (hi : i ≤ front.length) (sink : Sink) :
    ∃ rounds sink', rounds ≤ front.length + 1 - i ∧
      Recovers rounds ⟨⟨front ++ [eof], i⟩, sink⟩ ⟨⟨front ++ [eof], front.length⟩, sink'⟩ := by
  induction hn : front.length - i using Nat.strong_induction_on generalizing i sink with
  | _ n ih =>
    obtain ⟨j, sink', hround, hij, hj, hmoves⟩ :=
      round_moves front eof heof honce hliterals i hi sink
    rcases Nat.lt_or_eq_of_le hj with hlt | rfl
    · obtain ⟨rounds, sink'', hrounds, hrecovers⟩ := ih (front.length - j) (by omega) j hj sink' rfl
      refine ⟨rounds + 1, sink'', by omega, ?_⟩
      exact .more rounds _ _ _ hround (isAtEnd_inside front eof honce j hlt) hrecovers
    · exact ⟨1, sink', by omega, .last _ _ hround (isAtEnd_last front eof heof)⟩

end

/-- **Recovery finds the nearest boundary, and the end at last.** At the end the parser does not
move. From any other token it skips to the least boundary behind it, no further and no less. So
parsing and skipping in turn is over after at most as many rounds as there are tokens left. -/
theorem recovery_finds_boundaries (ts : List Token) (i : Nat) (hts : EndsOnce ts)
    (hi : i < ts.length) :
    (kindAt ts i = some .eof → synchronize ⟨ts, i⟩ = (.ok (), ⟨ts, i⟩)) ∧
      (kindAt ts i ≠ some .eof → ∃ k, IsLeast {k | i < k ∧ IsBoundary ts k} k ∧
        synchronize ⟨ts, i⟩ = (.ok (), ⟨ts, k⟩)) ∧
      ((∀ t ∈ ts, t.kind = .number ∨ t.kind = .string → t.literal ≠ none) →
        ∀ sink, ∃ rounds s, rounds ≤ ts.length - i ∧ Recovers rounds ⟨⟨ts, i⟩, sink⟩ s ∧
          s.parser = ⟨ts, ts.length - 1⟩) := by
  obtain ⟨front, eof, rfl, heof, honce⟩ := hts
  rw [List.length_append, List.length_singleton] at hi ⊢
  rw [ne_eq, kindAt_eq_eof_iff front eof heof honce i (by omega)]
  refine ⟨?_, ?_, ?_⟩
  · rintro rfl
    exact synchronize_last front eof heof
  · intro hne
    exact synchronize_inside front eof heof honce i (by omega)
  · intro hliterals sink
    obtain ⟨rounds, sink', hrounds, hrecovers⟩ := recovers_within front eof heof honce
      (fun t ht => hliterals t (by simp [ht])) i (by omega) sink
    exact ⟨rounds, _, by omega, hrecovers, by simp⟩

theorem recovery_finds_boundaries_semicolon :
    let ts := [closingToken, ⟨.semicolon, ";", none, 1, ⟨1, 2⟩⟩, nilToken, endToken]
    EndsOnce ts ∧ IsLeast {k | 0 < k ∧ IsBoundary ts k} 2 ∧
      synchronize ⟨ts, 0⟩ = (.ok (), ⟨ts, 2⟩) ∧
      ∃ rounds s, rounds ≤ 4 ∧ Recovers rounds ⟨⟨ts, 0⟩, {}⟩ s ∧ s.parser = ⟨ts, 3⟩ := by
  -- A parenthesis that is never opened, a semicolon and an operand.
  intro ts
  have hts : EndsOnce ts := ⟨ts.take 3, endToken, rfl, rfl, by decide⟩
  obtain ⟨-, hskips, hrounds⟩ := recovery_finds_boundaries ts 0 hts (by decide)
  obtain ⟨k, hleast, hsync⟩ := hskips (by decide)
  obtain rfl : 2 = k := congrArg (fun answer => answer.2.cursor) hsync
  exact ⟨hts, hleast, hsync, hrounds (by decide) {}⟩

end Session

end Parser

end Lox
