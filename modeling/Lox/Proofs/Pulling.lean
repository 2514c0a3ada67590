import Lox.Proofs.Bookkeeping
import Mathlib.Data.List.Induction

/-!
# A scanner is a cursor over its items

There are two ways to ask a scanner for the next item, and one to take all that is left. In any
order they walk along the list that a fresh scanner is drained to, and stay at its end. Only what
`next?` has yielded can make it stop.
-/

namespace Lox

namespace Scanner

/-! ## One call -/

/-- The items from here up to the end, whether or not it has been yielded. -/
def left (s : Scanner) : List Item := items s.place s.rest

theorem left_pos (s : Scanner) : 0 < s.left.length := by
  unfold left
  rw [items]
  split <;> simp

theorem pull_left (s : Scanner) :
    s.left.head? = some s.pull.1 ∧ s.pull.2.left = s.left.drop (min 1 (s.left.length - 1)) ∧
      (s.pull.1.isEof = true ↔ s.left.length = 1) ∧ s.pull.2.finished = s.finished := by
  obtain ⟨gap, rest, hsplit⟩ : ∃ gap rest, Layout.split false s.rest = (gap, rest) := ⟨_, _, rfl⟩
  cases rest with
  | nil =>
    have hpull : s.pull = (.eof (s.place.after gap),
        { s with place := s.place.after gap, rest := [] }) := by
      simp only [pull, hsplit]
    have hleft : s.left = [.eof (s.place.after gap)] := Lexical.items_of_nil _ _ gap hsplit
    have hstays : s.pull.2.left = [.eof (s.place.after gap)] := by
      rw [hpull]
      exact Lexical.items_of_nil _ [] [] rfl
    rw [hstays, hleft, hpull]
    simp [Item.eof, Item.isEof, Token.isEof]
  | cons c cs =>
    have hleft : s.left = s.pull.1 :: s.pull.2.left := by
      simp only [left, pull, hsplit]
      exact Lexical.items_of_cons _ _ gap cs c hsplit
    have heof : s.pull.1.isEof = false := by
      simp only [pull, hsplit]
      exact Lexical.ofPiece_isEof _ _ c cs
    have hpos := s.pull.2.left_pos
    have hfinished : s.pull.2.finished = s.finished := by simp only [pull, hsplit]
    rw [hleft, heof]
    refine ⟨rfl, ?_, ?_, hfinished⟩
    · rw [List.length_cons, Nat.add_sub_cancel, Nat.min_eq_left hpos, List.drop_one, List.tail_cons]
    · simp only [Bool.false_eq_true, List.length_cons, false_iff]
      omega

theorem next?_of_finished (s : Scanner) (h : s.finished = true) : s.next? = (none, s) := by
  rw [next?, if_pos h]

theorem next?_of_not_finished (s : Scanner) (h : s.finished = false) :
    s.next? = (some s.pull.1, { s.pull.2 with finished := s.pull.1.isEof }) := by
  rw [next?, if_neg (by simp [h])]

/-! ## Sessions -/

inductive Call where
  | next
  | pull
  deriving DecidableEq, Repr

def answer (s : Scanner) : Call → Option Item × Scanner
  | .next => s.next?
  | .pull => (some s.pull.1, s.pull.2)

def after (s : Scanner) (calls : List Call) : Scanner :=
  calls.foldl (fun s call => (s.answer call).2) s

theorem after_concat (s : Scanner) (calls : List Call) (call : Call) :
    s.after (calls ++ [call]) = ((s.after calls).answer call).2 := by
  simp [after]

/-- A `next` among the calls has answered the end. -/
def HasEnded (s : Scanner) (calls : List Call) : Prop :=
  ∃ before behind item, calls = before ++ .next :: behind ∧
    ((s.after before).answer .next).1 = some item ∧ item.isEof = true

theorem hasEnded_concat (s : Scanner) (calls : List Call) (call : Call) :
    s.HasEnded (calls ++ [call]) ↔ s.HasEnded calls ∨ call = .next ∧
      ∃ item, ((s.after calls).answer .next).1 = some item ∧ item.isEof = true := by
  constructor
  · rintro ⟨before, behind, item, hcalls, hitem⟩
    rcases List.eq_nil_or_concat behind with rfl | ⟨behind, last, rfl⟩
    · obtain ⟨rfl, hcall⟩ := List.append_inj' hcalls rfl
      exact Or.inr ⟨by simpa using hcall, item, hitem⟩
    · have hsplit : calls ++ [call] = (before ++ .next :: behind) ++ [last] := by simpa using hcalls
      obtain ⟨rfl, -⟩ := List.append_inj' hsplit rfl
      exact Or.inl ⟨before, behind, item, rfl, hitem⟩
  · rintro (⟨before, behind, item, rfl, hitem⟩ | ⟨rfl, item, hitem⟩)
    · exact ⟨before, behind ++ [call], item, by simp, hitem⟩
    · exact ⟨calls, [], item, rfl, hitem⟩

/-- Where a scanner stands in the items that it had left at first, so many calls ago. -/
structure Walked (first : List Item) (m : Nat) (ended : Prop) (s : Scanner) : Prop where
  left : s.left = first.drop (min m (first.length - 1))
  finished : s.finished = true ↔ ended
  atEnd : s.finished = true → s.left.length = 1

theorem left_pull (first : List Item) (m : Nat) (s : Scanner)
    (h : s.left = first.drop (min m (first.length - 1))) :
    s.pull.2.left = first.drop (min (m + 1) (first.length - 1)) := by
  have hpos := s.left_pos
  rw [h, List.length_drop] at hpos
  rw [s.pull_left.2.1, h, List.drop_drop, List.length_drop]
  congr 1
  omega

theorem walked_concat (s : Scanner) (calls : List Call) (call : Call)
    (h : Walked s.left calls.length (s.HasEnded calls) (s.after calls)) :
    Walked s.left (calls ++ [call]).length (s.HasEnded (calls ++ [call]))
      (s.after (calls ++ [call])) := by
  rw [after_concat, hasEnded_concat, List.length_append, List.length_singleton]
  generalize s.after calls = t at h ⊢
  obtain ⟨hhead, hdrop, heof, hkeeps⟩ := t.pull_left
  have hpull := left_pull s.left calls.length t h.left
  cases call with
  | pull =>
    constructor
    · exact hpull
    · simpa [answer, hkeeps] using h.finished
    · intro hfinished
      have hone := h.atEnd (hkeeps.symm.trans hfinished)
      change t.pull.2.left.length = 1
      rw [hdrop, hone]
      exact hone
  | next =>
    cases hfinished : t.finished with
    | true =>
      have hone := h.atEnd hfinished
      have hended := h.finished.mp hfinished
      rw [answer, next?_of_finished t hfinished]
      refine ⟨?_, by simp [hfinished, hended], fun _ => hone⟩
      rw [h.left, List.length_drop] at hone
      rw [h.left]
      congr 1
      omega
    | false =>
      have hnot : ¬ s.HasEnded calls := fun h' => by simp [h.finished.mpr h'] at hfinished
      rw [answer, next?_of_not_finished t hfinished]
      refine ⟨hpull, by simp [hnot], ?_⟩
      intro hend
      have hone := heof.mp hend
      change t.pull.2.left.length = 1
      rw [hdrop, hone]
      exact hone

theorem walked_after (s : Scanner) (hs : s.finished = false) (calls : List Call) :
    Walked s.left calls.length (s.HasEnded calls) (s.after calls) := by
  induction calls using List.reverseRecOn with
  | nil =>
    refine ⟨by simp [after], ?_, by simp [after, hs]⟩
    simp [after, hs, HasEnded]
  | append_singleton calls call ih => exact walked_concat s calls call ih

/-! ## Answers -/

/-- What a scanner that stands at index `k` of some items answers, and what it hands over to a
sink. `ended` says that a `next` has answered the end. -/
structure Serves (items : List Item) (k : Nat) (ended : Prop) (s : Scanner) : Prop where
  pull : ∃ item, items[k]? = some item ∧ (s.answer .pull).1 = some item
  next : ¬ ended → (s.answer .next).1 = items[k]?
  stops : (s.answer .next).1 = none ↔ ended
  tokens : ¬ ended → ∀ sink : Sink,
    (sink.collect s.drain).1 = (items.drop k).filterMap Item.token?
  oneEnd : ¬ ended → ∀ sink : Sink, ∃ body eof, (sink.collect s.drain).1 = body ++ [eof] ∧
    eof.isEof = true ∧ ∀ t ∈ body, t.isEof = false
  reports : ¬ ended → ∀ sink : Sink,
    sink.Grows (((items.drop k).filterMap Item.error?).map .ofLexical) (sink.collect s.drain).2
  nothing : ended → ∀ sink : Sink, (sink.collect s.drain).1 = [] ∧
    sink.Grows [] (sink.collect s.drain).2

/-- The end is the last item, and no other one is. -/
structure EndsOnce (items body : List Item) (eof : Token) : Prop where
  items_eq : items = body ++ [.token eof]
  isEof : eof.isEof = true
  once : ∀ item ∈ body, item.isEof = false

theorem scan_endsOnce (src : String) : ∃ body eof, EndsOnce (scan src) body eof := by
  obtain ⟨body, line, hscan, hbody⟩ := Lexical.laid_ends _ _ _ (Lexical.scan_laid src)
  exact ⟨body, _, hscan, rfl, hbody⟩

section

variable (items body : List Item) (eof : Token) (hends : EndsOnce items body eof)

include hends

theorem tokens_drop (k : Nat) (hk : k ≤ body.length) :
    ∃ ts, (items.drop k).filterMap Item.token? = ts ++ [eof] ∧ ∀ t ∈ ts, t.isEof = false := by
  refine ⟨(body.drop k).filterMap Item.token?, ?_, ?_⟩
  · rw [hends.items_eq, List.drop_append_of_le_length hk, List.filterMap_append]
    rfl
  · intro t ht
    obtain ⟨item, hitem, hsome⟩ := List.mem_filterMap.mp ht
    have hnot := hends.once item (List.mem_of_mem_drop hitem)
    cases item with
    | token u =>
      cases hsome
      exact hnot
    | error e => cases hsome

theorem serves_of_walked (m : Nat) (ended : Prop) (s : Scanner) (h : Walked items m ended s) :
    Serves items (min m (items.length - 1)) ended s := by
  have hlast : items.length - 1 = body.length := by simp [hends.items_eq]
  have hitem : items[min m (items.length - 1)]? = some s.pull.1 := by
    rw [← List.head?_drop, ← h.left, s.pull_left.1]
  have hfinished (hended : ended) : s.finished = true := h.finished.mpr hended
  have hopen (hnot : ¬ ended) : s.finished = false := by simpa using mt h.finished.mp hnot
  have hdrain (hnot : ¬ ended) : s.drain = items.drop (min m (items.length - 1)) := by
    rw [← h.left, drain, hopen hnot]
    rfl
  refine ⟨⟨_, hitem, rfl⟩, ?_, ?_, ?_, ?_, ?_, ?_⟩
  · intro hnot
    rw [hitem, answer, next?_of_not_finished s (hopen hnot)]
  · by_cases hended : ended
    · simp [answer, next?_of_finished s (hfinished hended), hended]
    · simp [answer, next?_of_not_finished s (hopen hended), hended]
  · intro hnot sink
    rw [hdrain hnot]
    rfl
  · intro hnot sink
    obtain ⟨ts, htokens, hts⟩ := tokens_drop items body eof hends
      (min m (items.length - 1)) (by omega)
    rw [hdrain hnot]
    exact ⟨ts, eof, htokens, hends.isEof, hts⟩
  · intro hnot sink
    rw [hdrain hnot]
    exact sink.grows_collect _
  · intro hended sink
    have hnone : s.drain = [] := by rw [drain, if_pos (hfinished hended)]
    rw [hnone]
    exact ⟨rfl, sink.grows_collect []⟩

end

/-- **A scanner is a cursor over its items.** After some calls, of either sort and in any order, it
stands at as many items from the front, or at the last one, which is the end. There it stays: a pull
yields the same end again and again, and `next?` does too until it has yielded it once itself. Then
it yields nothing more, and nothing is left to drain. -/
theorem calls_walk_items (src : String) (calls : List Call) :
    Serves (scan src) (min calls.length ((scan src).length - 1)) ((ofText src).HasEnded calls)
        ((ofText src).after calls) ∧
      ∃ eof, (scan src).getLast? = some eof ∧ eof.isEof = true ∧
        ((scan src).length ≤ calls.length + 1 →
          (((ofText src).after calls).answer .pull).1 = some eof) := by
  obtain ⟨body, eof, hends⟩ := scan_endsOnce src
  have hserves := serves_of_walked _ body eof hends _ _ _ (walked_after (ofText src) rfl calls)
  have hlast : (scan src).getLast? = some (.token eof) := by simp [hends.items_eq]
  refine ⟨hserves, .token eof, hlast, hends.isEof, ?_⟩
  intro hlong
  obtain ⟨item, hitem, hpull⟩ := hserves.pull
  rw [Nat.min_eq_right (by omega), ← List.getLast?_eq_getElem?, hlast] at hitem
  rw [hpull, hitem]

-- A pull that yields the end does not keep `next?` from yielding it.
example : ((ofText "").after [.pull, .pull]).next?.1 = some (.eof .start) := by decide

end Scanner

end Lox
