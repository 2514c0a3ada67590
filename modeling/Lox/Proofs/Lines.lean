import Lox.Diagnostic
import Lox.Proofs.Slice
import Mathlib.Data.List.DropRight

/-!
# Where an offset lies

A snippet is headed by the line and the column of an offset. The line is looked up among the starts
of all lines. Its number is one more than the number of line feeds in front of the offset, and the
column is one more than the number of characters behind the last of them.
-/

namespace Lox

namespace Line

/-- What stands on the last line of a text. -/
def lastOf (cs : List Char) : List Char := cs.rtakeWhile (· != '\n')

/-! ## Looking up a line -/

theorem locate_eq_head (l : Line) (ls : List Line) (offset : Nat) (h : l.start ≤ offset)
    (hls : ∀ m ∈ ls, offset < m.start) : locate (l :: ls) offset = l := by
  have hnone : ls.filter (·.start ≤ offset) = [] := by
    rw [List.filter_eq_nil_iff]
    intro m hm
    have := hls m hm
    simp only [decide_eq_true_eq]
    omega
  simp [locate, h, hnone]

theorem locate_eq_tail (l m : Line) (ls : List Line) (offset : Nat) (h : m.start ≤ offset) :
    locate (l :: m :: ls) offset = locate (m :: ls) offset := by
  unfold locate
  by_cases hl : l.start ≤ offset <;> simp [hl, h]

theorem start_le_of_mem_enumerate (number start : Nat) (ls : List (List Char)) :
    ∀ m ∈ enumerate number start ls, start ≤ m.start := by
  induction ls generalizing number start with
  | nil => simp [enumerate]
  | cons l ls ih =>
    intro m hm
    rcases List.mem_cons.mp hm with rfl | hm
    · exact Nat.le_refl _
    · have := ih (number + 1) (start + byteLength l) m hm
      omega

/-! ## Cutting a text into lines -/

theorem exists_cut (cs : List Char) : ∃ l ls, cut cs = l :: ls := by
  unfold cut
  split
  · exact ⟨_, _, rfl⟩
  · split
    · exact ⟨_, _, rfl⟩
    · split <;> exact ⟨_, _, rfl⟩

theorem cut_lineFeed (cs : List Char) : cut ('\n' :: cs) = ['\n'] :: cut cs := by
  simp [cut]

theorem cut_cons (c : Char) (cs l : List Char) (ls : List (List Char)) (hc : c ≠ '\n')
    (h : cut cs = l :: ls) : cut (c :: cs) = (c :: l) :: ls := by
  simp [cut, hc, h]

theorem eq_nil_of_cut (cs : List Char) (ls : List (List Char)) (h : cut cs = [] :: ls) :
    ls = [] := by
  cases cs with
  | nil => simpa [cut] using h.symm
  | cons c cs =>
    by_cases hc : c = '\n'
    · simp [hc, cut] at h
    · obtain ⟨l, ls', hcut⟩ := exists_cut cs
      rw [cut_cons c cs l ls' hc hcut] at h
      cases h

theorem lastOf_append_lineFeed (a b : List Char) : lastOf (a ++ '\n' :: b) = lastOf b := by
  have hstop : (b.reverse ++ '\n' :: a.reverse).takeWhile (· != '\n') =
      b.reverse.takeWhile (· != '\n') := by
    induction b.reverse with
    | nil => simp
    | cons c cs ih => simp only [List.cons_append, List.takeWhile_cons, ih]
  simp [lastOf, List.rtakeWhile, hstop]

theorem lastOf_eq_self (cs : List Char) (h : '\n' ∉ cs) : lastOf cs = cs := by
  rw [lastOf, List.rtakeWhile_eq_self_iff]
  intro c hc
  rw [bne_iff_ne]
  rintro rfl
  exact h hc

/-- The line of an offset in a text. The text begins behind `pre`, which stands on the same line as
the front of the text. -/
theorem locate_cut (number start : Nat) (pre front behind l : List Char) (ls : List (List Char))
    (hpre : '\n' ∉ pre) (h : cut (front ++ behind) = l :: ls) :
    ∃ above rest, pre ++ front = above ++ lastOf (pre ++ front) ∧
      locate (enumerate number start ((pre ++ l) :: ls)) (start + byteLength (pre ++ front)) =
        ⟨number + lineFeeds front, start + byteLength above, lastOf (pre ++ front) ++ rest⟩ := by
  induction front generalizing number start pre l ls with
  | nil =>
    refine ⟨[], l, ?_, ?_⟩
    · simp [lastOf_eq_self pre hpre]
    · rw [List.append_nil, lastOf_eq_self pre hpre]
      apply locate_eq_head
      · simp
      · -- A line below begins behind this one, and this one is empty only if there is none.
        intro m hm
        have hstart := start_le_of_mem_enumerate _ _ _ m hm
        rw [byteLength_append] at hstart
        cases l with
        | nil =>
          rw [eq_nil_of_cut _ _ h] at hm
          cases hm
        | cons c l =>
          have := byteLength_pos (c :: l) (by simp)
          omega
  | cons c front ih =>
    obtain ⟨l', ls', hcut⟩ := exists_cut (front ++ behind)
    by_cases hc : c = '\n'
    · subst hc
      rw [List.cons_append, cut_lineFeed, hcut] at h
      obtain ⟨rfl, rfl⟩ := List.cons.inj h
      obtain ⟨above, rest, habove, hloc⟩ := ih (number + 1) (start + byteLength (pre ++ ['\n'])) []
        l' ls' (by simp) hcut
      simp only [List.nil_append] at habove hloc
      refine ⟨pre ++ '\n' :: above, rest, ?_, ?_⟩
      · rw [lastOf_append_lineFeed, List.append_assoc, List.cons_append, ← habove]
      · have hoffset : start + byteLength (pre ++ '\n' :: front) =
            start + byteLength (pre ++ ['\n']) + byteLength front := by
          simp [Nat.add_assoc]
        have hfeeds : lineFeeds ('\n' :: front) = 1 + lineFeeds front := by
          simp [lineFeeds, Nat.add_comm]
        have habove' : byteLength (pre ++ '\n' :: above) =
            byteLength (pre ++ ['\n']) + byteLength above := by
          simp [Nat.add_assoc]
        rw [enumerate] at hloc ⊢
        rw [enumerate, hoffset, locate_eq_tail, hloc, lastOf_append_lineFeed, hfeeds, habove',
          ← Nat.add_assoc, ← Nat.add_assoc]
        exact Nat.le_add_right _ _
    · rw [List.cons_append, cut_cons c _ l' ls' hc hcut] at h
      obtain ⟨rfl, rfl⟩ := List.cons.inj h
      have hpre' : '\n' ∉ pre ++ [c] := by simp [hpre, Ne.symm hc]
      obtain ⟨above, rest, habove, hloc⟩ := ih number start (pre ++ [c]) l' ls' hpre' hcut
      have hfeeds : lineFeeds (c :: front) = lineFeeds front := by simp [lineFeeds, hc]
      simp only [List.append_assoc, List.singleton_append] at habove hloc
      exact ⟨above, rest, habove, by rw [hfeeds, hloc]⟩

/-! ## The column -/

theorem columnOf_go (start : Nat) (along rest : List Char) :
    columnOf.go (start + byteLength along) start (along ++ rest) = along.length := by
  induction along generalizing start with
  | nil =>
    cases rest with
    | nil => rfl
    | cons c rest =>
      have := c.utf8Size_pos
      simp only [List.nil_append, columnOf.go, byteLength_nil]
      rw [if_neg (by omega)]
      rfl
  | cons c along ih =>
    have hoffset : start + byteLength (c :: along) = start + c.utf8Size + byteLength along := by
      rw [byteLength_cons, Nat.add_assoc]
    rw [List.cons_append, hoffset, columnOf.go, if_pos (Nat.le_add_right _ _), ih, List.length_cons]

theorem locate_all (src : String) (front behind : List Char) (h : src.toList = front ++ behind) :
    (locate (all src) (byteLength front)).number = 1 + lineFeeds front ∧
      (locate (all src) (byteLength front)).columnOf (byteLength front) =
        1 + (lastOf front).length := by
  obtain ⟨l, ls, hcut⟩ := exists_cut (front ++ behind)
  obtain ⟨above, rest, habove, hloc⟩ := locate_cut 1 0 [] front behind l ls (by simp) hcut
  simp only [List.nil_append, Nat.zero_add] at habove hloc
  have hbytes : byteLength front = byteLength above + byteLength (lastOf front) := by
    rw [← byteLength_append, ← habove]
  rw [all, h, hcut, hloc]
  refine ⟨rfl, ?_⟩
  rw [columnOf, hbytes, columnOf_go, Nat.add_comm]

end Line

/-! ## The header of a snippet -/

namespace Paint

theorem text_append (p q : Paint) : text (p ++ q) = text p ++ text q := by
  simp [text, String.join_append]

theorem text_plain (s : String) : text (plain s) = s := by
  simp [text, plain]

theorem text_styled (st : Style) (s : String) : text (styled st s) = s := by
  simp [text, styled]

end Paint

/-- The lines that a diagnostic with a place begins with: its title, and the path, line and column
of the place. -/
def Diagnostic.heading (title path : String) (pad line column : Nat) : String :=
  "error: " ++ title ++ "\n" ++ Text.spaces pad ++ " ┌─ " ++ path ++ ":" ++ toString line ++ ":" ++
    toString column ++ "\n"

theorem Snippet.text_render (src path : String) (span : Span) (label : Option String) :
    ∃ pad rest, (Snippet.render src path span label).text =
      Text.spaces pad ++ " ┌─ " ++ path ++ ":" ++
        toString (Line.locate (Line.all src) span.start).number ++ ":" ++
        toString ((Line.locate (Line.all src) span.start).columnOf span.start) ++ "\n" ++ rest := by
  refine ⟨?pad, ?rest, ?eq⟩
  case eq =>
    unfold render
    simp only [List.append_assoc, Paint.text_append, Paint.text_plain, Paint.text_styled,
      String.append_assoc]
    rfl

theorem Diagnostic.text_paint (d : Diagnostic) (l : Location) (h : d.location = some l) :
    ∃ pad rest, d.paint.text = heading d.title l.path pad
      (Line.locate (Line.all l.src) l.span.start).number
      ((Line.locate (Line.all l.src) l.span.start).columnOf l.span.start) ++ rest := by
  obtain ⟨pad, rest, hrender⟩ := Snippet.text_render l.src l.path l.span l.label
  have htitle : (header d.title).text = "error: " ++ d.title ++ "\n" := by
    have herror : "error" ++ ": " = "error: " := by decide
    simp [header, Paint.text, ← String.append_assoc, herror]
  refine ⟨pad, rest ++ (if d.text = "" then "" else d.text ++ "\n"), ?_⟩
  delta heading
  simp only [paint, h, Paint.text_append, Paint.text_plain, hrender, htitle, String.append_assoc]

end Lox
