import Lox.Proofs.Respacing

/-!
# Text behind an expression

A run reads the expression that a text begins with and leaves the rest. So what is written on the
lines behind it matters only if it cannot be scanned, or if it goes on with an operator right where
the expression ended.
-/

namespace Lox

/-! ## Two texts -/

/-- The parser has stopped in front of a token that is not the end. -/
def LeavesTokens (src : String) : Prop :=
  (Parser.expression ⟨tokensOf src, 0⟩).2.isAtEnd = .ok false

/-- The first token, be it the end, is no operator of two operands. -/
def BeginsAnew (src : String) : Prop :=
  ∀ t ∈ (tokensOf src).head?, t.kind ∉ Grammar.binaryOperators

theorem scan_lineFeed (a b : String) (ts : List Token) (p : Place)
    (h : scan a = ts.map .token ++ [.eof p]) :
    ∃ n m, scan (a ++ "\n" ++ b) = ts.map .token ++ (scan b).map (Item.shift n m) := by
  have hitems : Scanner.items .start a.toList = ts.map .token ++ [.eof p] := h
  have hclosed : ∀ e, .error e ∈ Scanner.items .start a.toList →
      e.cause ≠ .unterminatedString := by
    intro e he
    rw [hitems] at he
    simp [Item.eof] at he
  have htext : (a ++ "\n" ++ b).toList = a.toList ++ '\n' :: b.toList := by simp
  refine ⟨byteLength (a.toList ++ ['\n']), lineFeeds (a.toList ++ ['\n']), ?_⟩
  change Scanner.items .start (a ++ "\n" ++ b).toList = _
  rw [htext, Lexical.items_lineFeed .start _ _ hclosed, hitems, List.dropLast_concat,
    Lexical.items_after]
  rfl

theorem filterMap_shift {α : Type} (n m : Nat) (items : List Item) (pick : Item → Option α)
    (f : α → α) (h : ∀ item : Item, pick (item.shift n m) = (pick item).map f) :
    (items.map (Item.shift n m)).filterMap pick = (items.filterMap pick).map f := by
  rw [List.filterMap_map, List.map_filterMap]
  congr 1
  funext item
  exact h item

theorem scanned_lineFeed (a b : String) (ha : lexicalErrors a = []) :
    ∃ ts eof n m, eof.kind = .eof ∧ tokensOf a = ts ++ [eof] ∧
      tokensOf (a ++ "\n" ++ b) = ts ++ (tokensOf b).map (Token.shift n m) ∧
      lexicalErrors (a ++ "\n" ++ b) = (lexicalErrors b).map (LexicalError.shift n m) := by
  obtain ⟨ts, p, hscan, -, -⟩ := scan_of_clean a ha
  obtain ⟨n, m, hboth⟩ := scan_lineFeed a b ts p hscan
  refine ⟨ts, _, n, m, rfl, (tokensOf_scan a ts p hscan).2, ?_, ?_⟩
  · unfold tokensOf
    rw [hboth, List.filterMap_append, tokens_of_map]
    rw [filterMap_shift n m (scan b) Item.token? (Token.shift n m)]
    intro item
    cases item <;> rfl
  · unfold lexicalErrors
    rw [hboth, List.filterMap_append, errors_of_map, List.nil_append]
    apply filterMap_shift
    intro item
    cases item <;> rfl

/-! ## The same expression -/

theorem parses_lineFeed (a b : String) (e : Expr) (ha : lexicalErrors a = [])
    (h : Parses a (.ok e)) (hseam : BeginsAnew b ∨ LeavesTokens a) :
    Parses (a ++ "\n" ++ b) (.ok e) := by
  obtain ⟨ts, eof, n, m, heof, htokens, hboth, -⟩ := scanned_lineFeed a b ha
  obtain ⟨us, t, rest, hus, hd, ht, hatEnd⟩ := tokens_of_parses a e h
  rw [htokens] at hus
  rcases List.eq_nil_or_concat rest with rfl | ⟨rest, last, rfl⟩
  · -- The expression takes up all of the first text.
    obtain ⟨rfl, hlast⟩ := List.append_inj' hus rfl
    obtain rfl : eof = t := by simpa using hlast
    have hanew : BeginsAnew b := by
      apply hseam.resolve_right
      unfold LeavesTokens
      rw [hatEnd]
      simp [Token.isEof, heof]
    obtain ⟨body, line, hbody, -⟩ := Lexical.laid_ends _ _ _ (Lexical.scan_laid b)
    obtain ⟨u, us, hus⟩ : ∃ u us, tokensOf b = u :: us := by
      apply List.exists_cons_of_ne_nil
      unfold tokensOf
      rw [hbody]
      simp [Item.eof, Item.token?]
    have hu : u.kind ∉ Grammar.binaryOperators := hanew u (by rw [hus]; rfl)
    rw [hus, List.map_cons] at hboth
    exact parses_of_tokens _ ts _ _ e hboth hd hu
  · -- The token that ended the expression is still there.
    obtain rfl : ts = us ++ t :: rest := by
      have hall : ts ++ [eof] = (us ++ t :: rest) ++ [last] := by simpa using hus
      exact (List.append_inj' hall rfl).1
    rw [List.append_assoc, List.cons_append] at hboth
    exact parses_of_tokens _ us _ t e hboth hd ht

/-! ## The same run -/

theorem clean_of_run (src : String) (outcome : Outcome) (s : Sink)
    (h : run src {} = .ok (outcome, s)) (hok : outcome ≠ .syntaxFailure) :
    lexicalErrors src = [] ∧ ∃ e, Parses src (.ok e) := by
  obtain ⟨result, hresult, -⟩ := parses_operable src
  obtain ⟨parsed, -, hcases⟩ := run_cases src {} result hresult
  rcases hcases with ⟨-, -, hrun⟩ | ⟨-, hnone, e, rfl, -⟩
  · rw [hrun] at h
    cases h
    exact absurd rfl hok
  · refine ⟨?_, e, hresult⟩
    simpa [complaints] using hnone

theorem run_of_lexicalErrors (src : String) (h : lexicalErrors src ≠ []) :
    ∃ s, run src {} = .ok (.syntaxFailure, s) := by
  obtain ⟨result, hresult, -⟩ := parses_operable src
  obtain ⟨parsed, -, hcases⟩ := run_cases src {} result hresult
  rcases hcases with ⟨-, -, hrun⟩ | ⟨-, hnone, e, rfl, -⟩
  · exact ⟨parsed, hrun⟩
  · exact absurd (by simpa [complaints] using hnone) h

theorem run_of_gives (a b : String) (x : Except Eval.Stop Value) (outcome : Outcome) (s : Sink)
    (ha : Gives a x) (hb : Gives b x) (h : run a {} = .ok (outcome, s)) :
    ∃ s', run b {} = .ok (outcome, s') ∧ s'.reports = s.reports := by
  rcases x with (err | f) | v
  · obtain ⟨t, ht, hr⟩ := ha
    obtain ⟨t', ht', hr'⟩ := hb
    rw [ht] at h
    cases h
    exact ⟨t', ht', by rw [hr, hr']⟩
  · exact ha.elim
  · obtain ⟨t, ht, hr⟩ := ha
    obtain ⟨t', ht', hr'⟩ := hb
    rw [ht] at h
    cases h
    exact ⟨t', ht', by rw [hr, hr']⟩

/-- **Text behind an expression matters only if it cannot be scanned.** Behind a text that has been
evaluated, another one with lexical errors stops the run. Any other one changes neither the outcome
nor the reports, places included, unless it goes on with an operator right behind the expression. -/
theorem run_ignores_text_behind (a b : String) (outcome : Outcome) (s : Sink)
    (hrun : run a {} = .ok (outcome, s)) (hok : outcome ≠ .syntaxFailure) :
    (lexicalErrors b ≠ [] → ∃ s', run (a ++ "\n" ++ b) {} = .ok (.syntaxFailure, s')) ∧
      (lexicalErrors b = [] → BeginsAnew b ∨ LeavesTokens a →
        ∃ s', run (a ++ "\n" ++ b) {} = .ok (outcome, s') ∧ s'.reports = s.reports) := by
  obtain ⟨hclean, e, hparses⟩ := clean_of_run a outcome s hrun hok
  obtain ⟨-, -, n, m, -, -, -, herrors⟩ := scanned_lineFeed a b hclean
  constructor
  · intro hb
    apply run_of_lexicalErrors
    rw [herrors]
    simpa using hb
  · intro hb hseam
    have hboth : lexicalErrors (a ++ "\n" ++ b) = [] := by rw [herrors, hb, List.map_nil]
    apply run_of_gives a _ e.evaluate outcome s
    · exact gives_evaluate a e hclean hparses
    · exact gives_evaluate _ e hboth (parses_lineFeed a b e hclean hparses hseam)
    · exact hrun

theorem run_ignores_text_behind_operand :
    ∃ s, run "-\"x\" nil" {} = .ok (.runtimeFailure, s) ∧
      lexicalErrors "+ nil" = [] ∧ LeavesTokens "-\"x\" nil" ∧
      ∃ s', run "-\"x\" nil\n+ nil" {} = .ok (.runtimeFailure, s') ∧
        s'.reports = [.runtime ⟨⟨.minus, "-", none, 1, ⟨0, 1⟩⟩, .operandMustBeNumber⟩] := by
  -- The second line begins with an operator, but the expression has ended before.
  have hclean : lexicalErrors "-\"x\" nil" = [] := by decide +kernel
  have hparses : Parses "-\"x\" nil"
      (.ok (.unary ⟨.minus, "-", none, 1, ⟨0, 1⟩⟩ (.literal (.string "x")))) := by
    unfold Parses
    decide +kernel
  have hbehind : lexicalErrors "+ nil" = [] := by decide +kernel
  have hleft : LeavesTokens "-\"x\" nil" := by
    unfold LeavesTokens
    decide +kernel
  obtain ⟨s, hrun, hreports⟩ := gives_evaluate _ _ hclean hparses
  refine ⟨s, hrun, hbehind, hleft, ?_⟩
  have hboth := (run_ignores_text_behind "-\"x\" nil" "+ nil" _ s hrun (by simp)).2 hbehind
    (.inr hleft)
  rw [hreports] at hboth
  exact hboth

end Lox
