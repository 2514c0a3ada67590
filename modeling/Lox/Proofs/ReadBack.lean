import Lox.Proofs.Patterns
import Lox.Proofs.Respacing
import Lox.Proofs.Rounding

/-!
# Values read back

What is printed for a value, with quotes around a string, is a text with that value. For a string
this is so because no string has a quote in it: evaluation makes strings only by joining what stands
between the quotes of the text. An infinity and NaN are printed as words, and no word is an
expression.
-/

namespace Lox

/-! ## No quotes in strings -/

def Value.QuoteFree : Value → Prop
  | string s => '"' ∉ s.toList
  | number _ | bool _ | nil => True

def Expr.QuoteFree : Expr → Prop
  | literal v => v.QuoteFree
  | group e => e.QuoteFree
  | unary _ e => e.QuoteFree
  | binary l _ r => l.QuoteFree ∧ r.QuoteFree

theorem Machine.ofOne?_quoteFree (k : Kind) (v w : Value) (h : ofOne? k v = some w) :
    w.QuoteFree := by
  unfold ofOne? at h
  split at h <;> cases h <;> trivial

theorem Machine.ofNumbers?_quoteFree (k : Kind) (f : Float → Float → Value) (x y : Float)
    (h : ofNumbers? k = some f) : (f x y).QuoteFree := by
  unfold ofNumbers? at h
  split at h <;> cases h <;> trivial

theorem Machine.ofTwo?_quoteFree (k : Kind) (v w u : Value) (hv : v.QuoteFree)
    (hw : w.QuoteFree) (h : ofTwo? k v w = some u) : u.QuoteFree := by
  unfold ofTwo? at h
  split at h
  · cases h
    trivial
  · cases h
    trivial
  · cases h
    simp only [Value.QuoteFree, String.toList_append, List.mem_append, not_or]
    exact ⟨hv, hw⟩
  · obtain ⟨f, hf, rfl⟩ := Option.map_eq_some_iff.mp h
    exact ofNumbers?_quoteFree _ f _ _ hf
  · cases h

theorem Machine.eq_some_of_orStop (s : Eval.Stop) (o : Option Value) (v : Value)
    (h : orStop s o = .ok v) : o = some v := by
  cases o with
  | none => cases h
  | some w =>
    cases h
    rfl

theorem Expr.evaluate_quoteFree (e : Expr) (v : Value) (h : e.QuoteFree)
    (hv : e.evaluate = .ok v) : v.QuoteFree := by
  induction e generalizing v with
  | literal w =>
    cases hv
    exact h
  | group e ih => exact ih v h hv
  | unary op e ih =>
    rw [evaluate, bind_eq_ok_iff] at hv
    obtain ⟨w, -, hop⟩ := hv
    rw [Machine.unary_eq] at hop
    exact Machine.ofOne?_quoteFree _ w v (Machine.eq_some_of_orStop _ _ v hop)
  | binary l op r ihl ihr =>
    rw [evaluate, bind_eq_ok_iff] at hv
    obtain ⟨a, ha, hv⟩ := hv
    rw [bind_eq_ok_iff] at hv
    obtain ⟨b, hb, hop⟩ := hv
    rw [Machine.binary_eq] at hop
    exact Machine.ofTwo?_quoteFree _ a b v (ihl a h.1 ha) (ihr b h.2 hb)
      (Machine.eq_some_of_orStop _ _ v hop)

theorem Grammar.derives_quoteFree (r : Grammar.Rule) (ts : List Token) (e : Expr)
    (h : Grammar.Derives r ts e) (hts : ∀ t ∈ ts, ∀ v, Grammar.Denotes t v → v.QuoteFree) :
    e.QuoteFree := by
  induction h with
  | literal t v h => exact hts t List.mem_cons_self v h
  | group l r ts e hl he hr ih => exact ih fun t ht => hts t (by simp [ht])
  | unary op ts e hop he ih => exact ih fun t ht => hts t (by simp [ht])
  | operand r ts e he ih => exact ih hts
  | binary r ts us left right op hl hop hr ihl ihr =>
    exact ⟨ihl fun t ht => hts t (by simp [ht]), ihr fun t ht => hts t (by simp [ht])⟩

theorem denotes_quoteFree (src : String) (t : Token) (v : Value) (ht : t ∈ tokensOf src)
    (h : Grammar.Denotes t v) : v.QuoteFree := by
  rcases h with ⟨-, rfl⟩ | ⟨-, rfl⟩ | ⟨-, rfl⟩ | ⟨hk, hv⟩
  · trivial
  · trivial
  · trivial
  · have hne : t.isEof = false := by
      rw [Token.isEof, beq_eq_false_iff_ne]
      rcases hk with hk | hk <;> simp [hk]
    obtain ⟨hlexeme, hliteral⟩ := genuine_of_mem_tokensOf src t ht hne
    rw [hv] at hliteral
    rcases hk with hk | hk
    · rw [hk] at hliteral
      obtain ⟨x, -, rfl⟩ := Option.map_eq_some_iff.mp hliteral.symm
      trivial
    · rw [hk] at hlexeme hliteral
      obtain ⟨body, hbody, hw⟩ := Lexical.lexeme_string _ hlexeme
      obtain rfl := Option.some.inj hliteral
      simpa [Value.QuoteFree, hw] using hbody

theorem value_quoteFree (src : String) (e : Expr) (v : Value) (h : Parses src (.ok e))
    (hv : e.evaluate = .ok v) : v.QuoteFree := by
  obtain ⟨us, rest, htokens, hd⟩ := derives_of_parses src e h
  apply e.evaluate_quoteFree v _ hv
  apply Grammar.derives_quoteFree _ us e hd
  intro t ht v hv
  apply denotes_quoteFree src t v _ hv
  rw [htokens]
  exact List.mem_append_left rest ht

theorem evaluate_of_run (src : String) (v : Value) (s : Sink)
    (h : run src {} = .ok (.value v, s)) : ∃ e, Parses src (.ok e) ∧ e.evaluate = .ok v := by
  obtain ⟨result, hresult, -⟩ := parses_operable src
  obtain ⟨parsed, -, hcases⟩ := run_cases src {} result hresult
  rcases hcases with ⟨-, -, hrun⟩ | ⟨-, -, e, rfl, -, ⟨w, hw, hrun⟩ | ⟨err, -, hrun⟩⟩
  · rw [h] at hrun
    cases hrun
  · rw [h] at hrun
    cases hrun
    exact ⟨e, hresult, hw⟩
  · rw [h] at hrun
    cases hrun

/-! ## Texts of one literal -/

theorem run_of_derives (src : String) (ts : List Token) (e : Expr) (v : Value)
    (hs : ScansTo src ts) (hd : Grammar.Derives .equality ts e) (hv : e.evaluate = .ok v) :
    ∃ s, run src {} = .ok (.value v, s) := by
  obtain ⟨hclean, hparse⟩ := parses_of_scansTo src ts e hs hd
  have hgives := gives_evaluate src e hclean hparse
  rw [hv] at hgives
  obtain ⟨s, hrun, -⟩ := hgives
  exact ⟨s, hrun⟩

theorem run_lexeme (k : Kind) (w : List Char) (v : Value) (hk : Lexical.Lexeme k w)
    (hv : Grammar.Denotes (Lexical.tokenAt .start k w) v) :
    ∃ s, run (String.ofList w) {} = .ok (.value v, s) := by
  apply run_of_derives _ [Lexical.tokenAt .start k w] (.literal v)
  · exact ⟨_, Lexical.scan_lexeme k w hk⟩
  · apply Grammar.derives_of_rank_le .primary .equality
    · decide
    · exact .literal _ v hv
  · rfl

theorem denotes_literal (p : Place) (k : Kind) (w : List Char) (v : Value)
    (hk : k = .number ∨ k = .string) (hv : Lexical.literalOf k w = some v) :
    Grammar.Denotes (Lexical.tokenAt p k w) v :=
  Or.inr (Or.inr (Or.inr ⟨hk, hv⟩))

theorem denotes_numeral (p : Place) (w : List Char) (x : Float)
    (h : Lexical.readNumeral? w = some x) :
    Grammar.Denotes (Lexical.tokenAt p .number w) (.number x) := by
  apply denotes_literal p .number w _ (Or.inl rfl)
  rw [Lexical.literalOf, h]
  rfl

theorem items_minus (rest : List Char) :
    Scanner.items .start ('-' :: rest) =
      .token (signAt .start ['-'] .minus) :: Scanner.items (Place.start.after ['-']) rest := by
  apply items_sign .start '-' []
  · simp [Layout.split, Layout.isBlank, Layout.opensComment]
  · simp [Piece.first, isLetter, Piece.sign, Piece.single, Kind.ofSign?, Kind.ofSignEqual?]

theorem run_minus_numeral (w : List Char) (x : Float) (hw : Lexical.IsNumeral w)
    (hx : Lexical.readNumeral? w = some x) :
    ∃ s, run (String.ofList ('-' :: w)) {} = .ok (.value (.number (-x)), s) := by
  have hitems := Lexical.items_eq_of_tokenizes _ _ _
    (Lexical.tokenizes_lexeme (Place.start.after ['-']) .number w (.number w hw))
  apply run_of_derives _
    [signAt .start ['-'] .minus, Lexical.tokenAt (Place.start.after ['-']) .number w]
    (.unary (signAt .start ['-'] .minus) (.literal (.number x)))
  · apply scansTo_of_items
    rw [String.toList_ofList, items_minus, hitems]
    rfl
  · apply derives_unary
    · decide
    · exact .literal _ _ (denotes_numeral _ w x hx)
  · rfl

/-! ## Numbers -/

theorem Decimal.digits_eq (d : Decimal) : d.digits = d.whole ++ Piece.fractionText d.fraction := by
  have hlen := d.length_fraction
  unfold digits Piece.fractionText
  by_cases hp : d.places = 0
  · have hnil : d.fraction = [] := List.length_eq_zero_iff.mp (by omega)
    simp [hp, hnil]
  · have hne : d.fraction ≠ [] := by
      intro hnil
      rw [hnil] at hlen
      exact hp hlen.symm
    simp [hp, hne]

theorem numeral_of_magnitude (bits : Nat) (h : bits < Binary64.infinity) :
    Lexical.IsNumeral (Shortest.decimal bits).digits ∧
      Lexical.readNumeral? (Shortest.decimal bits).digits =
        some (Float.ofBits (UInt64.ofNat bits)) := by
  obtain ⟨d, hd⟩ : ∃ d, d = Shortest.decimal bits := ⟨_, rfl⟩
  have hnearest := Shortest.nearest_decimal bits h
  rw [← hd] at hnearest ⊢
  rw [d.digits_eq]
  constructor
  · exact Lexical.isNumeral_append _ _ d.isDigit_whole d.isDigit_fraction
  · rw [Lexical.readNumeral?_append _ _ d.isDigit_whole d.isDigit_fraction, Number.ofDigits,
      d.ofDigits_whole_fraction, Number.ofDecimal, hnearest]

theorem run_number (x : Float) (h : x.isFinite = true) :
    ∃ s, run (Number.text x) {} = .ok (.value (.number x), s) := by
  have hmag := (Number.isFinite_iff x).mp h
  have hnan : x.isNaN = false := by
    rw [Bool.eq_false_iff, ne_eq, Number.isNaN_iff]
    omega
  obtain ⟨hnumeral, hread⟩ := numeral_of_magnitude (Number.magnitude x) hmag
  have hx := Number.eq_of_magnitude x h
  unfold Number.text Number.digits Number.magnitudeDigits
  rw [hnan, if_neg (Nat.ne_of_lt hmag)]
  cases hneg : Number.isNegative x with
  | true =>
    have hrun := run_minus_numeral _ _ hnumeral hread
    simp only [hneg, if_true] at hx
    rw [← hx] at hrun
    exact hrun
  | false =>
    have hrun := run_lexeme .number _ _ (.number _ hnumeral) (denotes_numeral _ _ _ hread)
    simp only [hneg, Bool.false_eq_true, if_false] at hx
    rw [← hx] at hrun
    exact hrun

theorem text_of_not_finite (x : Float) (h : x.isFinite = false) :
    Number.text x ∈ ["NaN", "inf", "-inf"] := by
  have hmag := mt (Number.isFinite_iff x).mpr (by simp [h])
  unfold Number.text Number.digits Number.magnitudeDigits
  by_cases hnan : x.isNaN = true
  · rw [if_pos hnan]
    decide
  · have hle := mt (Number.isNaN_iff x).mpr hnan
    have heq : Number.magnitude x = Binary64.infinity := by omega
    simp only [hnan, heq, if_true]
    cases Number.isNegative x <;> decide

theorem run_not_finite (w : String) (h : w ∈ ["NaN", "inf", "-inf"]) :
    ∃ s, run w {} = .ok (.syntaxFailure, s) := by
  obtain ⟨err, hclean, hparse⟩ : ∃ err, lexicalErrors w = [] ∧ Parses w (.error err) := by
    unfold Parses
    simp only [List.mem_cons, List.not_mem_nil, or_false] at h
    rcases h with rfl | rfl | rfl
    · exact ⟨⟨.expectExpression, ⟨.identifier, "NaN", none, 1, ⟨0, 3⟩⟩⟩, by decide +kernel⟩
    · exact ⟨⟨.expectExpression, ⟨.identifier, "inf", none, 1, ⟨0, 3⟩⟩⟩, by decide +kernel⟩
    · exact ⟨⟨.expectExpression, ⟨.identifier, "inf", none, 1, ⟨1, 4⟩⟩⟩, by decide +kernel⟩
  obtain ⟨s, -, hrun, -⟩ := parse_of_refusal w err hclean hparse
  exact ⟨s, hrun⟩

/-! ## Values -/

namespace Value

/-- The text of a value as it stands in an expression. -/
def written : Value → String
  | string s => "\"" ++ s ++ "\""
  | v => v.text

/-- Only numbers can be infinite or NaN. -/
def isFinite : Value → Bool
  | number x => x.isFinite
  | string _ | bool _ | nil => true

end Value

theorem run_string (s : String) (h : '"' ∉ s.toList) :
    ∃ s', run (Value.string s).written {} = .ok (.value (.string s), s') := by
  have hwritten : (Value.string s).written = String.ofList ('"' :: s.toList ++ ['"']) := by
    simp [Value.written, ← String.toList_inj]
  rw [hwritten]
  apply run_lexeme .string
  · exact .string _ ⟨s.toList, h, rfl⟩
  · apply denotes_literal _ .string _ _ (Or.inr rfl)
    simp [Lexical.literalOf]

theorem run_word (w : String) (k : Keyword) (v : Value) (h : (w, k) ∈ Lexical.reservedWords)
    (hv : ∀ t : Token, t.kind = .keyword k → Grammar.Denotes t v) :
    ∃ s, run w {} = .ok (.value v, s) := by
  have hrun := run_lexeme (.keyword k) w.toList v (.reserved w k h) (hv _ rfl)
  rw [String.ofList_toList] at hrun
  exact hrun

theorem run_written (v : Value) (hq : v.QuoteFree) (hf : v.isFinite = true) :
    ∃ s, run v.written {} = .ok (.value v, s) := by
  cases v with
  | number x => exact run_number x hf
  | string s => exact run_string s hq
  | bool b =>
    cases b with
    | true => exact run_word "true" .kwTrue _ (by decide) fun t ht => Or.inr (Or.inl ⟨ht, rfl⟩)
    | false => exact run_word "false" .kwFalse _ (by decide) fun t ht => Or.inl ⟨ht, rfl⟩
  | nil => exact run_word "nil" .kwNil _ (by decide) fun t ht => Or.inr (Or.inr (Or.inl ⟨ht, rfl⟩))

/-- **Printed values read back.** The value of any run has no quote in it. Written as a literal it
is a text whose run gives the same value again, unless it is an infinity or NaN: those are written
as words that are no expressions. -/
theorem printed_values_read_back (src : String) (v : Value) (s : Sink)
    (h : run src {} = .ok (.value v, s)) :
    (∀ t, v = .string t → '"' ∉ t.toList) ∧
      (v.isFinite = true → ∃ s', run v.written {} = .ok (.value v, s')) ∧
      (v.isFinite = false → ∃ s', run v.written {} = .ok (.syntaxFailure, s')) := by
  obtain ⟨e, hparse, hv⟩ := evaluate_of_run src v s h
  have hquote := value_quoteFree src e v hparse hv
  refine ⟨?_, run_written v hquote, ?_⟩
  · rintro t rfl
    exact hquote
  · intro hf
    cases v with
    | number x => exact run_not_finite _ (text_of_not_finite x hf)
    | string _ | bool _ | nil => cases hf

theorem printed_values_read_back_negative_zero :
    let zero : Value := .number (Float.ofBits 0x8000000000000000)
    ∃ s s', run "0*-1" {} = .ok (.value zero, s) ∧ zero.written = "-0" ∧
      run "-0" {} = .ok (.value zero, s') := by
  -- A product that is negative zero is printed with its sign and read back with it.
  intro zero
  have hclean : lexicalErrors "0*-1" = [] := by decide +kernel
  have hparse : Parses "0*-1" (.ok (.binary (.literal (.number (Number.ofDigits ['0'] [])))
      ⟨.star, "*", none, 1, ⟨1, 2⟩⟩ (.unary ⟨.minus, "-", none, 1, ⟨2, 3⟩⟩
        (.literal (.number (Number.ofDigits ['1'] [])))))) := by
    unfold Parses
    decide +kernel
  have hgives := gives_evaluate _ _ hclean hparse
  have hzero : Gives "0*-1" (.ok zero) := by
    convert hgives using 1
    decide +kernel
  obtain ⟨s, hrun, -⟩ := hzero
  have hwritten : zero.written = "-0" := by decide +kernel
  obtain ⟨s', hback⟩ := (printed_values_read_back "0*-1" zero s hrun).2.1 (by decide +kernel)
  rw [hwritten] at hback
  exact ⟨s, s', hrun, hwritten, hback⟩

end Lox
