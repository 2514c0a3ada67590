import Lox.Proofs.Literals

/-!
# Printed trees are unambiguous

An expression is printed in two ways. With parentheses, each operator stands in front of its
operands, and their number tells the minus of one operand from the minus of two. In postfix form
nothing is enclosed, but every word says by itself how many operands it takes. Either way, what was
printed can be told from the text, up to the places of the operators, which are not printed.
-/

namespace Lox

/-! ## Trees without places -/

/-- The token as if it stood nowhere. -/
def Token.unplaced (t : Token) : Token := { t with line := 0, span := .point 0 }

/-- The expression without the places of its operators. -/
def Expr.unplaced (e : Expr) : Expr := e.mapTokens Token.unplaced

namespace Expr

@[simp] theorem unplaced_literal (v : Value) : (literal v).unplaced = literal v := rfl

@[simp] theorem unplaced_group (e : Expr) : (group e).unplaced = group e.unplaced := rfl

@[simp] theorem unplaced_unary (op : Token) (e : Expr) :
    (unary op e).unplaced = unary op.unplaced e.unplaced := rfl

@[simp] theorem unplaced_binary (l : Expr) (op : Token) (r : Expr) :
    (binary l op r).unplaced = binary l.unplaced op.unplaced r.unplaced := rfl

end Expr

theorem moves_unplaced : Moves Token.unplaced := ⟨fun _ => rfl, fun _ => rfl, fun _ => rfl⟩

theorem Expr.postfixForm_ungrouped (e : Expr) : e.ungrouped.postfixForm = e.postfixForm := by
  induction e with
  | literal v => rfl
  | group e ih => exact ih
  | unary op e ih => rw [ungrouped, postfixForm, postfixForm, ih]
  | binary l op r ihl ihr => rw [ungrouped, postfixForm, postfixForm, ihl, ihr]

/-! ## Trees of a text -/

/-- No literal is a string. -/
def Expr.StringFree : Expr → Prop
  | literal v => ∀ s, v ≠ .string s
  | group e => e.StringFree
  | unary _ e => e.StringFree
  | binary l _ r => l.StringFree ∧ r.StringFree

/-- A sign as it stands in a text. -/
structure Token.IsSign (t : Token) : Prop where
  lexeme : (t.lexeme.toList, t.kind) ∈ Lexical.signs
  literal : t.literal = none

/-- The literals are written without quotes, and the operators are signs. -/
def Expr.Printable : Expr → Prop
  | literal v => v.Unquoted
  | group e => e.Printable
  | unary op e => op.IsSign ∧ op.kind ∈ Grammar.unaryOperators ∧ e.Printable
  | binary l op r =>
    l.Printable ∧ op.IsSign ∧ op.kind ∈ Grammar.binaryOperators ∧ r.Printable

theorem Grammar.operators_subset (r : Grammar.Rule) : r.operators ⊆ Grammar.binaryOperators := by
  cases r <;> decide

section

variable (t : Token) (ht : t.isEof = false → Lexical.Genuine t)

include ht

theorem isSign_of_operator (hk : t.kind ∈ Grammar.unaryOperators ++ Grammar.binaryOperators) :
    t.IsSign := by
  have heof : t.isEof = false := by
    rw [Token.isEof, beq_eq_false_iff_ne]
    intro heof
    rw [heof] at hk
    exact absurd hk (by decide)
  obtain ⟨hlexeme, hliteral⟩ := ht heof
  have hsign : (t.lexeme.toList, t.kind) ∈ Lexical.signs := by
    generalize t.lexeme.toList = w at hlexeme ⊢
    generalize t.kind = k at hlexeme hk ⊢
    cases hlexeme with
    | sign w k h => exact h
    | string | number | reserved | identifier =>
      simp [Grammar.unaryOperators, Grammar.binaryOperators] at hk
  exact ⟨hsign, by rw [hliteral, Lexical.literalOf_sign _ _ hsign]⟩

theorem unsigned_of_denotes (v : Value) (h : Grammar.Denotes t v) : v.Unsigned := by
  rcases h with ⟨-, rfl⟩ | ⟨-, rfl⟩ | ⟨-, rfl⟩ | ⟨hk, hv⟩
  · trivial
  · trivial
  · trivial
  · have heof : t.isEof = false := by rcases hk with hk | hk <;> simp [Token.isEof, hk]
    have hliteral := (ht heof).literal
    rw [hv] at hliteral
    rcases hk with hk | hk
    · rw [hk] at hliteral
      obtain ⟨x, hx, rfl⟩ := Option.map_eq_some_iff.mp hliteral.symm
      exact Number.unsigned_of_readNumeral? _ x hx
    · rw [hk] at hliteral
      obtain rfl := Option.some.inj hliteral
      trivial

end

theorem printable_of_derives (r : Grammar.Rule) (ts : List Token) (e : Expr)
    (h : Grammar.Derives r ts e) (hts : ∀ t ∈ ts, t.isEof = false → Lexical.Genuine t)
    (hs : e.StringFree) : e.Printable := by
  induction h with
  | literal t v h =>
    have hv := unsigned_of_denotes t (hts t List.mem_cons_self) v h
    exact Value.unquoted_of_unsigned v hv hs
  | group l r ts e hl he hr ih => exact ih (fun t ht => hts t (by simp [ht])) hs
  | unary op ts e hop he ih =>
    refine ⟨isSign_of_operator op (hts op (by simp)) (by simp [hop]), hop, ?_⟩
    exact ih (fun t ht => hts t (by simp [ht])) hs
  | operand r ts e he ih => exact ih hts hs
  | binary r ts us left right op hl hop hr ihl ihr =>
    have hmem := Grammar.operators_subset r hop
    refine ⟨?_, isSign_of_operator op (hts op (by simp)) (by simp [hmem]), hmem, ?_⟩
    · exact ihl (fun t ht => hts t (by simp [ht])) hs.1
    · exact ihr (fun t ht => hts t (by simp [ht])) hs.2

theorem parses_of_parse (src : String) (s s' : Sink) (e : Expr)
    (h : parse src s = .ok (some e, s')) : Parses src (.ok e) := by
  obtain ⟨result, hresult, -⟩ := parses_operable src
  obtain ⟨parsed, -, hcases⟩ := run_cases src s result hresult
  rcases hcases with ⟨-, hparse, -⟩ | ⟨-, -, e', rfl, hparse, -⟩
  · rw [h] at hparse
    cases hparse
  · rw [h] at hparse
    cases hparse
    exact hresult

theorem genuine_of_parse (src : String) (s s' : Sink) (e : Expr)
    (h : parse src s = .ok (some e, s')) :
    ∃ ts, (∀ t ∈ ts, t.isEof = false → Lexical.Genuine t) ∧ Grammar.Derives .equality ts e := by
  obtain ⟨us, rest, htokens, hd⟩ := derives_of_parses src e (parses_of_parse src s s' e h)
  refine ⟨us, ?_, hd⟩
  intro t ht
  apply genuine_of_mem_tokensOf src t
  rw [htokens]
  exact List.mem_append_left rest ht

theorem printable_of_parse (src : String) (s s' : Sink) (e : Expr)
    (h : parse src s = .ok (some e, s')) (hs : e.StringFree) : e.Printable := by
  obtain ⟨ts, hts, hd⟩ := genuine_of_parse src s s' e h
  exact printable_of_derives _ ts e hd hts hs

/-! ## The postfix form -/

/-- An operator that stands nowhere. -/
def bare (k : Kind) (w : List Char) : Token := ⟨k, String.ofList w, none, 0, .point 0⟩

theorem unplaced_sign (t : Token) (h : t.IsSign) : t.unplaced = bare t.kind t.lexeme.toList := by
  unfold Token.unplaced bare
  rw [h.literal, String.ofList_toList]

/-- What a word of the postfix form stands for. Two words are operators of one operand, and every
other operator has two. -/
def Node.ofWord? (w : List Char) : Option Node :=
  if w = ['n', 'e', 'g'] then some (.unary (bare .minus ['-']))
  else if w = ['!'] then some (.unary (bare .bang ['!']))
  else
    match Lexical.signKind? w with
    | some k => if k ∈ Grammar.binaryOperators then some (.binary (bare k w)) else none
    | none => (Value.ofWord? w).map .literal

namespace Expr

/-- Puts a node on the expressions that stand in front of it, the last ones as its operands. -/
def push (stack : List Expr) : Node → Option (List Expr)
  | .literal v => some (literal v :: stack)
  | .group => none
  | .unary op =>
    match stack with
    | e :: stack => some (unary op e :: stack)
    | [] => none
  | .binary op =>
    match stack with
    | r :: l :: stack => some (binary l op r :: stack)
    | _ => none

def pushWord (stack : List Expr) (w : List Char) : Option (List Expr) :=
  (Node.ofWord? w).bind (push stack)

/-- The expressions that some words are made of, the last one first. -/
def rebuild (ws : List (List Char)) : Option (List Expr) := ws.foldlM pushWord []

/-- The words of the postfix form. -/
def words : Expr → List (List Char)
  | literal v => [v.text.toList]
  | group e => e.words
  | unary op e => e.words ++ [(unaryName op).toList]
  | binary l op r => l.words ++ (r.words ++ [op.lexeme.toList])

end Expr

section

variable (t : Token) (ht : t.IsSign)

include ht

theorem solid_lexeme (hk : t.kind ∈ Grammar.unaryOperators ++ Grammar.binaryOperators) :
    Solid t.lexeme.toList := by
  have htable : ∀ p ∈ Lexical.signs,
      p.2 ∈ Grammar.unaryOperators ++ Grammar.binaryOperators → Solid p.1 := by decide
  exact htable _ ht.lexeme hk

theorem ofWord?_binary (hk : t.kind ∈ Grammar.binaryOperators) :
    Node.ofWord? t.lexeme.toList = some (.binary t.unplaced) := by
  have htable : ∀ p ∈ Lexical.signs, p.2 ∈ Grammar.binaryOperators →
      Node.ofWord? p.1 = some (.binary (bare p.2 p.1)) := by decide
  rw [unplaced_sign t ht]
  exact htable _ ht.lexeme hk

theorem unaryName_cases (hk : t.kind ∈ Grammar.unaryOperators) :
    (Expr.unaryName t).toList = ['n', 'e', 'g'] ∧ t.unplaced = bare .minus ['-'] ∨
      (Expr.unaryName t).toList = ['!'] ∧ t.unplaced = bare .bang ['!'] := by
  have hlexeme : ∀ p ∈ Lexical.signs, p.2 ∈ Grammar.unaryOperators →
      p = (['-'], .minus) ∨ p = (['!'], .bang) := by decide
  rw [unplaced_sign t ht, Expr.unaryName]
  rcases hlexeme _ ht.lexeme hk with h | h
  · obtain ⟨hw, hkind⟩ := Prod.mk.inj h
    rw [hw, hkind, if_pos (by decide)]
    exact Or.inl ⟨by decide, rfl⟩
  · obtain ⟨hw, hkind⟩ := Prod.mk.inj h
    rw [hw, hkind, if_neg (by decide)]
    exact Or.inr ⟨hw, rfl⟩

theorem ofWord?_unary (hk : t.kind ∈ Grammar.unaryOperators) :
    Node.ofWord? (Expr.unaryName t).toList = some (.unary t.unplaced) := by
  rcases unaryName_cases t ht hk with ⟨hw, ht⟩ | ⟨hw, ht⟩ <;> rw [hw, ht] <;> rfl

theorem solid_unaryName (hk : t.kind ∈ Grammar.unaryOperators) :
    Solid (Expr.unaryName t).toList := by
  rcases unaryName_cases t ht hk with ⟨hw, -⟩ | ⟨hw, -⟩ <;> rw [hw] <;> decide

end

theorem signKind?_numeral (w : List Char) (h : Lexical.IsNumeral w) :
    Lexical.signKind? w = none := by
  rw [Option.eq_none_iff_forall_ne_some]
  intro k hk
  have htable : ∀ p ∈ Lexical.signs, p.1.head?.any Char.isDigit = false := by decide
  have hhead := htable _ ((Lexical.mem_signs_iff w k).mpr hk)
  cases w with
  | nil => cases hk
  | cons c w =>
    have hdigit : c.isDigit = false := hhead
    rw [Lexical.isNumeral_head c w h] at hdigit
    cases hdigit

theorem ofWord?_literal (v : Value) (h : v.Unquoted) :
    Node.ofWord? v.text.toList = some (.literal v) := by
  -- A numeral is no sign, and neither is a literal that is a word.
  have hread := Value.ofWord?_text v h
  cases v with
  | number x =>
    rw [Value.toList_text_number] at hread ⊢
    rcases Number.digits_cases x h with ⟨hdigits, rfl⟩ | ⟨hnumeral, -⟩
    · rw [hdigits]
      rfl
    · have hne := numeral_ne_word (Number.digits x) hnumeral
      unfold Node.ofWord?
      rw [if_neg (hne _ 'n' rfl rfl), if_neg (hne _ '!' rfl rfl),
        signKind?_numeral _ hnumeral]
      exact congrArg (Option.map Node.literal) hread
  | string s => exact absurd h id
  | bool b => cases b <;> rfl
  | nil => rfl

theorem splitOn_solid (w : List Char) (h : Solid w) : w.splitOn ' ' = [w] := by
  apply List.splitOn_eq_singleton
  intro hmem
  exact h ' ' hmem (by decide)

namespace Expr

theorem splitOn_postfixForm (e : Expr) (h : e.Printable) :
    e.postfixForm.toList.splitOn ' ' = e.words := by
  induction e with
  | literal v => exact splitOn_solid _ (Value.solid_text v h)
  | group e ih => exact ih h
  | unary op e ih =>
    obtain ⟨hop, hk, he⟩ := h
    have htext : (unary op e).postfixForm.toList =
        e.postfixForm.toList ++ ' ' :: (unaryName op).toList := by simp [postfixForm]
    rw [htext, List.splitOn_append_cons_self, ih he, splitOn_solid _ (solid_unaryName op hop hk)]
    rfl
  | binary l op r ihl ihr =>
    obtain ⟨hl, hop, hk, hr⟩ := h
    have htext : (binary l op r).postfixForm.toList = l.postfixForm.toList ++
        ' ' :: (r.postfixForm.toList ++ ' ' :: op.lexeme.toList) := by simp [postfixForm]
    rw [htext, List.splitOn_append_cons_self, List.splitOn_append_cons_self, ihl hl, ihr hr,
      splitOn_solid _ (solid_lexeme op hop (by simp [hk]))]
    rfl

-- The words of an expression leave it on top of whatever was there.
theorem foldlM_words (e : Expr) (h : e.Printable) (stack : List Expr) :
    e.words.foldlM pushWord stack = some (e.ungrouped.unplaced :: stack) := by
  induction e generalizing stack with
  | literal v => simp [words, pushWord, ofWord?_literal v h, push, ungrouped]
  | group e ih => exact ih h stack
  | unary op e ih =>
    obtain ⟨hop, hk, he⟩ := h
    rw [words, List.foldlM_append, ih he]
    simp [pushWord, ofWord?_unary op hop hk, push, ungrouped]
  | binary l op r ihl ihr =>
    obtain ⟨hl, hop, hk, hr⟩ := h
    rw [words, List.foldlM_append, ihl hl, Option.bind_eq_bind, Option.bind_some,
      List.foldlM_append, ihr hr]
    simp [pushWord, ofWord?_binary op hop hk, push, ungrouped]

theorem rebuild_postfixForm (e : Expr) (h : e.Printable) :
    rebuild (e.postfixForm.toList.splitOn ' ') = some [e.ungrouped.unplaced] := by
  rw [splitOn_postfixForm e h]
  exact foldlM_words e h []

end Expr

/-! ## The form with parentheses -/

/-- The text goes on with a blank or a closing parenthesis, or not at all. -/
def Stops (r : List Char) : Prop := ∀ c ∈ r.head?, c ∈ [' ', ')']

theorem not_solid_append (c : Char) (w r s : List Char) (hw : Solid (c :: w)) (hs : Stops s) :
    c :: w ++ r ≠ s := by
  rintro rfl
  have hstop := hs c rfl
  simp only [List.mem_cons, List.not_mem_nil, or_false] at hstop
  apply hw c List.mem_cons_self
  rcases hstop with rfl | rfl <;> decide

theorem word_inj (v w r s : List Char) (hv : Solid v) (hw : Solid w) (hr : Stops r) (hs : Stops s)
    (h : v ++ r = w ++ s) : v = w ∧ r = s := by
  induction v generalizing w with
  | nil =>
    cases w with
    | nil => exact ⟨rfl, h⟩
    | cons d w => exact absurd h.symm (not_solid_append d w s r hw hr)
  | cons c v ih =>
    cases w with
    | nil => exact absurd h (not_solid_append c v r s hv hs)
    | cons d w =>
      obtain ⟨rfl, htail⟩ := List.cons.inj h
      have hv' : Solid v := fun x hx => hv x (List.mem_cons_of_mem c hx)
      have hw' : Solid w := fun x hx => hw x (List.mem_cons_of_mem c hx)
      obtain ⟨rfl, hrest⟩ := ih w hv' hw' htail
      exact ⟨rfl, hrest⟩

theorem word_ne_open (w r s : List Char) (hw : Solid w) (hr : Stops r) : w ++ r ≠ '(' :: s := by
  cases w with
  | nil =>
    rintro rfl
    exact absurd (hr '(' rfl) (by decide)
  | cons c w =>
    intro h
    obtain ⟨rfl, -⟩ := List.cons.inj h
    exact hw '(' List.mem_cons_self (by decide)

namespace Expr

/-- The word behind the opening parenthesis. A literal has no parenthesis. -/
def opening : Expr → Option (List Char)
  | literal _ => none
  | group _ => some "group".toList
  | unary op _ => some op.lexeme.toList
  | binary _ op _ => some op.lexeme.toList

def operands : Expr → List Expr
  | literal _ => []
  | group e => [e]
  | unary _ e => [e]
  | binary l _ r => [l, r]

/-- Each operand behind a blank, and then the closing parenthesis and the rest of the text. -/
def enclosed : List Expr → List Char → List Char
  | [], r => ')' :: r
  | e :: es, r => ' ' :: (e.display.toList ++ enclosed es r)

/-- What a word and the operands behind it are. Their number tells a minus of one operand from a
minus of two. -/
def ofParts? (w : List Char) : List Expr → Option Expr
  | [e] =>
    if w = "group".toList then some (group e)
    else (Lexical.signKind? w).map fun k => unary (bare k w) e
  | [l, r] => (Lexical.signKind? w).map fun k => binary l (bare k w) r
  | _ => none

theorem display_opening (e : Expr) (w r : List Char) (hw : e.opening = some w) :
    e.display.toList ++ r = '(' :: (w ++ enclosed e.operands r) := by
  cases e with
  | literal v => cases hw
  | group | unary | binary =>
    cases hw
    simp [display, operands, enclosed]

theorem eq_literal_of_opening (e : Expr) (h : e.opening = none) : ∃ v, e = literal v := by
  cases e with
  | literal v => exact ⟨v, rfl⟩
  | group | unary | binary => cases h

theorem stops_enclosed (es : List Expr) (r : List Char) : Stops (enclosed es r) := by
  cases es <;> (rintro c ⟨⟩; decide)

section

variable (e : Expr) (h : e.Printable)

include h

theorem solid_opening (w : List Char) (hw : e.opening = some w) : Solid w := by
  cases e with
  | literal v => cases hw
  | group e =>
    cases hw
    decide
  | unary op e =>
    obtain ⟨hop, hk, -⟩ := h
    cases hw
    exact solid_lexeme op hop (List.mem_append_left _ hk)
  | binary l op r =>
    obtain ⟨-, hop, hk, -⟩ := h
    cases hw
    exact solid_lexeme op hop (List.mem_append_right _ hk)

theorem printable_operands : ∀ c ∈ e.operands, c.Printable := by
  cases e with
  | literal v => simp [operands]
  | group e => simpa [operands, Printable] using h
  | unary op e => simpa [operands] using h.2.2
  | binary l op r => simpa [operands] using And.intro h.1 h.2.2.2

theorem ofParts?_operands (w : List Char) (hw : e.opening = some w) :
    ofParts? w (e.operands.map unplaced) = some e.unplaced := by
  cases e with
  | literal v => cases hw
  | group e =>
    cases hw
    simp [operands, ofParts?]
  | unary op e =>
    obtain ⟨hop, -, -⟩ := h
    cases hw
    have hkind := (Lexical.mem_signs_iff _ _).mp hop.lexeme
    have htable : ∀ p ∈ Lexical.signs, p.1 ≠ "group".toList := by decide
    rw [unplaced_unary, unplaced_sign op hop, operands, List.map_singleton, ofParts?,
      if_neg (htable _ hop.lexeme), hkind, Option.map_some]
  | binary l op r =>
    obtain ⟨-, hop, -, -⟩ := h
    cases hw
    have hkind := (Lexical.mem_signs_iff _ _).mp hop.lexeme
    simp [operands, ofParts?, hkind, unplaced_sign op hop]

end

/-- No other printed expression begins a text as this one does, whatever follows. -/
def Legible (a : Expr) : Prop :=
  ∀ (b : Expr) (r s : List Char), b.Printable → Stops r → Stops s →
    a.display.toList ++ r = b.display.toList ++ s → a.unplaced = b.unplaced ∧ r = s

theorem enclosed_inj (as bs : List Expr) (r s : List Char) (has : ∀ a ∈ as, a.Legible)
    (hbs : ∀ b ∈ bs, b.Printable) (h : enclosed as r = enclosed bs s) :
    as.map unplaced = bs.map unplaced ∧ r = s := by
  induction as generalizing bs with
  | nil =>
    cases bs with
    | nil => exact ⟨rfl, (List.cons.inj h).2⟩
    | cons b bs => cases (List.cons.inj h).1
  | cons a as ih =>
    cases bs with
    | nil => cases (List.cons.inj h).1
    | cons b bs =>
      obtain ⟨ha, has⟩ := List.forall_mem_cons.mp has
      obtain ⟨hb, hbs⟩ := List.forall_mem_cons.mp hbs
      obtain ⟨hhead, hbody⟩ :=
        ha b _ _ hb (stops_enclosed as r) (stops_enclosed bs s) (List.cons.inj h).2
      obtain ⟨htail, hrest⟩ := ih bs has hbs hbody
      rw [List.map_cons, List.map_cons, hhead, htail]
      exact ⟨rfl, hrest⟩

theorem legible_literal (v : Value) (hv : v.Unquoted) : (literal v).Legible := by
  intro b r s hb hr hs h
  have hsolid := Value.solid_text v hv
  cases hopening : b.opening with
  | some w => exact absurd (h.trans (display_opening b w s hopening)) (word_ne_open _ r _ hsolid hr)
  | none =>
    obtain ⟨w, rfl⟩ := eq_literal_of_opening b hopening
    obtain ⟨htext, hrest⟩ := word_inj _ _ r s hsolid (Value.solid_text w hb) hr hs h
    have hread := Value.ofWord?_text v hv
    rw [htext, Value.ofWord?_text w hb] at hread
    rw [Option.some.inj hread]
    exact ⟨rfl, hrest⟩

theorem legible_of_operands (a : Expr) (w : List Char) (ha : a.Printable)
    (hw : a.opening = some w) (hoperands : ∀ c ∈ a.operands, c.Legible) : a.Legible := by
  intro b r s hb hr hs h
  rw [display_opening a w r hw] at h
  cases hopening : b.opening with
  | none =>
    obtain ⟨v, rfl⟩ := eq_literal_of_opening b hopening
    exact absurd h.symm (word_ne_open _ s _ (Value.solid_text v hb) hs)
  | some w' =>
    rw [display_opening b w' s hopening] at h
    obtain ⟨rfl, hbody⟩ := word_inj w w' _ _ (solid_opening a ha w hw)
      (solid_opening b hb w' hopening) (stops_enclosed _ r) (stops_enclosed _ s) (List.cons.inj h).2
    obtain ⟨hsame, hrest⟩ := enclosed_inj _ _ r s hoperands (printable_operands b hb) hbody
    have hparts := ofParts?_operands a ha w hw
    rw [hsame, ofParts?_operands b hb w hopening] at hparts
    exact ⟨(Option.some.inj hparts).symm, hrest⟩

theorem legible_of_printable (a : Expr) (ha : a.Printable) : a.Legible := by
  induction a with
  | literal v => exact legible_literal v ha
  | group e ih => exact legible_of_operands _ _ ha rfl (by simpa [operands] using ih ha)
  | unary op e ih => exact legible_of_operands _ _ ha rfl (by simpa [operands] using ih ha.2.2)
  | binary l op r ihl ihr =>
    apply legible_of_operands _ _ ha rfl
    simpa [operands] using And.intro (ihl ha.1) (ihr ha.2.2.2)

theorem display_inj (a b : Expr) (ha : a.Printable) (hb : b.Printable)
    (h : a.display = b.display) : a.unplaced = b.unplaced := by
  have hend : Stops [] := by
    intro c hc
    cases hc
  exact (legible_of_printable a ha b [] [] hb hend hend (by rw [h])).1

theorem postfixForm_inj (a b : Expr) (ha : a.Printable) (hb : b.Printable)
    (h : a.postfixForm = b.postfixForm) : a.ungrouped.unplaced = b.ungrouped.unplaced := by
  have hrebuild := rebuild_postfixForm a ha
  rw [h, rebuild_postfixForm b hb] at hrebuild
  exact (List.cons.inj (Option.some.inj hrebuild)).1.symm

theorem display_unplaced (e : Expr) : e.unplaced.display = e.display :=
  display_map Token.unplaced moves_unplaced e

theorem postfixForm_unplaced (e : Expr) : e.unplaced.postfixForm = e.postfixForm :=
  postfixForm_map Token.unplaced moves_unplaced e

end Expr

/-- **Printed trees are unambiguous.** Take two trees without strings that texts were parsed into.
They are printed with parentheses alike exactly if they are the same up to where their operators
stand, and in postfix form exactly if they are the same without their parentheses. The words of the
postfix form, taken one by one, leave this tree and nothing else. -/
theorem printed_trees_unambiguous (src src' : String) (s s' t t' : Sink) (a b : Expr)
    (ha : parse src s = .ok (some a, t)) (hb : parse src' s' = .ok (some b, t'))
    (ha' : a.StringFree) (hb' : b.StringFree) :
    (a.display = b.display ↔ a.unplaced = b.unplaced) ∧
      (a.postfixForm = b.postfixForm ↔ a.ungrouped.unplaced = b.ungrouped.unplaced) ∧
      Expr.rebuild (a.postfixForm.toList.splitOn ' ') = some [a.ungrouped.unplaced] := by
  have hpa := printable_of_parse src s t a ha ha'
  have hpb := printable_of_parse src' s' t' b hb hb'
  refine ⟨⟨Expr.display_inj a b hpa hpb, ?_⟩, ⟨Expr.postfixForm_inj a b hpa hpb, ?_⟩, ?_⟩
  · intro h
    rw [← a.display_unplaced, h, b.display_unplaced]
  · intro h
    rw [← a.postfixForm_ungrouped, ← a.ungrouped.postfixForm_unplaced, h,
      b.ungrouped.postfixForm_unplaced, b.postfixForm_ungrouped]
  · exact Expr.rebuild_postfixForm a hpa

-- A string is printed without its quotes, so that it may look like any other tree.
example : (Expr.literal (.string "nil")).display = (Expr.literal .nil).display := rfl

def minusAt (i : Nat) : Token := ⟨.minus, "-", none, 1, ⟨i, i + 1⟩⟩

def twoMinuses : Expr :=
  .binary (.literal .nil) (minusAt 3) (.unary (minusAt 4) (.literal .nil))

def twoMinusesGrouped : Expr :=
  .binary (.literal .nil) (minusAt 3) (.group (.unary (minusAt 5) (.literal .nil)))

theorem printed_trees_unambiguous_two_minuses :
    (∃ s, parse "nil--nil" {} = .ok (some twoMinuses, s)) ∧
      (∃ s, parse "nil-(-nil)" {} = .ok (some twoMinusesGrouped, s)) ∧
      twoMinuses.StringFree ∧ twoMinusesGrouped.StringFree ∧
      twoMinuses.display ≠ twoMinusesGrouped.display ∧
      twoMinuses.unplaced ≠ twoMinusesGrouped.unplaced ∧
      twoMinuses.postfixForm = twoMinusesGrouped.postfixForm ∧
      twoMinuses.ungrouped.unplaced = twoMinusesGrouped.ungrouped.unplaced ∧
      Expr.rebuild (twoMinuses.postfixForm.toList.splitOn ' ') =
        some [twoMinuses.ungrouped.unplaced] := by
  -- Only one of the two printed forms shows the parentheses.
  have hparses : Parses "nil--nil" (.ok twoMinuses) := by
    unfold Parses
    decide +kernel
  have hparses' : Parses "nil-(-nil)" (.ok twoMinusesGrouped) := by
    unfold Parses
    decide +kernel
  obtain ⟨s, hs, -⟩ := parse_of_tree _ _ (by decide +kernel) hparses
  obtain ⟨t, ht, -⟩ := parse_of_tree _ _ (by decide +kernel) hparses'
  have hnil : ∀ x, Value.nil ≠ .string x := by simp
  have hfree : twoMinuses.StringFree := ⟨hnil, hnil⟩
  have hfree' : twoMinusesGrouped.StringFree := ⟨hnil, hnil⟩
  obtain ⟨hdisplay, hpostfix, hrebuild⟩ :=
    printed_trees_unambiguous _ _ {} {} s t _ _ hs ht hfree hfree'
  have hdiffer : twoMinuses.display ≠ twoMinusesGrouped.display := by decide
  exact ⟨⟨s, hs⟩, ⟨t, ht⟩, hfree, hfree', hdiffer, mt hdisplay.mpr hdiffer, rfl, hpostfix.mp rfl,
    hrebuild⟩

end Lox
