import Lox.Proofs.Lexical
import Mathlib.Data.List.TakeWhile
import Mathlib.Tactic.ByContra

/-!
# The scanner takes the longest lexeme

The first character decides which class a lexeme belongs to. For each class, what the scanner reads
is at least as long as any lexeme of that class, so it is the longest of all. Layout is skipped the
same way by both sides, and an induction along the text gives the items.
-/

namespace Lox.Lexical

/-! ## Characters -/

theorem sign_char (c : Char) (h : (∃ k, Kind.ofSign? c = some k) ∨ ∃ k, Kind.ofSignEqual? c = some k) :
    c ≠ '"' ∧ c.isDigit = false ∧ isLetter c = false := by
  rcases h with ⟨k, h⟩ | ⟨k, h⟩
  · unfold Kind.ofSign? at h
    split at h
    all_goals first | decide | simp at h
  · unfold Kind.ofSignEqual? at h
    split at h
    all_goals first | decide | simp at h

theorem isLetter_of_isDigit (c : Char) (h : c.isDigit = true) : isLetter c = false := by
  simp only [Char.isDigit, ge_iff_le, Bool.and_eq_true, decide_eq_true_eq, UInt32.le_iff_toNat_le] at h
  have hne : c ≠ '_' := by
    rintro rfl
    simp at h
  have hupper : c.isUpper = decide ('A'.val ≤ c.val ∧ c.val ≤ 'Z'.val) := rfl
  have hlower : c.isLower = (decide ('a'.val ≤ c.val) && decide (c.val ≤ 'z'.val)) := rfl
  have halpha : c.isAlpha = (c.isUpper || c.isLower) := rfl
  simp only [isLetter, halpha, hupper, hlower, Bool.or_eq_false_iff, Bool.and_eq_false_iff,
    decide_eq_false_iff_not, UInt32.le_iff_toNat_le, beq_eq_false_iff_ne]
  refine ⟨⟨?_, ?_⟩, hne⟩
  · simp at h ⊢
    omega
  · simp at h ⊢
    omega

/-- The kind of a text that is a sign. -/
def signKind? : List Char → Option Kind
  | [c] => Kind.ofSign? c
  | [c, '='] => Kind.ofSignEqual? c
  | _ => none

theorem signKind?_cons (c : Char) (v : List Char) (k : Kind) (h : signKind? (c :: v) = some k) :
    v = [] ∧ Kind.ofSign? c = some k ∨ v = ['='] ∧ Kind.ofSignEqual? c = some k := by
  unfold signKind? at h
  split at h
  · rename_i heq
    obtain ⟨rfl, rfl⟩ := List.cons.inj heq
    exact Or.inl ⟨rfl, h⟩
  · rename_i heq
    obtain ⟨rfl, rfl⟩ := List.cons.inj heq
    exact Or.inr ⟨rfl, h⟩
  · simp at h

theorem mem_signs_iff (w : List Char) (k : Kind) : (w, k) ∈ signs ↔ signKind? w = some k := by
  constructor
  · have htable : ∀ p ∈ signs, signKind? p.1 = some p.2 := by decide
    exact htable (w, k)
  · intro h
    unfold signKind? at h
    split at h
    · unfold Kind.ofSign? at h
      split at h
      all_goals first | (cases h; decide) | simp at h
    · unfold Kind.ofSignEqual? at h
      split at h
      all_goals first | (cases h; decide) | simp at h
    · simp at h

/-! ## Words -/

theorem ofWord?_eq_some_iff (w : String) (k : Keyword) :
    Keyword.ofWord? w = some k ↔ (w, k) ∈ reservedWords := by
  constructor
  · intro h
    have hw := List.find?_some h
    simp only [beq_iff_eq] at hw
    subst hw
    cases k <;> decide
  · have htable : ∀ p ∈ reservedWords, Keyword.ofWord? p.1 = some p.2 := by decide
    exact htable (w, k)

theorem isWord_of_reserved (w : String) (k : Keyword) (h : (w, k) ∈ reservedWords) :
    IsWord w.toList := by
  have htable : ∀ p ∈ reservedWords, p.1.toList.all isWordChar ∧ p.1.toList.head?.any isLetter := by
    decide
  obtain ⟨hall, hhead⟩ := htable (w, k) h
  cases hw : w.toList with
  | nil => simp [hw] at hhead
  | cons c cs =>
    simp only [hw, List.all_cons, Bool.and_eq_true, List.all_eq_true, List.head?_cons,
      Option.any_some] at hall hhead
    exact ⟨hhead, hall.2⟩

/-! ## The first character -/

theorem lexeme_ne_nil (k : Kind) (w : List Char) (h : Lexeme k w) : w ≠ [] := by
  rintro rfl
  generalize hw : ([] : List Char) = w at h
  cases h with
  | sign w k h =>
    rw [← hw] at h
    simp [mem_signs_iff, signKind?] at h
  | string w h =>
    obtain ⟨body, -, rfl⟩ := h
    simp at hw
  | number w h =>
    rcases h with h | ⟨ds, fs, -, -, rfl⟩
    · exact h.1 hw.symm
    · simp at hw
  | reserved w k h =>
    have hword := isWord_of_reserved w k h
    rw [← hw] at hword
    exact hword
  | identifier w hword h =>
    rw [← hw] at hword
    exact hword

theorem isNumeral_head (c : Char) (v : List Char) (h : IsNumeral (c :: v)) : c.isDigit = true := by
  rcases h with h | ⟨ds, fs, hds, -, heq⟩
  · exact h.2 c List.mem_cons_self
  · cases ds with
    | nil => exact absurd rfl hds.1
    | cons d ds =>
      obtain ⟨rfl, -⟩ := List.cons.inj heq
      exact hds.2 c List.mem_cons_self

theorem lexeme_cons (k : Kind) (c : Char) (v : List Char) (h : Lexeme k (c :: v)) :
    (c = '"' ∧ k = .string ∧ ∃ body, '"' ∉ body ∧ v = body ++ ['"']) ∨
    (c.isDigit = true ∧ k = .number ∧ IsNumeral (c :: v)) ∨
    (isLetter c = true ∧ k = .ofWord (String.ofList (c :: v)) ∧ ∀ d ∈ v, isWordChar d = true) ∨
    (c ≠ '"' ∧ c.isDigit = false ∧ isLetter c = false ∧ signKind? (c :: v) = some k) := by
  generalize hw : c :: v = w at h
  cases h with
  | sign w k h =>
    subst hw
    rw [mem_signs_iff] at h
    have hc : c ≠ '"' ∧ c.isDigit = false ∧ isLetter c = false := by
      apply sign_char c
      rcases signKind?_cons c v k h with ⟨-, h⟩ | ⟨-, h⟩
      · exact Or.inl ⟨k, h⟩
      · exact Or.inr ⟨k, h⟩
    exact Or.inr (Or.inr (Or.inr ⟨hc.1, hc.2.1, hc.2.2, h⟩))
  | string w h =>
    obtain ⟨body, hbody, rfl⟩ := h
    obtain ⟨rfl, rfl⟩ := List.cons.inj hw
    exact Or.inl ⟨rfl, rfl, body, hbody, rfl⟩
  | number w h =>
    subst hw
    exact Or.inr (Or.inl ⟨isNumeral_head c v h, rfl, h⟩)
  | reserved w k h =>
    have hword := isWord_of_reserved w k h
    rw [← hw] at hword
    refine Or.inr (Or.inr (Or.inl ⟨hword.1, ?_, hword.2⟩))
    rw [String.ofList_toList, Kind.ofWord, (ofWord?_eq_some_iff w k).mpr h]
  | identifier w hword h =>
    subst hw
    refine Or.inr (Or.inr (Or.inl ⟨hword.1, ?_, hword.2⟩))
    have hnone : Keyword.ofWord? (String.ofList (c :: v)) = none := by
      rw [Option.eq_none_iff_forall_ne_some]
      intro k hk
      exact h k ((ofWord?_eq_some_iff _ k).mp hk)
    rw [Kind.ofWord, hnone]

theorem lexeme_kind_unique (k k' : Kind) (w : List Char) (h : Lexeme k w) (h' : Lexeme k' w) :
    k = k' := by
  cases w with
  | nil => exact absurd rfl (lexeme_ne_nil k [] h)
  | cons c v =>
    have hd := isLetter_of_isDigit c
    have hq : '"'.isDigit = false ∧ isLetter '"' = false := by decide
    rcases lexeme_cons k c v h with ⟨hc, hk, -⟩ | ⟨hc, hk, -⟩ | ⟨hc, hk, -⟩ | ⟨hc, hc', hc'', hk⟩ <;>
    rcases lexeme_cons k' c v h' with ⟨gc, gk, -⟩ | ⟨gc, gk, -⟩ | ⟨gc, gk, -⟩ | ⟨gc, gc', gc'', gk⟩ <;>
    simp_all

/-! ## The longest lexeme of each class -/

/-- What a piece must be at the front of a text. -/
def Takes (cs : List Char) : Piece → Prop
  | .lexeme k w v => Lexeme k w ∧ v = literalOf k w ∧ Longest cs w
  | .unexpected c => cs.head? = some c ∧ c ≠ '"' ∧ NoLexeme cs
  | .unterminated w => cs.head? = some '"' ∧ w = cs ∧ NoLexeme cs

theorem lexeme_prefix_cons (k : Kind) (c : Char) (cs w : List Char) (h : Lexeme k w)
    (hp : w <+: c :: cs) : ∃ v, w = c :: v ∧ v <+: cs := by
  cases w with
  | nil => exact absurd rfl (lexeme_ne_nil k [] h)
  | cons d v =>
    obtain ⟨rfl, hv⟩ := List.cons_prefix_cons.mp hp
    exact ⟨v, rfl, hv⟩

theorem prefix_takeWhile (p : Char → Bool) (v cs : List Char) (h : v <+: cs)
    (hv : ∀ c ∈ v, p c = true) : v <+: cs.takeWhile p := by
  obtain ⟨t, rfl⟩ := h
  rw [List.takeWhile_append_of_pos hv]
  exact List.prefix_append _ _

theorem bne_quote_of_not_mem (cs : List Char) (h : '"' ∉ cs) : ∀ c ∈ cs, (c != '"') = true := by
  intro c hc
  rw [bne_iff_ne]
  rintro rfl
  exact h hc

theorem string_of_closed (body rest : List Char) (h : '"' ∉ body) :
    Piece.string (body ++ '"' :: rest) =
      (.lexeme .string ('"' :: body ++ ['"']) (some (.string (String.ofList body))), rest) := by
  have hall := bne_quote_of_not_mem body h
  simp [Piece.string, List.takeWhile_append_of_pos hall, List.dropWhile_append_of_pos hall]

theorem string_of_open (cs : List Char) (h : '"' ∉ cs) :
    Piece.string cs = (.unterminated ('"' :: cs), []) := by
  have hall := bne_quote_of_not_mem cs h
  simp [Piece.string, List.takeWhile_eq_self_iff.mpr hall, List.dropWhile_eq_nil_iff.mpr hall]

theorem string_takes (cs : List Char) : Takes ('"' :: cs) (Piece.string cs).1 := by
  have hquoted : ∀ k w, Lexeme k w → w <+: '"' :: cs →
      ∃ body rest, '"' ∉ body ∧ w = '"' :: body ++ ['"'] ∧ cs = body ++ '"' :: rest := by
    intro k w h hp
    obtain ⟨v, rfl, t, rfl⟩ := lexeme_prefix_cons k '"' cs w h hp
    rcases lexeme_cons k '"' v h with ⟨-, -, body, hb, rfl⟩ | ⟨hc, -⟩ | ⟨hc, -⟩ | ⟨hc, -⟩
    · exact ⟨body, t, hb, rfl, by simp⟩
    · exact absurd hc (by decide)
    · exact absurd hc (by decide)
    · exact absurd rfl hc
  by_cases hcs : '"' ∈ cs
  · obtain ⟨body, rest, rfl, hb⟩ := List.eq_append_cons_of_mem hcs
    have happ := Piece.string_append (body ++ '"' :: rest)
    rw [string_of_closed body rest hb] at happ ⊢
    have hl : Lexeme .string ('"' :: body ++ ['"']) := .string _ ⟨body, hb, rfl⟩
    refine ⟨hl, by simp [literalOf], ⟨rest, happ⟩, ⟨.string, hl⟩, ?_⟩
    intro k v hv hp
    obtain ⟨body', rest', hb', rfl, heq⟩ := hquoted k v hv hp
    have hsame := string_of_closed body' rest' hb'
    rw [← heq, string_of_closed body rest hb] at hsame
    simp only [Prod.mk.injEq, Piece.lexeme.injEq, true_and] at hsame
    rw [hsame.1.1]
  · rw [string_of_open cs hcs]
    refine ⟨rfl, rfl, ?_⟩
    intro k w h hp
    obtain ⟨body, rest, -, -, rfl⟩ := hquoted k w h hp
    simp at hcs

theorem fraction_of_digits (fs rest : List Char) (h : IsDigits fs) :
    Piece.fraction ('.' :: (fs ++ rest)) =
      (fs ++ rest.takeWhile Char.isDigit, rest.dropWhile Char.isDigit) := by
  simp [Piece.fraction, List.takeWhile_append_of_pos h.2, List.dropWhile_append_of_pos h.2, h.1]

theorem fraction_digits (cs : List Char) : ∀ c ∈ (Piece.fraction cs).1, c.isDigit = true := by
  unfold Piece.fraction
  split
  · rename_i cs
    by_cases h : cs.takeWhile Char.isDigit = []
    · simp [h]
    · simp only [h, if_false]
      intro c hc
      exact List.mem_takeWhile_imp hc
  · simp

theorem isNumeral_append (whole digits : List Char) (hw : IsDigits whole)
    (hd : ∀ c ∈ digits, c.isDigit = true) : IsNumeral (whole ++ Piece.fractionText digits) := by
  by_cases h : digits = []
  · left
    simpa [h, Piece.fractionText] using hw
  · right
    exact ⟨whole, digits, hw, ⟨h, hd⟩, by simp [Piece.fractionText, h]⟩

theorem readNumeral?_append (whole digits : List Char) (hw : IsDigits whole)
    (hd : ∀ c ∈ digits, c.isDigit = true) :
    readNumeral? (whole ++ Piece.fractionText digits) = some (Number.ofDigits whole digits) := by
  have hdot : '.'.isDigit = false := by decide
  by_cases h : digits = []
  · have htake := List.takeWhile_eq_self_iff.mpr hw.2
    have hdrop := List.dropWhile_eq_nil_iff.mpr hw.2
    simp [readNumeral?, h, Piece.fractionText, htake, hdrop, hw.1]
  · have hall : digits.all Char.isDigit = true := List.all_eq_true.mpr hd
    simp [readNumeral?, h, Piece.fractionText, List.takeWhile_append_of_pos hw.2,
      List.dropWhile_append_of_pos hw.2, hw.1, hdot, hall]

theorem number_takes (c : Char) (cs : List Char) (hc : c.isDigit = true) :
    Takes (c :: cs) (Piece.number c cs).1 := by
  have hwhole : IsDigits (c :: cs.takeWhile Char.isDigit) := by
    refine ⟨by simp, ?_⟩
    intro d hd
    rcases List.mem_cons.mp hd with rfl | hd
    · exact hc
    · exact List.mem_takeWhile_imp hd
  have hdigits := fraction_digits (cs.dropWhile Char.isDigit)
  have happ := Piece.number_append c cs
  simp only [Piece.number, Piece.text] at happ ⊢
  have hl := Lexeme.number _ (isNumeral_append _ _ hwhole hdigits)
  refine ⟨hl, ?_, ⟨_, happ⟩, ⟨.number, hl⟩, ?_⟩
  · rw [literalOf, readNumeral?_append _ _ hwhole hdigits]
    rfl
  intro k w hw hp
  obtain ⟨v, rfl, hv⟩ := lexeme_prefix_cons k c cs w hw hp
  rcases lexeme_cons k c v hw with ⟨rfl, -⟩ | ⟨-, -, hnum⟩ | ⟨hletter, -⟩ | ⟨-, hdigit, -⟩
  · exact absurd hc (by decide)
  · rcases hnum with hds | ⟨ds, fs, hds, hfs, heq⟩
    · have hpre := prefix_takeWhile Char.isDigit v cs hv
        (fun d hd => hds.2 d (List.mem_cons_of_mem _ hd))
      have := hpre.length_le
      simp only [List.length_cons, List.length_append]
      omega
    · -- The point behind the digits of `w` stands where the run of digits in the text ends.
      obtain ⟨t, ht⟩ := hp
      rw [heq, List.append_assoc, List.cons_append] at ht
      have hdot : '.'.isDigit = false := by decide
      have htake := congrArg (List.takeWhile Char.isDigit) ht
      have hdrop := congrArg (List.dropWhile Char.isDigit) ht
      rw [List.takeWhile_append_of_pos hds.2, List.takeWhile_cons_of_neg (by simp [hdot]),
        List.append_nil, List.takeWhile_cons_of_pos hc] at htake
      rw [List.dropWhile_append_of_pos hds.2, List.dropWhile_cons_of_neg (by simp [hdot]),
        List.dropWhile_cons_of_pos hc] at hdrop
      rw [← hdrop, fraction_of_digits fs t hfs, ← htake, heq]
      simp [Piece.fractionText, hfs.1]
  · rw [isLetter_of_isDigit c hc] at hletter
    simp at hletter
  · rw [hc] at hdigit
    simp at hdigit

theorem word_takes (c : Char) (cs : List Char) (hc : isLetter c = true) :
    Takes (c :: cs) (Piece.word c cs).1 := by
  have hword : IsWord (c :: cs.takeWhile isWordChar) := ⟨hc, fun d hd => List.mem_takeWhile_imp hd⟩
  have happ := Piece.word_append c cs
  simp only [Piece.word, Piece.text] at happ ⊢
  generalize hw : c :: cs.takeWhile isWordChar = w at hword happ ⊢
  have hl : Lexeme (.ofWord (String.ofList w)) w := by
    unfold Kind.ofWord
    split
    · rename_i k hk
      simpa using Lexeme.reserved (String.ofList w) k ((ofWord?_eq_some_iff _ k).mp hk)
    · rename_i hnone
      refine .identifier w hword (fun k hk => ?_)
      rw [(ofWord?_eq_some_iff _ k).mpr hk] at hnone
      simp at hnone
  refine ⟨hl, ?_, ⟨_, happ⟩, ⟨_, hl⟩, ?_⟩
  · unfold Kind.ofWord
    split <;> rfl
  intro k v hv hp
  obtain ⟨v, rfl, hv'⟩ := lexeme_prefix_cons k c cs v hv hp
  rcases lexeme_cons k c v hv with ⟨rfl, -⟩ | ⟨hdigit, -⟩ | ⟨-, -, hall⟩ | ⟨-, -, hletter, -⟩
  · exact absurd hc (by decide)
  · rw [isLetter_of_isDigit c hdigit] at hc
    simp at hc
  · have := (prefix_takeWhile isWordChar v cs hv' hall).length_le
    rw [← hw, List.length_cons, List.length_cons]
    omega
  · rw [hc] at hletter
    simp at hletter

theorem sign_two (c : Char) (rest : List Char) (k : Kind) (h : Kind.ofSignEqual? c = some k) :
    Piece.sign c ('=' :: rest) = (.lexeme k [c, '='] none, rest) := by
  simp [Piece.sign, h]

theorem sign_one (c : Char) (cs : List Char)
    (h : ∀ rest k, cs = '=' :: rest → Kind.ofSignEqual? c ≠ some k) :
    Piece.sign c cs = (Piece.single c, cs) := by
  unfold Piece.sign
  split
  · rename_i rest k hk
    exact absurd hk (h rest k rfl)
  · rfl

theorem literalOf_sign (w : List Char) (k : Kind) (h : (w, k) ∈ signs) : literalOf k w = none := by
  have htable : ∀ p ∈ signs, literalOf p.2 p.1 = none := by decide
  exact htable (w, k) h

theorem sign_takes (c : Char) (cs : List Char) (hq : c ≠ '"') (hd : c.isDigit = false)
    (hl : isLetter c = false) : Takes (c :: cs) (Piece.sign c cs).1 := by
  have hsign : ∀ k w, Lexeme k w → w <+: c :: cs →
      (w = [c] ∧ Kind.ofSign? c = some k) ∨
      (w = [c, '='] ∧ Kind.ofSignEqual? c = some k ∧ ∃ rest, cs = '=' :: rest) := by
    intro k w h hp
    obtain ⟨v, rfl, hv⟩ := lexeme_prefix_cons k c cs w h hp
    rcases lexeme_cons k c v h with ⟨rfl, -⟩ | ⟨hc, -⟩ | ⟨hc, -⟩ | ⟨-, -, -, hk⟩
    · exact absurd rfl hq
    · simp [hd] at hc
    · simp [hl] at hc
    · rcases signKind?_cons c v k hk with ⟨rfl, hk⟩ | ⟨rfl, hk⟩
      · exact Or.inl ⟨rfl, hk⟩
      · obtain ⟨rest, rfl⟩ := hv
        exact Or.inr ⟨rfl, hk, rest, rfl⟩
  by_cases htwo : ∃ rest k, cs = '=' :: rest ∧ Kind.ofSignEqual? c = some k
  · obtain ⟨rest, k, rfl, hk⟩ := htwo
    have hmem : ([c, '='], k) ∈ signs := (mem_signs_iff _ _).mpr (by simpa [signKind?] using hk)
    rw [sign_two c rest k hk]
    refine ⟨.sign _ _ hmem, (literalOf_sign _ _ hmem).symm, ⟨rest, rfl⟩, ⟨k, .sign _ _ hmem⟩, ?_⟩
    intro k w hw hp
    rcases hsign k w hw hp with ⟨rfl, -⟩ | ⟨rfl, -⟩ <;> simp
  · have hone : ∀ k w, Lexeme k w → w <+: c :: cs → w = [c] ∧ Kind.ofSign? c = some k := by
      intro k w hw hp
      rcases hsign k w hw hp with h | ⟨-, hk, rest, rfl⟩
      · exact h
      · exact absurd ⟨rest, k, rfl, hk⟩ htwo
    rw [sign_one c cs (fun rest k hcs hk => htwo ⟨rest, k, hcs, hk⟩)]
    unfold Piece.single
    split
    · rename_i k hk
      have hmem : ([c], k) ∈ signs := (mem_signs_iff _ _).mpr (by simpa [signKind?] using hk)
      refine ⟨.sign _ _ hmem, (literalOf_sign _ _ hmem).symm, ⟨cs, rfl⟩, ⟨k, .sign _ _ hmem⟩, ?_⟩
      intro k w hw hp
      rw [(hone k w hw hp).1]
    · rename_i hnone
      refine ⟨rfl, hq, ?_⟩
      intro k w hw hp
      rw [(hone k w hw hp).2] at hnone
      simp at hnone

theorem first_takes (c : Char) (cs : List Char) : Takes (c :: cs) (Piece.first c cs).1 := by
  unfold Piece.first
  split
  · rename_i h
    rw [eq_of_beq h]
    exact string_takes cs
  · rename_i hq
    split
    · rename_i hd
      exact number_takes c cs hd
    · rename_i hd
      split
      · rename_i hl
        exact word_takes c cs hl
      · rename_i hl
        exact sign_takes c cs (by simpa using hq) (by simpa using hd) (by simpa using hl)

/-! ## Layout -/

theorem split_blank (c : Char) (cs : List Char) (h : Layout.isBlank c = true) :
    Layout.split false (c :: cs) = (c :: (Layout.split false cs).1, (Layout.split false cs).2) := by
  simp [Layout.split, h]

theorem split_slashes (cs : List Char) :
    Layout.split false ('/' :: '/' :: cs) =
      ('/' :: '/' :: (Layout.split true cs).1, (Layout.split true cs).2) := by
  simp [Layout.split, Layout.isBlank, Layout.opensComment]

theorem split_of_not_beginsGap (cs : List Char) (h : ¬ BeginsGap cs) :
    Layout.split false cs = ([], cs) := by
  cases cs with
  | nil => rfl
  | cons c cs =>
    have hb : Layout.isBlank c = false := by
      by_contra hb
      exact h (Or.inl ⟨c, rfl, by simpa using hb⟩)
    have hc : Layout.opensComment c cs = false := by
      by_contra hc
      simp only [Layout.opensComment, Bool.not_eq_false, Bool.and_eq_true, beq_iff_eq] at hc
      obtain ⟨rfl, hc⟩ := hc
      obtain ⟨rest, rfl⟩ := List.head?_eq_some_iff.mp hc
      exact h (Or.inr ⟨rest, rfl⟩)
    simp [Layout.split, hb, hc]

theorem split_inComment (c : Char) (cs : List Char) (h : c ≠ '\n') :
    Layout.split true (c :: cs) = (c :: (Layout.split true cs).1, (Layout.split true cs).2) := by
  have hc : (c != '\n') = true := bne_iff_ne.mpr h
  rw [Layout.split, if_pos rfl, hc]

theorem split_comment (body rest : List Char) (h : '\n' ∉ body) :
    Layout.split true (body ++ '\n' :: rest) =
      (body ++ (Layout.split false ('\n' :: rest)).1, (Layout.split false ('\n' :: rest)).2) := by
  induction body with
  | nil => simp [Layout.split, Layout.isBlank]
  | cons c body ih =>
    have hc : c ≠ '\n' := fun hc => h (by simp [hc])
    have hb : '\n' ∉ body := fun hb => h (List.mem_cons_of_mem _ hb)
    rw [List.cons_append, split_inComment c _ hc, ih hb, List.cons_append]

theorem split_lastComment (body : List Char) (h : '\n' ∉ body) :
    Layout.split true body = (body, []) := by
  induction body with
  | nil => rfl
  | cons c body ih =>
    have hc : c ≠ '\n' := fun hc => h (by simp [hc])
    have hb : '\n' ∉ body := fun hb => h (List.mem_cons_of_mem _ hb)
    rw [split_inComment c _ hc, ih hb]

theorem split_of_gap (atEnd : Bool) (gap rest : List Char) (hg : Gap atEnd gap)
    (hr : ¬ BeginsGap rest) (hend : atEnd = true → rest = []) :
    Layout.split false (gap ++ rest) = (gap, rest) := by
  induction hg with
  | nil atEnd => exact split_of_not_beginsGap rest hr
  | blank atEnd c cs hc h ih => rw [List.cons_append, split_blank c _ hc, ih hend]
  | comment atEnd body cs hb h ih =>
    have ih' := ih hend
    rw [List.cons_append] at ih'
    rw [List.append_assoc, List.cons_append, List.cons_append, List.cons_append, split_slashes,
      split_comment body _ hb, ih']
    simp
  | lastComment body hb =>
    rw [hend rfl, List.append_nil, split_slashes, split_lastComment body hb]

theorem gap_split (cs : List Char) :
    Gap (Layout.split false cs).2.isEmpty (Layout.split false cs).1 ∧
      ¬ BeginsGap (Layout.split false cs).2 := by
  induction hn : cs.length using Nat.strongRecOn generalizing cs with
  | ind n ih =>
    by_cases h : BeginsGap cs
    · rcases h with ⟨c, hc, hb⟩ | ⟨rest, rfl⟩
      · obtain ⟨cs, rfl⟩ := List.head?_eq_some_iff.mp hc
        rw [split_blank c cs hb]
        obtain ⟨hg, hr⟩ := ih cs.length (by simp at hn; omega) cs rfl
        exact ⟨.blank _ c _ hb hg, hr⟩
      · simp only [List.cons_append, List.nil_append, split_slashes]
        by_cases hlf : '\n' ∈ rest
        · obtain ⟨body, rest, rfl, hb⟩ := List.eq_append_cons_of_mem hlf
          obtain ⟨hg, hr⟩ := ih ('\n' :: rest).length (by simp at hn ⊢; omega) _ rfl
          rw [split_comment body rest hb]
          refine ⟨?_, hr⟩
          rw [split_blank '\n' rest (by decide)] at hg ⊢
          exact .comment _ body _ hb hg
        · rw [split_lastComment rest hlf]
          refine ⟨.lastComment rest hlf, ?_⟩
          rintro (⟨c, hc, -⟩ | ⟨t, ht⟩)
          · simp at hc
          · simp at ht
    · rw [split_of_not_beginsGap cs h]
      exact ⟨.nil _, h⟩

/-! ## The items -/

theorem items_of_nil (p : Place) (cs gap : List Char) (h : Layout.split false cs = (gap, [])) :
    Scanner.items p cs = [.eof (p.after gap)] := by
  rw [Scanner.items]
  split
  · simp [h]
  · rename_i hcons
    simp [h] at hcons

theorem items_of_cons (p : Place) (cs gap rest : List Char) (c : Char)
    (h : Layout.split false cs = (gap, c :: rest)) :
    Scanner.items p cs =
      .ofPiece (p.after gap) ((p.after gap).after (Piece.first c rest).1.text)
          (Piece.first c rest).1 ::
        Scanner.items ((p.after gap).after (Piece.first c rest).1.text) (Piece.first c rest).2 := by
  rw [Scanner.items]
  split
  · rename_i hnil
    simp [h] at hnil
  · rename_i d ds hcons
    rw [h] at hcons ⊢
    obtain ⟨rfl, rfl⟩ := List.cons.inj hcons
    rfl

theorem items_tokenizes (p : Place) (cs : List Char) : Tokenizes p cs (Scanner.items p cs) := by
  induction hn : cs.length using Nat.strongRecOn generalizing p cs with
  | ind n ih =>
    obtain ⟨gap, rest, hsplit⟩ : ∃ gap rest, Layout.split false cs = (gap, rest) := ⟨_, _, rfl⟩
    have happ := Layout.split_append false cs
    have hgap := gap_split cs
    rw [hsplit] at happ hgap
    obtain ⟨hg, hb⟩ := hgap
    cases rest with
    | nil =>
      rw [items_of_nil p cs gap hsplit, ← happ, List.append_nil]
      exact .done p gap hg
    | cons c rest =>
      rw [items_of_cons p cs gap rest c hsplit]
      have htakes := first_takes c rest
      have hcut := Piece.first_append c rest
      have hlen : (Piece.first c rest).2.length < n := by
        have hlt := Piece.first_length_lt c rest
        have hle := Layout.split_length_le false cs
        rw [hsplit] at hle
        simp only at hle
        omega
      have htail := fun q => ih _ hlen q (Piece.first c rest).2 rfl
      generalize (Piece.first c rest).2 = tail at *
      cases hpiece : (Piece.first c rest).1 with
      | lexeme k w v =>
        rw [hpiece] at htakes hcut
        obtain ⟨hk, rfl, hw⟩ := htakes
        rw [Piece.text_lexeme] at hcut
        rw [← hcut] at hb hw
        rw [← happ, ← hcut]
        exact .token p gap w tail k _ hg hb hk hw (htail _)
      | unexpected d =>
        rw [hpiece] at htakes hcut
        obtain ⟨hd, hq, hno⟩ := htakes
        obtain rfl : c = d := by simpa using hd
        obtain rfl : tail = rest := by simpa using hcut
        rw [← happ]
        exact .unexpected p gap tail c _ hg hb hq hno (htail _)
      | unterminated w =>
        rw [hpiece] at htakes hcut
        obtain ⟨hc, rfl, hno⟩ := htakes
        obtain rfl : c = '"' := by simpa using hc
        obtain rfl : tail = [] := by simpa using hcut
        rw [← happ, items_of_nil _ [] [] rfl]
        exact .unterminated p gap rest hg hno

theorem longest_unique (cs v w : List Char) (hv : Longest cs v) (hw : Longest cs w) : v = w := by
  obtain ⟨hv, ⟨k, hk⟩, hvmax⟩ := hv
  obtain ⟨hw, ⟨l, hl⟩, hwmax⟩ := hw
  have hle := hwmax k v hk hv
  have hge := hvmax l w hl hw
  exact (List.prefix_of_prefix_length_le hv hw hle).eq_of_length (by omega)

theorem first_of_longest (c : Char) (cs w : List Char) (k : Kind) (hk : Lexeme k w)
    (hw : Longest (c :: cs) w) : (Piece.first c cs).1 = .lexeme k w (literalOf k w) := by
  have htakes := first_takes c cs
  cases hpiece : (Piece.first c cs).1 with
  | lexeme l v x =>
    rw [hpiece] at htakes
    obtain ⟨hl, rfl, hv⟩ := htakes
    obtain rfl := longest_unique _ v w hv hw
    obtain rfl := lexeme_kind_unique l k v hl hk
    rfl
  | unexpected d =>
    rw [hpiece] at htakes
    exact absurd hw.1 (htakes.2.2 k w hk)
  | unterminated v =>
    rw [hpiece] at htakes
    exact absurd hw.1 (htakes.2.2 k w hk)

theorem first_of_noLexeme (c : Char) (cs : List Char) (h : NoLexeme (c :: cs)) :
    (Piece.first c cs).1 = if c = '"' then .unterminated (c :: cs) else .unexpected c := by
  have htakes := first_takes c cs
  cases hpiece : (Piece.first c cs).1 with
  | lexeme l v x =>
    rw [hpiece] at htakes
    exact absurd htakes.2.2.1 (h l v htakes.1)
  | unexpected d =>
    rw [hpiece] at htakes
    obtain ⟨hd, hq, -⟩ := htakes
    obtain rfl : c = d := by simpa using hd
    rw [if_neg hq]
  | unterminated v =>
    rw [hpiece] at htakes
    obtain ⟨hc, rfl, -⟩ := htakes
    rw [if_pos (by simpa using hc)]

theorem items_eq_of_tokenizes (p : Place) (cs : List Char) (items : List Item)
    (h : Tokenizes p cs items) : Scanner.items p cs = items := by
  induction h with
  | done p gap hg =>
    have hnil : ¬ BeginsGap [] := by simp [BeginsGap]
    have hsplit := split_of_gap true gap [] hg hnil (fun _ => rfl)
    rw [List.append_nil] at hsplit
    exact items_of_nil p gap gap hsplit
  | token p gap w rest k items hg hb hk hw h ih =>
    have hsplit := split_of_gap false gap _ hg hb (by simp)
    obtain ⟨c, v, rfl⟩ := List.exists_cons_of_ne_nil (lexeme_ne_nil k w hk)
    have hfirst := first_of_longest c (v ++ rest) (c :: v) k hk hw
    have hcut := Piece.first_append c (v ++ rest)
    rw [hfirst, Piece.text_lexeme, ← List.cons_append, List.append_cancel_left_eq] at hcut
    rw [items_of_cons p _ gap (v ++ rest) c hsplit, hfirst, hcut, Piece.text_lexeme, ih]
    rfl
  | unterminated p gap body hg hn =>
    have hb : ¬ BeginsGap ('"' :: body) := by simp [BeginsGap, Layout.isBlank]
    have hsplit := split_of_gap false gap _ hg hb (by simp)
    have hfirst := first_of_noLexeme '"' body hn
    have hcut := Piece.first_append '"' body
    rw [if_pos rfl] at hfirst
    rw [hfirst, Piece.text_unterminated, List.append_right_eq_self] at hcut
    rw [items_of_cons p _ gap _ '"' hsplit, hfirst, hcut, items_of_nil _ [] [] rfl]
    rfl
  | unexpected p gap rest c items hg hb hc hn h ih =>
    have hsplit := split_of_gap false gap _ hg hb (by simp)
    have hfirst := first_of_noLexeme c rest hn
    have hcut := Piece.first_append c rest
    rw [if_neg hc] at hfirst
    rw [hfirst, Piece.text_unexpected, List.singleton_append, List.cons.injEq] at hcut
    rw [items_of_cons p _ gap _ c hsplit, hfirst, hcut.2, Piece.text_unexpected, ih]
    rfl

/-! ## The tokens -/

theorem readNumeral?_isNumeral (w : List Char) (h : IsNumeral w) : ∃ x, readNumeral? w = some x := by
  rcases h with h | ⟨ds, fs, hds, hfs, rfl⟩
  · have hread := readNumeral?_append w [] h (by simp)
    simp only [Piece.fractionText, if_true, List.append_nil] at hread
    exact ⟨_, hread⟩
  · have hread := readNumeral?_append ds fs hds hfs.2
    simp only [Piece.fractionText, hfs.1, if_false] at hread
    exact ⟨_, hread⟩

theorem lexeme_keyword_iff (k : Kind) (w : List Char) (h : Lexeme k w) (l : Keyword) :
    k = .keyword l ↔ (String.ofList w, l) ∈ reservedWords := by
  constructor
  · rintro rfl
    cases h with
    | sign _ _ h => simp [signs] at h
    | reserved w _ h => simpa using h
  · intro hl
    have hl' := Lexeme.reserved _ l hl
    rw [String.toList_ofList] at hl'
    exact lexeme_kind_unique k _ w h hl'

theorem lexeme_identifier_iff (k : Kind) (w : List Char) (h : Lexeme k w) :
    k = .identifier ↔ IsWord w ∧ ∀ l, (String.ofList w, l) ∉ reservedWords := by
  constructor
  · rintro rfl
    cases h with
    | sign _ _ h => simp [signs] at h
    | identifier _ hw hno => exact ⟨hw, hno⟩
  · rintro ⟨hw, hno⟩
    exact lexeme_kind_unique k _ w h (.identifier w hw hno)

theorem lexeme_number (w : List Char) (h : Lexeme .number w) : IsNumeral w := by
  cases h with
  | sign _ _ h => simp [signs] at h
  | number _ h => exact h

theorem lexeme_string (w : List Char) (h : Lexeme .string w) : IsQuoted w := by
  cases h with
  | sign _ _ h => simp [signs] at h
  | string _ h => exact h

theorem munched_of_longest (before w behind : List Char) (k : Kind) (line : Nat) (hk : Lexeme k w)
    (hw : Longest (w ++ behind) w) :
    Munched (before ++ (w ++ behind)) ⟨k, String.ofList w, literalOf k w, line,
      ⟨byteLength before, byteLength (before ++ w)⟩⟩ where
  longest := ⟨before, behind, by simp, by simp, by simpa using hw⟩
  lexeme := by simpa using hk
  reserved := lexeme_keyword_iff k w hk
  identifier := by simpa using lexeme_identifier_iff k w hk
  literal := by
    constructor
    · unfold literalOf
      split <;> simp
    · rintro (rfl | rfl)
      · obtain ⟨x, hx⟩ := readNumeral?_isNumeral w (lexeme_number w hk)
        simp [literalOf, hx]
      · simp [literalOf]
  number := by
    rintro rfl
    obtain ⟨x, hx⟩ := readNumeral?_isNumeral w (lexeme_number w hk)
    exact ⟨x, by simpa using hx, by simp [literalOf, hx]⟩
  string := by
    rintro rfl
    obtain ⟨body, hb, rfl⟩ := lexeme_string w hk
    exact ⟨body, hb, by simp, by simp [literalOf]⟩

theorem munched_of_tokenizes (p : Place) (before cs : List Char) (items : List Item)
    (h : Tokenizes p cs items) (hp : p.offset = byteLength before) (t : Token)
    (ht : .token t ∈ items) (hne : t.isEof = false) : Munched (before ++ cs) t := by
  induction h generalizing before with
  | done p gap hg =>
    obtain rfl : t = _ := by simpa [Item.eof] using ht
    simp [Token.isEof] at hne
  | token p gap w rest k items hg hb hk hw h ih =>
    rcases List.mem_cons.mp ht with ht | ht
    · cases ht
      have hm := munched_of_longest (before ++ gap) w rest k ((p.after gap).after w).line hk hw
      simpa [Place.span, hp, Nat.add_assoc] using hm
    · have hm := ih (before ++ gap ++ w) (by simp [hp, Nat.add_assoc]) ht
      simpa using hm
  | unterminated p gap body hg hn =>
    obtain rfl : t = _ := by simpa [Item.eof] using ht
    simp [Token.isEof] at hne
  | unexpected p gap rest c items hg hb hc hn h ih =>
    rcases List.mem_cons.mp ht with ht | ht
    · simp at ht
    · have hm := ih (before ++ gap ++ [c]) (by simp [hp, Nat.add_assoc]) ht
      simpa using hm

theorem scan_tokenizes (src : String) : Tokenizes .start src.toList (scan src) :=
  items_tokenizes .start src.toList

theorem scan_munched (src : String) (t : Token) (ht : .token t ∈ scan src)
    (hne : t.isEof = false) : Munched src.toList t :=
  munched_of_tokenizes .start [] src.toList _ (scan_tokenizes src) rfl t ht hne

/-- **The scanner takes the longest lexeme.** The items of a text are the ones that the lexical
grammar gives it, and no others. Each token but the end stands for the longest lexeme where it
begins. -/
theorem scan_munches (src : String) :
    (∀ items, scan src = items ↔ Tokenizes .start src.toList items) ∧
      ∀ t, .token t ∈ scan src → t.isEof = false → Munched src.toList t := by
  refine ⟨?_, scan_munched src⟩
  intro items
  constructor
  · rintro rfl
    exact scan_tokenizes src
  · intro h
    exact items_eq_of_tokenizes _ _ _ h

end Lox.Lexical
