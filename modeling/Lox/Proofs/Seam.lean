import Lox.Proofs.Bounded
import Lox.Proofs.Coverage

/-!
# Scanning across a line break

A line feed ends every comment and every lexeme but a string. So a text that does not break off
inside a string is scanned up to a line feed as if it ended there, and what stands behind the line
feed is scanned as if it began there, only further on.
-/

namespace Lox

/-! ## Further on -/

def Place.shift (n m : Nat) (p : Place) : Place := ⟨p.offset + n, p.line + m⟩

/-- The same token, `n` bytes and `m` lines further on. -/
def Token.shift (n m : Nat) (t : Token) : Token :=
  { t with line := t.line + m, span := t.span.shift n }

def LexicalError.shift (n m : Nat) (e : LexicalError) : LexicalError :=
  { e with line := e.line + m, span := e.span.shift n }

def Item.shift (n m : Nat) : Item → Item
  | token t => token (t.shift n m)
  | error e => error (e.shift n m)

theorem Place.after_shift (n m : Nat) (p : Place) (cs : List Char) :
    (p.shift n m).after cs = (p.after cs).shift n m := by
  unfold Place.after Place.shift
  simp only [Place.mk.injEq]
  omega

theorem Place.span_shift (n m : Nat) (p q : Place) :
    (p.shift n m).span (q.shift n m) = (p.span q).shift n := rfl

theorem Item.eof_shift (n m : Nat) (p : Place) :
    Item.eof (p.shift n m) = (Item.eof p).shift n m := rfl

namespace Lexical

theorem tokenizes_shift (n m : Nat) (p : Place) (cs : List Char) (items : List Item)
    (h : Tokenizes p cs items) : Tokenizes (p.shift n m) cs (items.map (Item.shift n m)) := by
  induction h with
  | done p gap hg =>
    have hd := Tokenizes.done (p.shift n m) gap hg
    rw [Place.after_shift, Item.eof_shift] at hd
    exact hd
  | token p gap w rest k items hg hb hk hw h ih =>
    rw [← Place.after_shift, ← Place.after_shift] at ih
    have ht := Tokenizes.token (p.shift n m) gap w rest k _ hg hb hk hw ih
    simp only [Place.after_shift, Place.span_shift] at ht
    exact ht
  | unterminated p gap body hg hn =>
    have hu := Tokenizes.unterminated (p.shift n m) gap body hg hn
    simp only [Place.after_shift, Place.span_shift, Item.eof_shift] at hu
    exact hu
  | unexpected p gap rest c items hg hb hc hn h ih =>
    rw [← Place.after_shift, ← Place.after_shift] at ih
    have hu := Tokenizes.unexpected (p.shift n m) gap rest c _ hg hb hc hn ih
    simp only [Place.after_shift, Place.span_shift] at hu
    exact hu

theorem items_after (front cs : List Char) :
    Scanner.items (Place.start.after front) cs =
      (Scanner.items .start cs).map (Item.shift (byteLength front) (lineFeeds front)) := by
  have hplace : Place.start.after front = Place.start.shift (byteLength front) (lineFeeds front) :=
    rfl
  rw [hplace]
  apply items_eq_of_tokenizes
  apply tokenizes_shift
  exact items_tokenizes .start cs

/-! ## Lexemes in front of a blank -/

theorem lexeme_quote (k : Kind) (v : List Char) (h : Lexeme k ('"' :: v)) :
    ∃ body, '"' ∉ body ∧ v = body ++ ['"'] := by
  rcases lexeme_cons k '"' v h with ⟨-, -, hbody⟩ | ⟨hc, -⟩ | ⟨hc, -⟩ | ⟨hc, -⟩
  · exact hbody
  · exact absurd hc (by decide)
  · exact absurd hc (by decide)
  · exact absurd rfl hc

theorem mem_of_isBlank (b : Char) (h : Layout.isBlank b = true) : b ∈ [' ', '\t', '\r', '\n'] := by
  simpa [Layout.isBlank, or_assoc] using h

theorem isBlank_not_wordChar (b : Char) (h : Layout.isBlank b = true) : isWordChar b = false := by
  have hmem := mem_of_isBlank b h
  simp only [List.mem_cons, List.not_mem_nil, or_false] at hmem
  rcases hmem with rfl | rfl | rfl | rfl <;> decide

section

variable (b : Char) (hb : Layout.isBlank b = true)

include hb

theorem blank_not_mem_word (w : List Char) (h : IsWord w) : b ∉ w := by
  have hchar := isBlank_not_wordChar b hb
  intro hmem
  cases w with
  | nil => exact h
  | cons c cs =>
    rcases List.mem_cons.mp hmem with rfl | hmem
    · rw [isWordChar, h.1] at hchar
      cases hchar
    · rw [h.2 b hmem] at hchar
      cases hchar

theorem blank_not_mem_digits (w : List Char) (h : IsDigits w) : b ∉ w := by
  have hchar := isBlank_not_wordChar b hb
  intro hmem
  rw [isWordChar, h.2 b hmem, Bool.or_true] at hchar
  cases hchar

theorem blank_not_mem_numeral (w : List Char) (h : IsNumeral w) : b ∉ w := by
  rcases h with h | ⟨ds, fs, hds, hfs, rfl⟩
  · exact blank_not_mem_digits b hb w h
  · have h₁ := blank_not_mem_digits b hb ds hds
    have h₂ := blank_not_mem_digits b hb fs hfs
    have hdot : b ≠ '.' := by
      rintro rfl
      exact absurd hb (by decide)
    simp [h₁, h₂, hdot]

theorem blank_not_mem_sign (w : List Char) (k : Kind) (h : (w, k) ∈ signs) : b ∉ w := by
  have htable : ∀ p ∈ signs, p.1.all (fun c => !Layout.isBlank c) = true := by decide
  intro hmem
  have hno := List.all_eq_true.mp (htable (w, k) h) b hmem
  rw [hb] at hno
  cases hno

theorem lexeme_blank (k : Kind) (v : List Char) (h : Lexeme k v) (hmem : b ∈ v) :
    v.head? = some '"' := by
  cases h with
  | sign _ _ h => exact absurd hmem (blank_not_mem_sign b hb v k h)
  | string _ h =>
    obtain ⟨body, -, rfl⟩ := h
    rfl
  | number _ h => exact absurd hmem (blank_not_mem_numeral b hb v h)
  | reserved w k h => exact absurd hmem (blank_not_mem_word b hb _ (isWord_of_reserved w k h))
  | identifier _ hw _ => exact absurd hmem (blank_not_mem_word b hb v hw)

theorem lexeme_prefix_blank (k : Kind) (v cs rest : List Char) (h : Lexeme k v)
    (hp : v <+: cs ++ b :: rest) : v <+: cs ∨ cs <+: v ∧ v.head? = some '"' := by
  by_cases hlen : v.length ≤ cs.length
  · left
    exact List.prefix_of_prefix_length_le hp (List.prefix_append cs _) hlen
  · right
    have hseam : cs ++ [b] <+: cs ++ b :: rest := ⟨rest, by simp⟩
    have hcs : cs ++ [b] <+: v := by
      apply List.prefix_of_prefix_length_le hseam hp
      simp
      omega
    have hmem : b ∈ v := hcs.subset (by simp)
    exact ⟨(List.prefix_append cs [b]).trans hcs, lexeme_blank b hb k v h hmem⟩

end

theorem eq_of_prefix_quoted (v w : List Char) (k l : Kind) (hv : Lexeme k v) (hw : Lexeme l w)
    (hq : v.head? = some '"') (hp : w <+: v) : w = v := by
  obtain ⟨v, rfl⟩ := List.head?_eq_some_iff.mp hq
  obtain ⟨w, rfl, t, ht⟩ := lexeme_prefix_cons l '"' v w hw hp
  obtain ⟨body, hbody, rfl⟩ := lexeme_quote k v hv
  obtain ⟨body', hbody', rfl⟩ := lexeme_quote l w hw
  have h := string_of_closed body [] hbody
  have h' := string_of_closed body' t hbody'
  rw [List.append_assoc, List.singleton_append] at ht
  rw [ht, h] at h'
  simp only [Prod.mk.injEq, Piece.lexeme.injEq, true_and] at h'
  exact h'.1.1.symm

theorem longest_blank (b : Char) (hb : Layout.isBlank b = true) (cs w rest : List Char)
    (h : Longest cs w) : Longest (cs ++ b :: rest) w := by
  obtain ⟨hp, ⟨l, hl⟩, hmax⟩ := h
  refine ⟨hp.trans (List.prefix_append cs _), ⟨l, hl⟩, ?_⟩
  intro k v hv hvp
  rcases lexeme_prefix_blank b hb k v cs rest hv hvp with hvp | ⟨hcs, hq⟩
  · exact hmax k v hv hvp
  · rw [eq_of_prefix_quoted v w k l hv hl hq (hp.trans hcs)]

theorem noLexeme_blank (b : Char) (hb : Layout.isBlank b = true) (c : Char) (cs rest : List Char)
    (hc : c ≠ '"') (h : NoLexeme (c :: cs)) : NoLexeme (c :: cs ++ b :: rest) := by
  intro k v hv hvp
  rcases lexeme_prefix_blank b hb k v (c :: cs) rest hv hvp with hvp | ⟨hcs, hq⟩
  · exact h k v hv hvp
  · obtain ⟨t, rfl⟩ := hcs
    simp only [List.cons_append, List.head?_cons, Option.some.injEq] at hq
    exact hc hq

/-! ## Gaps in front of a blank -/

theorem not_beginsGap_blank (b : Char) (hb : Layout.isBlank b = true) (c : Char)
    (cs rest : List Char) (h : ¬ BeginsGap (c :: cs)) : ¬ BeginsGap (c :: cs ++ b :: rest) := by
  rintro (⟨d, hd, hblank⟩ | hslashes)
  · exact h (Or.inl ⟨d, hd, hblank⟩)
  · apply h
    right
    cases cs with
    | nil =>
      obtain ⟨t, ht⟩ := hslashes
      obtain rfl : '/' = b := by
        simp only [List.cons_append, List.nil_append, List.cons.injEq] at ht
        exact ht.2.1
      exact absurd hb (by decide)
    | cons d cs =>
      obtain ⟨t, ht⟩ := hslashes
      simp only [List.cons_append, List.nil_append, List.cons.injEq] at ht
      obtain ⟨rfl, rfl, -⟩ := ht
      exact ⟨cs, rfl⟩

theorem gap_append (atEnd : Bool) (g h : List Char) (hg : Gap false g) (hh : Gap atEnd h) :
    Gap atEnd (g ++ h) := by
  generalize hf : false = f at hg
  induction hg with
  | nil _ => exact hh
  | blank _ c cs hc _ ih => exact .blank _ c _ hc (ih hf)
  | comment _ body cs hb _ ih =>
    have hc := Gap.comment atEnd body (cs ++ h) hb (ih hf)
    simpa using hc
  | lastComment body hb => cases hf

theorem gap_lineFeed (atEnd : Bool) (g : List Char) (hg : Gap atEnd g) :
    Gap false (g ++ ['\n']) := by
  have hlf : Gap false ['\n'] := .blank _ '\n' [] (by decide) (.nil _)
  induction hg with
  | nil _ => exact hlf
  | blank _ c cs hc _ ih => exact .blank _ c _ hc ih
  | comment _ body cs hb _ ih =>
    have hc := Gap.comment false body (cs ++ ['\n']) hb ih
    simpa using hc
  | lastComment body hb =>
    have hc := Gap.comment false body [] hb hlf
    simpa using hc

theorem tokenizes_gap (p : Place) (g cs : List Char) (items : List Item) (hg : Gap false g)
    (h : Tokenizes (p.after g) cs items) : Tokenizes p (g ++ cs) items := by
  generalize hq : p.after g = q at h
  cases h with
  | done _ _ hgap =>
    have hd := Tokenizes.done p (g ++ cs) (gap_append true g cs hg hgap)
    rw [Place.after_append, hq] at hd
    exact hd
  | token _ gap w rest k items hgap hb hk hw h =>
    rw [← hq, ← Place.after_append p g gap] at h
    have ht := Tokenizes.token p (g ++ gap) w rest k items (gap_append false g gap hg hgap) hb hk hw
      h
    rw [Place.after_append, hq, List.append_assoc] at ht
    exact ht
  | unterminated _ gap body hgap hn =>
    have hu := Tokenizes.unterminated p (g ++ gap) body (gap_append false g gap hg hgap) hn
    rw [Place.after_append, hq, List.append_assoc] at hu
    exact hu
  | unexpected _ gap rest c items hgap hb hc hn h =>
    rw [← hq, ← Place.after_append p g gap] at h
    have hu := Tokenizes.unexpected p (g ++ gap) rest c items (gap_append false g gap hg hgap) hb hc
      hn h
    rw [Place.after_append, hq, List.append_assoc] at hu
    exact hu

/-! ## The seam -/

theorem tokenizes_ne_nil (p : Place) (cs : List Char) (items : List Item)
    (h : Tokenizes p cs items) : items ≠ [] := by
  cases h <;> simp

theorem tokenizes_lineFeed (p : Place) (a b : List Char) (items items' : List Item)
    (h : Tokenizes p a items)
    (hclosed : ∀ e, .error e ∈ items → e.cause ≠ .unterminatedString)
    (h' : Tokenizes (p.after (a ++ ['\n'])) b items') :
    Tokenizes p (a ++ '\n' :: b) (items.dropLast ++ items') := by
  induction h with
  | done p gap hg =>
    have hgap := tokenizes_gap p (gap ++ ['\n']) b items' (gap_lineFeed true gap hg) h'
    simpa using hgap
  | token p gap w rest k items hg hb hk hw h ih =>
    have ih' := ih (fun e he => hclosed e (List.mem_cons_of_mem _ he)) (by
      rw [← Place.after_append, ← Place.after_append]
      simpa using h')
    have hb' : ¬ BeginsGap (w ++ (rest ++ '\n' :: b)) := by
      obtain ⟨c, v, rfl⟩ := List.exists_cons_of_ne_nil (lexeme_ne_nil k w hk)
      have hn := not_beginsGap_blank '\n' (by decide) c (v ++ rest) b hb
      simpa using hn
    have hw' : Longest (w ++ (rest ++ '\n' :: b)) w := by
      have hl := longest_blank '\n' (by decide) (w ++ rest) w b hw
      simpa using hl
    have ht := Tokenizes.token p gap w (rest ++ '\n' :: b) k _ hg hb' hk hw' ih'
    rw [List.dropLast_cons_of_ne_nil (tokenizes_ne_nil _ _ _ h)]
    simpa using ht
  | unterminated p gap body hg hn =>
    exact absurd rfl (hclosed _ List.mem_cons_self)
  | unexpected p gap rest c items hg hb hc hn h ih =>
    have ih' := ih (fun e he => hclosed e (List.mem_cons_of_mem _ he)) (by
      rw [← Place.after_append, ← Place.after_append]
      simpa using h')
    have hb' := not_beginsGap_blank '\n' (by decide) c rest b hb
    have hn' := noLexeme_blank '\n' (by decide) c rest b hc hn
    have hu := Tokenizes.unexpected p gap (rest ++ '\n' :: b) c _ hg hb' hc hn' ih'
    rw [List.dropLast_cons_of_ne_nil (tokenizes_ne_nil _ _ _ h)]
    simpa using hu

/-- Scanning goes on behind a line feed as if it began there. -/
theorem items_lineFeed (p : Place) (a b : List Char)
    (hclosed : ∀ e, .error e ∈ Scanner.items p a → e.cause ≠ .unterminatedString) :
    Scanner.items p (a ++ '\n' :: b) =
      (Scanner.items p a).dropLast ++ Scanner.items (p.after (a ++ ['\n'])) b := by
  apply items_eq_of_tokenizes
  apply tokenizes_lineFeed p a b _ _ (items_tokenizes p a) hclosed
  exact items_tokenizes _ b

/-- **Scanning composes at line breaks.** If a text does not break off inside a string, then a line
feed and another text behind it leave its items as they are, up to its end. The items of the other
text follow, further on by the text and the line feed. -/
theorem scan_composes_at_lineFeed (a b : String)
    (hclosed : ∀ e, .error e ∈ scan a → e.cause ≠ .unterminatedString) :
    ∃ body p, scan a = body ++ [.eof p] ∧ (∀ item ∈ body, item.isEof = false) ∧
      scan (a ++ "\n" ++ b) =
        body ++ (scan b).map (Item.shift (a.utf8ByteSize + 1) (lineFeeds a.toList + 1)) := by
  obtain ⟨body, line, hbody, hnone⟩ := laid_ends _ _ _ (scan_laid a)
  refine ⟨body, ⟨byteLength a.toList, line⟩, hbody, hnone, ?_⟩
  have htext : (a ++ "\n" ++ b).toList = a.toList ++ '\n' :: b.toList := by simp
  have hbytes : byteLength (a.toList ++ ['\n']) = a.utf8ByteSize + 1 := by
    rw [byteLength_append, ← utf8ByteSize_eq]
    rfl
  have hfeeds : lineFeeds (a.toList ++ ['\n']) = lineFeeds a.toList + 1 :=
    lineFeeds_append _ _
  change Scanner.items .start (a ++ "\n" ++ b).toList = _
  rw [htext, items_lineFeed .start a.toList b.toList hclosed, items_after, hbytes, hfeeds]
  change (scan a).dropLast ++ _ = _
  rw [hbody, List.dropLast_concat]
  rfl

theorem scan_composes_at_lineFeed_comment :
    (∀ e, .error e ∈ scan "é 1.// \"" → e.cause ≠ .unterminatedString) ∧
      ∃ body p, scan "é 1.// \"" = body ++ [.eof p] ∧ (∀ item ∈ body, item.isEof = false) ∧
        scan "é 1.// \"\n5" = body ++ [
          .token ⟨.number, "5", some (.number (Number.ofDigits ['5'] [])), 2, ⟨10, 11⟩⟩,
          .eof ⟨11, 2⟩] := by
  -- The comment and the point at the end of the first text see the line feed as the end.
  have hclosed : ∀ e, .error e ∈ scan "é 1.// \"" → e.cause ≠ .unterminatedString := by
    have hitems : ∀ item ∈ scan "é 1.// \"", ∀ e ∈ item.error?, e.cause ≠ .unterminatedString := by
      decide +kernel
    intro e he
    exact hitems _ he e rfl
  obtain ⟨body, p, hbody, hnone, hscan⟩ := scan_composes_at_lineFeed "é 1.// \"" "5" hclosed
  refine ⟨hclosed, body, p, hbody, hnone, ?_⟩
  have htext : "é 1.// \"" ++ "\n" ++ "5" = "é 1.// \"\n5" := by decide
  have hlast : (scan "5").map (Item.shift ("é 1.// \"".utf8ByteSize + 1)
      (lineFeeds "é 1.// \"".toList + 1)) = [
        .token ⟨.number, "5", some (.number (Number.ofDigits ['5'] [])), 2, ⟨10, 11⟩⟩,
        .eof ⟨11, 2⟩] := by
    decide +kernel
  rw [htext, hlast] at hscan
  exact hscan

end Lexical

end Lox
