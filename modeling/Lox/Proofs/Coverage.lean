import Lox.Proofs.Munch
import Lox.Proofs.Slice
import Mathlib.Data.List.Chain

/-!
# Nothing is lost and nothing is made up

The items of a text stand in it one behind the other. Between them there is only layout, and each
token spells out its stretch of the text.
-/

namespace Lox

namespace Item

def span : Item → Span
  | .token t => t.span
  | .error e => e.span

end Item

namespace Lexical

/-- The gaps and the texts of some items, from a byte offset on, joined in order. -/
def rejoin (cs : List Char) : Nat → List Item → List Char
  | _, [] => []
  | n, item :: items =>
    (slice? cs ⟨n, item.span.start⟩).getD [] ++ (slice? cs item.span).getD [] ++
      rejoin cs item.span.stop items

/-- The items make up the whole text. -/
structure Covers (cs : List Char) (items : List Item) : Prop where
  -- Spans lie in the text and end between characters.
  inside : ∀ item ∈ items, item.span.start ≤ item.span.stop ∧ item.span.stop ≤ byteLength cs ∧
    (slice? cs item.span).isSome
  lexeme : ∀ t, .token t ∈ items → slice? cs t.span = some t.lexeme.toList
  ordered : items.Pairwise fun a b => a.span.stop ≤ b.span.start
  nonempty : ∀ item ∈ items, item.isEof = false → item.span.start < item.span.stop
  -- Only layout stands before the first item and between one item and the next.
  gaps : (Span.point 0 :: items.map Item.span).IsChain fun a b =>
    ∃ gap, slice? cs ⟨a.stop, b.start⟩ = some gap ∧ Gap (b.start == byteLength cs) gap
  ends : ∃ body line, items = body ++ [.eof ⟨byteLength cs, line⟩] ∧
    ∀ item ∈ body, item.isEof = false
  -- Behind a string without its closing quote stands only the end.
  unterminated : ∀ front e behind, items = front ++ .error e :: behind →
    e.cause = .unterminatedString →
    e.span.stop = byteLength cs ∧ ∃ line, behind = [.eof ⟨byteLength cs, line⟩]
  rejoined : rejoin cs 0 items = cs
  count : items.length ≤ cs.length + 1

/-! ## One item behind the other -/

/-- The items behind a front of the text. This is the lexical grammar with all forgotten that says
which lexeme is taken. -/
inductive Laid (cs : List Char) : List Char → List Item → Prop
  | done (before gap : List Char) (line : Nat) (hg : Gap true gap) (hcs : cs = before ++ gap) :
      Laid cs before [.eof ⟨byteLength cs, line⟩]
  | item (before gap w behind : List Char) (item : Item) (items : List Item) (hg : Gap false gap)
      (hw : w ≠ []) (hcs : cs = before ++ gap ++ (w ++ behind))
      (hspan : item.span = ⟨byteLength (before ++ gap), byteLength (before ++ gap ++ w)⟩)
      (heof : item.isEof = false) (htoken : ∀ t, item = .token t → t.lexeme.toList = w)
      (herror : ∀ e, item = .error e → e.cause = .unterminatedString → behind = [])
      (h : Laid cs (before ++ gap ++ w) items) : Laid cs before (item :: items)

theorem lexeme_ne_eof (k : Kind) (w : List Char) (h : Lexeme k w) : k ≠ .eof := by
  rintro rfl
  cases h with
  | sign _ _ h => simp [signs] at h

theorem laid_of_tokenizes (p : Place) (before cs : List Char) (items : List Item)
    (h : Tokenizes p cs items) (hp : p.offset = byteLength before) :
    Laid (before ++ cs) before items := by
  induction h generalizing before with
  | done p gap hg =>
    have hd : Laid (before ++ gap) before _ := .done before gap (p.after gap).line hg rfl
    simpa [Item.eof, Place.after, hp] using hd
  | token p gap w rest k items hg hb hk hw h ih =>
    have ih' := ih (before ++ gap ++ w) (by simp [hp, Nat.add_assoc])
    refine .item before gap w rest _ items hg (lexeme_ne_nil k w hk) (by simp) ?_ ?_ ?_ ?_ ?_
    · simp [Item.span, Place.span, hp, Nat.add_assoc]
    · simpa [Item.isEof, Token.isEof] using lexeme_ne_eof k w hk
    · rintro t ⟨⟩
      simp
    · rintro e ⟨⟩
    · simpa using ih'
  | unterminated p gap body hg hn =>
    refine .item before gap ('"' :: body) [] _ _ hg (by simp) (by simp) ?_ rfl ?_ ?_ ?_
    · simp [Item.span, Place.span, hp, Nat.add_assoc]
    · rintro t ⟨⟩
    · intros
      rfl
    · have hd : Laid (before ++ gap ++ '"' :: body) (before ++ gap ++ '"' :: body) _ :=
        .done _ [] ((p.after gap).after ('"' :: body)).line (.nil true) (List.append_nil _).symm
      simpa [Item.eof, Place.after, hp, Nat.add_assoc] using hd
  | unexpected p gap rest c items hg hb hc hn h ih =>
    have ih' := ih (before ++ gap ++ [c]) (by simp [hp, Nat.add_assoc])
    refine .item before gap [c] rest _ items hg (by simp) (by simp) ?_ rfl ?_ ?_ ?_
    · simp [Item.span, Place.span, hp, Nat.add_assoc]
    · rintro t ⟨⟩
    · rintro e ⟨⟩ he
      simp at he
    · simpa using ih'

/-! ## What is laid covers -/

section

variable (cs before : List Char) (items : List Item)

theorem laid_before_le (h : Laid cs before items) : byteLength before ≤ byteLength cs := by
  cases h with
  | done _ gap line hg hcs => simp [hcs]
  | item _ gap w behind item items hg hw hcs =>
    rw [hcs]
    simp only [byteLength_append]
    omega

theorem laid_start_le (h : Laid cs before items) :
    ∀ item ∈ items, byteLength before ≤ item.span.start := by
  induction h with
  | done before gap line hg hcs => simp [Item.eof, Item.span, Span.point, hcs]
  | item before gap w behind item items hg hw hcs hspan heof htoken herror h ih =>
    intro i hi
    rcases List.mem_cons.mp hi with rfl | hi
    · simp [hspan]
    · have := ih i hi
      simp only [byteLength_append] at this
      omega

theorem laid_inside (h : Laid cs before items) :
    ∀ item ∈ items, item.span.start ≤ item.span.stop ∧ item.span.stop ≤ byteLength cs ∧
      (slice? cs item.span).isSome := by
  induction h with
  | done before gap line hg hcs => simp [Item.eof, Item.span, Span.point, slice?_end]
  | item before gap w behind item items hg hw hcs hspan heof htoken herror h ih =>
    intro i hi
    rcases List.mem_cons.mp hi with rfl | hi
    · have hle := laid_before_le _ _ _ h
      rw [hspan, slice?_of_eq cs (before ++ gap) w behind hcs]
      exact ⟨by simp, hle, rfl⟩
    · exact ih i hi

theorem laid_lexeme (h : Laid cs before items) :
    ∀ t, .token t ∈ items → slice? cs t.span = some t.lexeme.toList := by
  induction h with
  | done before gap line hg hcs =>
    intro t ht
    simp only [Item.eof, List.mem_singleton, Item.token.injEq] at ht
    simp [ht, Span.point, slice?_end]
  | item before gap w behind item items hg hw hcs hspan heof htoken herror h ih =>
    intro t ht
    rcases List.mem_cons.mp ht with rfl | ht
    · rw [htoken t rfl, ← slice?_of_eq cs (before ++ gap) w behind hcs, ← hspan]
      rfl
    · exact ih t ht

theorem laid_ordered (h : Laid cs before items) :
    items.Pairwise fun a b => a.span.stop ≤ b.span.start := by
  induction h with
  | done before gap line hg hcs => simp
  | item before gap w behind item items hg hw hcs hspan heof htoken herror h ih =>
    refine List.pairwise_cons.mpr ⟨fun i hi => ?_, ih⟩
    rw [hspan]
    exact laid_start_le _ _ _ h i hi

theorem laid_nonempty (h : Laid cs before items) :
    ∀ item ∈ items, item.isEof = false → item.span.start < item.span.stop := by
  induction h with
  | done before gap line hg hcs => simp [Item.eof, Item.isEof, Token.isEof]
  | item before gap w behind item items hg hw hcs hspan heof htoken herror h ih =>
    intro i hi hne
    rcases List.mem_cons.mp hi with rfl | hi
    · have := byteLength_pos w hw
      rw [hspan]
      simp only [byteLength_append]
      omega
    · exact ih i hi hne

theorem laid_nodup (h : Laid cs before items) : items.Nodup := by
  induction h with
  | done before gap line hg hcs => simp
  | item before gap w behind item items hg hw hcs hspan heof htoken herror h ih =>
    refine List.nodup_cons.mpr ⟨fun hmem => ?_, ih⟩
    have hstart := laid_start_le _ _ _ h item hmem
    have := byteLength_pos w hw
    rw [hspan] at hstart
    simp only [byteLength_append] at hstart
    omega

theorem laid_gaps (a : Nat) (h : Laid cs before items) :
    (⟨a, byteLength before⟩ :: items.map Item.span).IsChain fun a b =>
      ∃ gap, slice? cs ⟨a.stop, b.start⟩ = some gap ∧ Gap (b.start == byteLength cs) gap := by
  induction h generalizing a with
  | done before gap line hg hcs =>
    have hslice := slice?_of_eq cs before gap [] (by simpa using hcs)
    rw [← hcs] at hslice
    refine List.isChain_cons_cons.mpr ⟨⟨gap, hslice, ?_⟩, .singleton _⟩
    simpa [Item.eof, Item.span, Span.point] using hg
  | item before gap w behind item items hg hw hcs hspan heof htoken herror h ih =>
    have hslice := slice?_of_eq cs before gap (w ++ behind) (by simpa using hcs)
    -- A lexeme stands behind this gap, so no comment may end here with the text.
    have hlt : byteLength (before ++ gap) ≠ byteLength cs := by
      have := byteLength_pos w hw
      rw [hcs]
      simp only [byteLength_append]
      omega
    rw [List.map_cons, hspan]
    refine List.isChain_cons_cons.mpr ⟨⟨gap, hslice, ?_⟩, ih _⟩
    rwa [beq_eq_false_iff_ne.mpr hlt]

theorem laid_ends (h : Laid cs before items) :
    ∃ body line, items = body ++ [.eof ⟨byteLength cs, line⟩] ∧
      ∀ item ∈ body, item.isEof = false := by
  induction h with
  | done before gap line hg hcs => exact ⟨[], line, rfl, by simp⟩
  | item before gap w behind item items hg hw hcs hspan heof htoken herror h ih =>
    obtain ⟨body, line, rfl, hbody⟩ := ih
    exact ⟨item :: body, line, rfl, by simpa [heof] using hbody⟩

theorem laid_nothing_left (h : Laid cs cs items) : ∃ line, items = [.eof ⟨byteLength cs, line⟩] := by
  cases h with
  | done _ gap line => exact ⟨line, rfl⟩
  | item _ gap w behind item items hg hw hcs hspan heof htoken herror h =>
    have hle := laid_before_le _ _ _ h
    have := byteLength_pos w hw
    simp only [byteLength_append] at hle
    omega

theorem laid_unterminated (h : Laid cs before items) :
    ∀ front e behind, items = front ++ .error e :: behind → e.cause = .unterminatedString →
      e.span.stop = byteLength cs ∧ ∃ line, behind = [.eof ⟨byteLength cs, line⟩] := by
  induction h with
  | done before gap line hg hcs =>
    intro front e behind heq
    rcases front with _ | ⟨f, front⟩ <;> simp [Item.eof] at heq
  | item before gap w rest item items hg hw hcs hspan heof htoken herror h ih =>
    intro front e behind heq hcause
    rcases front with _ | ⟨f, front⟩
    · obtain ⟨rfl, rfl⟩ := List.cons.inj heq
      have hrest := herror e rfl hcause
      rw [hrest, List.append_nil] at hcs
      refine ⟨?_, laid_nothing_left cs _ (hcs ▸ h)⟩
      rw [hcs]
      exact congrArg Span.stop hspan
    · exact ih front e behind (List.cons.inj heq).2 hcause

theorem laid_rejoin (h : Laid cs before items) :
    before ++ rejoin cs (byteLength before) items = cs := by
  induction h with
  | done before gap line hg hcs =>
    have hgap := slice?_of_eq cs before gap [] (by simpa using hcs)
    rw [← hcs] at hgap
    simp only [rejoin, Item.eof, Item.span, Span.point, hgap, slice?_end, Option.getD_some,
      List.append_nil]
    exact hcs.symm
  | item before gap w behind item items hg hw hcs hspan heof htoken herror h ih =>
    have hgap := slice?_of_eq cs before gap (w ++ behind) (by simpa using hcs)
    have htext := slice?_of_eq cs (before ++ gap) w behind hcs
    rw [rejoin, hspan, hgap, htext]
    simpa only [Option.getD_some, List.append_assoc] using ih

theorem laid_count (h : Laid cs before items) :
    before.length + items.length ≤ cs.length + 1 := by
  induction h with
  | done before gap line hg hcs =>
    simp [hcs]
  | item before gap w behind item items hg hw hcs hspan heof htoken herror h ih =>
    have := List.length_pos_iff.mpr hw
    simp only [List.length_append, List.length_cons] at ih ⊢
    omega

theorem laid_covers (h : Laid cs [] items) : Covers cs items where
  inside := laid_inside cs [] items h
  lexeme := laid_lexeme cs [] items h
  ordered := laid_ordered cs [] items h
  nonempty := laid_nonempty cs [] items h
  gaps := laid_gaps cs [] items 0 h
  ends := laid_ends cs [] items h
  unterminated := laid_unterminated cs [] items h
  rejoined := laid_rejoin cs [] items h
  count := by simpa using laid_count cs [] items h

end

/-! ## Draining -/

/-- The items that the first so many calls yield. -/
def collect : Nat → Scanner → List Item
  | 0, _ => []
  | n + 1, s => match s.next? with
    | (some item, s') => item :: collect n s'
    | (none, _) => []

theorem ofPiece_isEof (p q : Place) (c : Char) (cs : List Char) :
    (Item.ofPiece p q (Piece.first c cs).1).isEof = false := by
  have htakes := first_takes c cs
  cases hpiece : (Piece.first c cs).1 with
  | lexeme k w v =>
    rw [hpiece] at htakes
    simpa [Item.ofPiece, Item.isEof, Token.isEof] using lexeme_ne_eof k w htakes.1
  | unexpected d => rfl
  | unterminated w => rfl

theorem drain_next (s : Scanner) :
    s.drain = match s.next? with
      | (some item, s') => item :: s'.drain
      | (none, _) => [] := by
  unfold Scanner.drain Scanner.next?
  by_cases hf : s.finished = true
  · simp [hf]
  · obtain ⟨gap, rest, hsplit⟩ : ∃ gap rest, Layout.split false s.rest = (gap, rest) := ⟨_, _, rfl⟩
    cases rest with
    | nil =>
      rw [items_of_nil _ _ gap hsplit]
      simp [hf, Scanner.pull, hsplit, Item.eof, Item.isEof, Token.isEof]
    | cons c rest =>
      rw [items_of_cons _ _ gap rest c hsplit]
      simp [hf, Scanner.pull, hsplit, ofPiece_isEof]

theorem collect_eq_take (n : Nat) (s : Scanner) : collect n s = s.drain.take n := by
  induction n generalizing s with
  | zero => rfl
  | succ n ih =>
    rw [collect, drain_next]
    cases s.next? with
    | mk item s' =>
      cases item with
      | none => rfl
      | some item => exact congrArg (item :: ·) (ih s')

theorem scan_laid (src : String) : Laid src.toList [] (scan src) :=
  laid_of_tokenizes .start [] src.toList _ (scan_tokenizes src) rfl

/-- **Nothing is lost and nothing is made up.** The items of a text make it up, and a reader who
calls once more than the text has characters has got them all. -/
theorem scan_covers (src : String) :
    Covers src.toList (scan src) ∧
      ∀ n, src.length < n → collect n (.ofText src) = scan src := by
  have hcovers := laid_covers src.toList (scan src) (scan_laid src)
  refine ⟨hcovers, ?_⟩
  intro n hn
  have hcount := hcovers.count
  rw [String.length_toList] at hcount
  rw [collect_eq_take]
  change (scan src).take n = scan src
  exact List.take_of_length_le (by omega)

end Lexical

end Lox
