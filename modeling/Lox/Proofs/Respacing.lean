import Lox.Proofs.Compose
import Mathlib.Data.List.Nodup

/-!
# Layout means nothing

The lexemes of a text can be written anew with any layout between them, as long as a blank comes
first in it. They are scanned to the same tokens, and only the places of the tokens are new. So the
text still has the same tree, the same value, and the same errors at the same operators.
-/

namespace Lox

namespace Lexical

/-! ## A lexeme by itself -/

theorem longest_self (k : Kind) (w : List Char) (h : Lexeme k w) : Longest w w :=
  ⟨List.prefix_refl w, ⟨k, h⟩, fun _ _ _ hp => hp.length_le⟩

theorem isBlank_of_sign (c : Char) (v : List Char) (k : Kind) (h : signKind? (c :: v) = some k) :
    Layout.isBlank c = false ∧ (c = '/' → v = []) := by
  have htable : ∀ p ∈ signs,
      p.1.head?.all (fun c => !Layout.isBlank c && (c != '/' || p.1.tail.isEmpty)) = true := by
    decide
  have hno := htable (c :: v, k) ((mem_signs_iff _ k).mpr h)
  simp only [List.head?_cons, Option.all_some, List.tail_cons, Bool.and_eq_true, Bool.or_eq_true,
    bne_iff_ne, List.isEmpty_iff, Bool.not_eq_true'] at hno
  exact ⟨hno.1, fun hc => hno.2.resolve_left (not_not_intro hc)⟩

theorem isBlank_of_wordChar (c : Char) (h : isWordChar c = true) :
    Layout.isBlank c = false ∧ c ≠ '/' := by
  constructor
  · by_contra hblank
    rw [isBlank_not_wordChar c (by simpa using hblank)] at h
    cases h
  · rintro rfl
    exact absurd h (by decide)

theorem not_beginsGap_lexeme (k : Kind) (w : List Char) (h : Lexeme k w) : ¬ BeginsGap w := by
  obtain ⟨c, v, rfl⟩ := List.exists_cons_of_ne_nil (lexeme_ne_nil k w h)
  have hchar : Layout.isBlank c = false ∧ (c = '/' → v = []) := by
    rcases lexeme_cons k c v h with ⟨rfl, -⟩ | ⟨hc, -⟩ | ⟨hc, -⟩ | ⟨-, -, -, hk⟩
    · exact ⟨by decide, fun hq => absurd hq (by decide)⟩
    · have hno := isBlank_of_wordChar c (by simp [isWordChar, hc])
      exact ⟨hno.1, fun hs => absurd hs hno.2⟩
    · have hno := isBlank_of_wordChar c (by simp [isWordChar, hc])
      exact ⟨hno.1, fun hs => absurd hs hno.2⟩
    · exact isBlank_of_sign c v k hk
  rintro (⟨d, hd, hblank⟩ | ⟨t, ht⟩)
  · obtain rfl : c = d := by simpa using hd
    rw [hchar.1] at hblank
    cases hblank
  · simp only [List.cons_append, List.nil_append, List.cons.injEq] at ht
    rw [hchar.2 ht.1.symm] at ht
    simp at ht

/-- The token of a lexeme that begins at a place. -/
def tokenAt (p : Place) (k : Kind) (w : List Char) : Token :=
  ⟨k, String.ofList w, literalOf k w, (p.after w).line, p.span (p.after w)⟩

theorem tokenizes_lexeme (p : Place) (k : Kind) (w : List Char) (h : Lexeme k w) :
    Tokenizes p w [.token (tokenAt p k w), .eof (p.after w)] := by
  have hdone := Tokenizes.done (p.after w) [] (.nil true)
  have hw := Tokenizes.token p [] w [] k _ (.nil false)
    (by simpa using not_beginsGap_lexeme k w h) h (by simpa using longest_self k w h) hdone
  rw [List.append_nil] at hw
  exact hw

theorem scan_lexeme (k : Kind) (w : List Char) (h : Lexeme k w) :
    scan (String.ofList w) = [.token (tokenAt .start k w), .eof (Place.start.after w)] := by
  change Scanner.items .start (String.ofList w).toList = _
  rw [String.toList_ofList]
  exact items_eq_of_tokenizes _ _ _ (tokenizes_lexeme .start k w h)

/-! ## Lexemes with layout between them -/

/-- Layout that keeps lexemes apart. It begins with a blank: a comment right behind a slash would
take the slash in. -/
structure Separator (gap : List Char) : Prop where
  layout : Gap false gap
  blank : ∃ c ∈ gap.head?, Layout.isBlank c = true

/-- A text of these lexemes with a separator between any two, and perhaps one behind the last. -/
inductive Spaced : List (List Char) → List Char → Prop
  | nil : Spaced [] []
  | last (w : List Char) : Spaced [w] w
  | cons (w gap : List Char) (ws : List (List Char)) (cs : List Char) (hg : Separator gap)
      (h : Spaced ws cs) : Spaced (w :: ws) (w ++ (gap ++ cs))

/-- A text of these lexemes, with a separator or nothing in front. -/
def Respaced (ws : List (List Char)) (cs : List Char) : Prop :=
  ∃ lead body, (lead = [] ∨ Separator lead) ∧ Spaced ws body ∧ cs = lead ++ body

/-- A token as the lexical grammar makes it from its lexeme. -/
structure Genuine (t : Token) : Prop where
  lexeme : Lexeme t.kind t.lexeme.toList
  literal : t.literal = literalOf t.kind t.lexeme.toList

theorem genuine_tokenAt (p : Place) (k : Kind) (w : List Char) (h : Lexeme k w) :
    Genuine (tokenAt p k w) := by
  constructor <;> simp [tokenAt, h]

theorem tokenizes_genuine (p : Place) (cs : List Char) (items : List Item)
    (h : Tokenizes p cs items) (t : Token) (ht : .token t ∈ items) (hne : t.isEof = false) :
    Genuine t := by
  induction h with
  | done p gap hg =>
    obtain rfl : t = _ := by simpa [Item.eof] using ht
    simp [Token.isEof] at hne
  | token p gap w rest k items hg hb hk hw h ih =>
    rcases List.mem_cons.mp ht with ht | ht
    · cases ht
      exact genuine_tokenAt (p.after gap) k w hk
    · exact ih ht
  | unterminated p gap body hg hn =>
    obtain rfl : t = _ := by simpa [Item.eof] using ht
    simp [Token.isEof] at hne
  | unexpected p gap rest c items hg hb hc hn h ih =>
    rcases List.mem_cons.mp ht with ht | ht
    · cases ht
    · exact ih ht

theorem tokenizes_spaced (ws : List (List Char)) (cs : List Char) (h : Spaced ws cs)
    (hws : ∀ w ∈ ws, ∃ k, Lexeme k w) (p : Place) :
    ∃ (ts : List Token) (q : Place), Tokenizes p cs (ts.map .token ++ [.eof q]) ∧
      ts.map (·.lexeme.toList) = ws ∧ ∀ t ∈ ts, Genuine t := by
  induction h generalizing p with
  | nil => exact ⟨[], p, .done p [] (.nil true), rfl, by simp⟩
  | last w =>
    obtain ⟨k, hk⟩ := hws w (by simp)
    refine ⟨[tokenAt p k w], p.after w, tokenizes_lexeme p k w hk, by simp [tokenAt], ?_⟩
    simpa using genuine_tokenAt p k w hk
  | cons w gap ws cs hg h ih =>
    obtain ⟨k, hk⟩ := hws w (by simp)
    obtain ⟨ts, q, hts, hlexemes, hgenuine⟩ :=
      ih (fun v hv => hws v (by simp [hv])) ((p.after w).after gap)
    obtain ⟨hlayout, b, hb, hblank⟩ := hg
    obtain ⟨gap, rfl⟩ := List.head?_eq_some_iff.mp hb
    -- The blank is seen as the end of the text would be.
    have hlongest := longest_blank b hblank w w (gap ++ cs) (longest_self k w hk)
    have hbegins : ¬ BeginsGap (w ++ (b :: gap ++ cs)) := by
      obtain ⟨c, v, rfl⟩ := List.exists_cons_of_ne_nil (lexeme_ne_nil k w hk)
      exact not_beginsGap_blank b hblank c v (gap ++ cs) (not_beginsGap_lexeme k _ hk)
    have hrest := tokenizes_gap (p.after w) (b :: gap) cs _ hlayout hts
    have htoken := Tokenizes.token p [] w (b :: gap ++ cs) k _ (.nil false) hbegins hk hlongest
      hrest
    refine ⟨tokenAt p k w :: ts, q, htoken, by simp [tokenAt, hlexemes], ?_⟩
    intro t ht
    rcases List.mem_cons.mp ht with rfl | ht
    · exact genuine_tokenAt p k w hk
    · exact hgenuine t ht

theorem tokenizes_respaced (ws : List (List Char)) (cs : List Char) (h : Respaced ws cs)
    (hws : ∀ w ∈ ws, ∃ k, Lexeme k w) (p : Place) :
    ∃ (ts : List Token) (q : Place), Tokenizes p cs (ts.map .token ++ [.eof q]) ∧
      ts.map (·.lexeme.toList) = ws ∧ ∀ t ∈ ts, Genuine t := by
  obtain ⟨lead, body, hlead, hspaced, rfl⟩ := h
  obtain ⟨ts, q, hts, hlexemes, hgenuine⟩ := tokenizes_spaced ws body hspaced hws (p.after lead)
  have hgap : Gap false lead := by
    rcases hlead with rfl | hlead
    · exact .nil false
    · exact hlead.layout
  exact ⟨ts, q, tokenizes_gap p lead body _ hgap hts, hlexemes, hgenuine⟩

end Lexical

/-! ## Tokens that have been moved -/

/-- The tokens differ in their places only. -/
structure Token.Same (t u : Token) : Prop where
  kind : u.kind = t.kind
  lexeme : u.lexeme = t.lexeme
  literal : u.literal = t.literal

theorem Lexical.same_of_genuine (t u : Token) (ht : Genuine t) (hu : Genuine u)
    (h : u.lexeme = t.lexeme) : t.Same u := by
  have hk : u.kind = t.kind := by
    apply lexeme_kind_unique _ _ t.lexeme.toList _ ht.lexeme
    rw [← h]
    exact hu.lexeme
  exact ⟨hk, h, by rw [hu.literal, ht.literal, hk, h]⟩

theorem Lexical.forall₂_same (ts us : List Token) (hts : ∀ t ∈ ts, Genuine t)
    (hus : ∀ u ∈ us, Genuine u) (h : us.map (·.lexeme.toList) = ts.map (·.lexeme.toList)) :
    List.Forall₂ Token.Same ts us := by
  induction ts generalizing us with
  | nil =>
    obtain rfl : us = [] := by simpa using h
    exact .nil
  | cons t ts ih =>
    cases us with
    | nil => cases h
    | cons u us =>
      rw [List.map_cons, List.map_cons, List.cons.injEq, String.toList_inj] at h
      apply List.Forall₂.cons
      · exact same_of_genuine t u (hts t (by simp)) (hus u (by simp)) h.1
      · exact ih us (fun x hx => hts x (by simp [hx])) (fun x hx => hus x (by simp [hx])) h.2

theorem exists_moves (ts us : List Token) (hnodup : ts.Nodup)
    (h : List.Forall₂ Token.Same ts us) : ∃ f, Moves f ∧ us = ts.map f := by
  -- Where no token stands twice, moving each of them is a function.
  induction h with
  | nil => exact ⟨id, ⟨fun _ => rfl, fun _ => rfl, fun _ => rfl⟩, rfl⟩
  | @cons t u ts us hsame htail ih =>
    obtain ⟨hmem, hnodup⟩ := List.nodup_cons.mp hnodup
    obtain ⟨f, hf, rfl⟩ := ih hnodup
    refine ⟨fun x => if x = t then u else f x, ?_, ?_⟩
    · constructor
      all_goals
        intro x
        by_cases hx : x = t
        · simp [hx, hsame.kind, hsame.lexeme, hsame.literal]
        · simp [hx, hf.kind, hf.lexeme, hf.literal]
    · rw [List.map_cons, if_pos rfl]
      congr 1
      apply List.map_congr_left
      intro x hx
      rw [if_neg]
      rintro rfl
      exact hmem hx

theorem tokensOf_nodup (src : String) : (tokensOf src).Nodup := by
  apply List.Nodup.filterMap
  · intro a b t ha hb
    cases a <;> cases b <;> simp_all [Item.token?]
  · exact Lexical.laid_nodup _ _ _ (Lexical.scan_laid src)

/-! ## The same text with another layout -/

/-- The lexemes of a text. -/
def lexemesOf (src : String) : List (List Char) :=
  ((tokensOf src).filter (!·.isEof)).map (·.lexeme.toList)

theorem mem_scan_of_mem_tokensOf (src : String) (t : Token) (h : t ∈ tokensOf src) :
    .token t ∈ scan src := by
  obtain ⟨item, hitem, ht⟩ := List.mem_filterMap.mp h
  cases item with
  | token u =>
    cases ht
    exact hitem
  | error e => cases ht

theorem genuine_of_mem_tokensOf (src : String) (t : Token) (h : t ∈ tokensOf src)
    (hne : t.isEof = false) : Lexical.Genuine t := by
  apply Lexical.tokenizes_genuine .start src.toList _ (Lexical.scan_tokenizes src) t _ hne
  exact mem_scan_of_mem_tokensOf src t h

theorem tokensOf_scan (src : String) (ts : List Token) (p : Place)
    (h : scan src = ts.map .token ++ [.eof p]) :
    lexicalErrors src = [] ∧ tokensOf src = ts ++ [⟨.eof, "", none, p.line, .point p.offset⟩] := by
  unfold lexicalErrors tokensOf
  rw [h, List.filterMap_append, List.filterMap_append, errors_of_map, tokens_of_map]
  exact ⟨rfl, rfl⟩

theorem scan_of_clean (src : String) (h : lexicalErrors src = []) :
    ∃ (ts : List Token) (p : Place), scan src = ts.map .token ++ [.eof p] ∧
      (∀ t ∈ ts, Lexical.Genuine t) ∧ lexemesOf src = ts.map (·.lexeme.toList) := by
  obtain ⟨body, line, hbody, hnone⟩ := Lexical.laid_ends _ _ _ (Lexical.scan_laid src)
  unfold lexicalErrors at h
  rw [hbody, List.filterMap_append, List.append_eq_nil_iff] at h
  obtain ⟨ts, rfl⟩ : ∃ ts : List Token, body = ts.map .token := ⟨_, items_of_clean body h.1⟩
  have hne : ∀ t ∈ ts, t.isEof = false := fun t ht => hnone (.token t) (List.mem_map_of_mem ht)
  have htokens := (tokensOf_scan src ts _ hbody).2
  refine ⟨ts, _, hbody, ?_, ?_⟩
  · intro t ht
    apply genuine_of_mem_tokensOf src t _ (hne t ht)
    rw [htokens]
    exact List.mem_append_left _ ht
  · have hkept : ts.filter (!·.isEof) = ts := by
      rw [List.filter_eq_self]
      intro t ht
      rw [hne t ht]
      rfl
    rw [lexemesOf, htokens, List.filter_append, hkept]
    simp [Token.isEof]

theorem tokens_of_respaced (src new : String) (hclean : lexicalErrors src = [])
    (h : Lexical.Respaced (lexemesOf src) new.toList) :
    lexicalErrors new = [] ∧ ∃ f, Moves f ∧ tokensOf new = (tokensOf src).map f := by
  obtain ⟨ts, p, hscan, hgenuine, hlexemes⟩ := scan_of_clean src hclean
  rw [hlexemes] at h
  have hws : ∀ w ∈ ts.map (·.lexeme.toList), ∃ k, Lexical.Lexeme k w := by
    intro w hw
    obtain ⟨t, ht, rfl⟩ := List.mem_map.mp hw
    exact ⟨t.kind, (hgenuine t ht).lexeme⟩
  obtain ⟨us, q, htokenizes, hsame, hgenuine'⟩ :=
    Lexical.tokenizes_respaced _ _ h hws .start
  have hscan' : scan new = us.map .token ++ [.eof q] :=
    Lexical.items_eq_of_tokenizes _ _ _ htokenizes
  obtain ⟨hnew, htokens'⟩ := tokensOf_scan new us q hscan'
  refine ⟨hnew, exists_moves (tokensOf src) (tokensOf new) (tokensOf_nodup src) ?_⟩
  rw [(tokensOf_scan src ts p hscan).2, htokens']
  apply List.rel_append
  · exact Lexical.forall₂_same ts us hgenuine hgenuine' hsame
  · exact .cons ⟨rfl, rfl, rfl⟩ .nil

/-! ## What is reported -/

theorem derives_of_parses (src : String) (e : Expr) (h : Parses src (.ok e)) :
    ∃ us rest, tokensOf src = us ++ rest ∧ Grammar.Derives .equality us e := by
  obtain ⟨us, t, rest, htokens, hd, -, -⟩ := tokens_of_parses src e h
  exact ⟨us, t :: rest, htokens, hd⟩

theorem operator_mem_tokensOf (src : String) (e : Expr) (h : Parses src (.ok e)) (op : Token)
    (hop : op ∈ e.operators) : op ∈ tokensOf src := by
  obtain ⟨us, rest, htokens, hd⟩ := derives_of_parses src e h
  rw [htokens]
  exact List.mem_append_left rest ((Grammar.operators_sublist _ us e hd).subset hop)

theorem parse_of_tree (src : String) (e : Expr) (hclean : lexicalErrors src = [])
    (h : Parses src (.ok e)) : ∃ s, parse src {} = .ok (some e, s) ∧ s.reports = [] := by
  obtain ⟨s, hparse, hgrows⟩ := parse_grows src {} _ h
  have hnone : complaints src (.ok e) = [] := by simp [complaints, hclean]
  rw [hnone] at hgrows
  have hflag : s.hadError = false := hgrows.hadError
  rw [hflag] at hparse
  exact ⟨s, hparse, hgrows.reports⟩

theorem parse_of_refusal (src : String) (err : ParseError) (hclean : lexicalErrors src = [])
    (h : Parses src (.error err)) :
    ∃ s, parse src {} = .ok (none, s) ∧ run src {} = .ok (.syntaxFailure, s) ∧
      s.reports = [.ofParse err] := by
  obtain ⟨s, hparse, hgrows⟩ := parse_grows src {} _ h
  have hone : complaints src (.error err) = [.ofParse err] := by simp [complaints, hclean]
  rw [hone] at hgrows
  have hnone : parse src {} = .ok (none, s) := by
    rw [hparse]
    simp [Except.toOption]
  exact ⟨s, hnone, run_of_unparsed src {} s hnone, hgrows.reports⟩

/-- The reports say the same: an error in how a text is written with the same words, or the same
complaint of an operator among the tokens `ts`, which has been moved. -/
inductive Report.Moved (f : Token → Token) (ts : List Token) : Report → Report → Prop
  | malformed (e e' : SyntaxError) (hl : e'.location = e.location) (hm : e'.message = e.message) :
      Moved f ts (.malformed e) (.malformed e')
  | runtime (e : RuntimeError) (h : e.token ∈ ts) :
      Moved f ts (.runtime e) (.runtime ⟨f e.token, e.cause⟩)

theorem moved_ofParse (f : Token → Token) (hf : Moves f) (ts : List Token) (err : ParseError) :
    Report.Moved f ts (.ofParse err) (.ofParse ⟨err.cause, f err.token⟩) := by
  apply Report.Moved.malformed
  · change SyntaxError.locationOf (f err.token) = SyntaxError.locationOf err.token
    rw [SyntaxError.locationOf, SyntaxError.locationOf, Token.isEof, Token.isEof, hf.kind,
      hf.lexeme]
  · rfl

section

variable (f : Token → Token) (src new : String)

/-- A parse gives both texts one tree, with its operators moved, or refuses both for one reason. -/
def ParsesAlike : Prop :=
  ∃ tree s s', parse src {} = .ok (tree, s) ∧
    parse new {} = .ok (tree.map (Expr.mapTokens f), s') ∧
    (∀ e, tree = some e → (∀ op ∈ e.operators, op ∈ tokensOf src) ∧
      (e.mapTokens f).display = e.display ∧ (e.mapTokens f).postfixForm = e.postfixForm) ∧
    List.Forall₂ (Report.Moved f (tokensOf src)) s.reports s'.reports

def RunsAlike : Prop :=
  ∃ outcome s s', run src {} = .ok (outcome, s) ∧ run new {} = .ok (outcome, s') ∧
    List.Forall₂ (Report.Moved f (tokensOf src)) s.reports s'.reports

/-- The two texts differ in layout only, and `f` takes the tokens of the first to where they stand
in the second. -/
structure Relaid : Prop where
  moves : Moves f
  clean : lexicalErrors new = []
  tokens : tokensOf new = (tokensOf src).map f
  parsed : ParsesAlike f src new
  ran : RunsAlike f src new

variable (hf : Moves f) (hsrc : lexicalErrors src = []) (hnew : lexicalErrors new = [])

include hf hsrc hnew

theorem parsesAlike_of_tree (e : Expr) (h : Parses src (.ok e))
    (h' : Parses new (.ok (e.mapTokens f))) : ParsesAlike f src new := by
  obtain ⟨s, hparse, hreports⟩ := parse_of_tree src e hsrc h
  obtain ⟨s', hparse', hreports'⟩ := parse_of_tree new _ hnew h'
  refine ⟨some e, s, s', hparse, hparse', ?_, ?_⟩
  · rintro _ ⟨⟩
    exact ⟨operator_mem_tokensOf src e h, Expr.display_map f hf e, Expr.postfixForm_map f hf e⟩
  · rw [hreports, hreports']
    exact .nil

theorem runsAlike_of_tree (e : Expr) (h : Parses src (.ok e))
    (h' : Parses new (.ok (e.mapTokens f))) : RunsAlike f src new := by
  have hgives := gives_evaluate src e hsrc h
  have hgives' := gives_evaluate new _ hnew h'
  rw [Expr.evaluate_map f hf] at hgives'
  cases he : e.evaluate with
  | ok v =>
    rw [he] at hgives hgives'
    obtain ⟨s, hrun, hreports⟩ := hgives
    obtain ⟨s', hrun', hreports'⟩ := hgives'
    refine ⟨.value v, s, s', hrun, hrun', ?_⟩
    rw [hreports, hreports']
    exact .nil
  | error stop =>
    rw [he] at hgives hgives'
    cases stop with
    | fault x => exact hgives.elim
    | runtime err =>
      obtain ⟨s, hrun, hreports⟩ := hgives
      obtain ⟨s', hrun', hreports'⟩ := hgives'
      refine ⟨.runtimeFailure, s, s', hrun, hrun', ?_⟩
      rw [hreports, hreports']
      have hmem := operator_mem_tokensOf src e h err.token (e.evaluate_blames err he).1
      exact .cons (.runtime err hmem) .nil

end

/-- **Layout means nothing.** A text without lexical errors can be written anew: its lexemes in
their order, with any separators between them. The new text has the same tokens, the same tree and
the same outcome, and what is wrong with it is the same at the same token. -/
theorem layout_means_nothing (src new : String) (hclean : lexicalErrors src = [])
    (h : Lexical.Respaced (lexemesOf src) new.toList) : ∃ f, Relaid f src new := by
  obtain ⟨hnew, f, hf, htokens⟩ := tokens_of_respaced src new hclean h
  obtain ⟨result, hresult, -⟩ := parses_operable src
  have hresult' : Parses new (Parser.mapResult f result) := by
    unfold Parses
    rw [htokens]
    exact Parser.expression_map f hf _ result hresult
  cases result with
  | ok e =>
    refine ⟨f, hf, hnew, htokens, ?_, ?_⟩
    · exact parsesAlike_of_tree f src new hf hclean hnew e hresult hresult'
    · exact runsAlike_of_tree f src new hf hclean hnew e hresult hresult'
  | error err =>
    obtain ⟨s, hparse, hrun, hreports⟩ := parse_of_refusal src err hclean hresult
    obtain ⟨s', hparse', hrun', hreports'⟩ := parse_of_refusal new _ hnew hresult'
    have hmoved : List.Forall₂ (Report.Moved f (tokensOf src)) s.reports s'.reports := by
      rw [hreports, hreports']
      exact .cons (moved_ofParse f hf _ err) .nil
    refine ⟨f, hf, hnew, htokens, ?_, ?_⟩
    · exact ⟨none, s, s', hparse, hparse', by simp, hmoved⟩
    · exact ⟨.syntaxFailure, s, s', hrun, hrun', hmoved⟩

theorem layout_means_nothing_comment :
    lexicalErrors "-nil/2" = [] ∧
      Lexical.Respaced (lexemesOf "-nil/2") "\t- nil\n/ // half\n2".toList ∧
      ∃ f, Relaid f "-nil/2" "\t- nil\n/ // half\n2" := by
  -- The blank in front of the comment keeps it off the slash.
  have hclean : lexicalErrors "-nil/2" = [] := by decide +kernel
  have hlexemes : lexemesOf "-nil/2" = [['-'], ['n', 'i', 'l'], ['/'], ['2']] := by decide +kernel
  have hblank : ∀ c, Layout.isBlank c = true → Lexical.Separator [c] := fun c hc =>
    ⟨.blank false c [] hc (.nil false), c, rfl, hc⟩
  have hcomment : Lexical.Separator " // half\n".toList := by
    refine ⟨?_, ' ', rfl, rfl⟩
    apply Lexical.Gap.blank false ' ' _ rfl
    exact .comment false " half".toList [] (by decide) (.blank false '\n' [] rfl (.nil false))
  have hspaced : Lexical.Respaced (lexemesOf "-nil/2") "\t- nil\n/ // half\n2".toList := by
    rw [hlexemes]
    refine ⟨['\t'], "- nil\n/ // half\n2".toList, Or.inr (hblank '\t' rfl), ?_, rfl⟩
    apply Lexical.Spaced.cons ['-'] [' '] _ "nil\n/ // half\n2".toList (hblank ' ' rfl)
    apply Lexical.Spaced.cons _ ['\n'] _ "/ // half\n2".toList (hblank '\n' rfl)
    exact .cons ['/'] " // half\n".toList _ ['2'] hcomment (.last ['2'])
  exact ⟨hclean, hspaced, layout_means_nothing _ _ hclean hspaced⟩

end Lox
