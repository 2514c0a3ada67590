import Lox.Failure
import Lox.Proofs.Lines
import Lox.Proofs.Respacing
import Lox.RunFile

/-!
# Reports point at what they talk about

Every report of a run has a span, and the text at the span is what the report is about. The line
that is reported is the one that the text ends on, while the header of a snippet gives the line that
it begins on. The two differ only for a string that runs over several lines.
-/

namespace Lox

def Item.line : Item → Nat
  | token t => t.line
  | error e => e.line

/-- The span of a text that stands behind another. -/
def Span.behind (front text : List Char) : Span := ⟨byteLength front, byteLength (front ++ text)⟩

namespace Lexical

/-! ## Where an item stands -/

/-- The item is the one for `text`, and `front` stands before it. -/
structure Stands (cs : List Char) (item : Item) (front text behind : List Char) : Prop where
  split : cs = front ++ (text ++ behind)
  span : item.span = .behind front text
  line : item.line = 1 + lineFeeds (front ++ text)
  lexeme : ∀ t, item = .token t → t.lexeme.toList = text
  ends : item.isEof = true → text = [] ∧ behind = []
  nonempty : item.isEof = false → text ≠ []
  unexpected : ∀ e c, item = .error e → e.cause = .unexpectedCharacter c → text = [c]
  unterminated : ∀ e, item = .error e → e.cause = .unterminatedString →
    text.head? = some '"' ∧ behind = []
  -- No lexeme but a string runs over several lines.
  quoted : '\n' ∈ text → text.head? = some '"'

theorem span_start_after (front text : List Char) :
    (Place.start.after front).span (Place.start.after (front ++ text)) = .behind front text := by
  simp [Place.span, Place.start, Span.behind]

theorem stands_eof (front : List Char) :
    Stands front (.eof (Place.start.after front)) front [] [] := by
  constructor <;> simp [Item.eof, Item.span, Item.line, Item.isEof, Token.isEof, Span.behind,
    Span.point, Place.start]

theorem stands_token (front w rest : List Char) (k : Kind) (hk : Lexeme k w) :
    Stands (front ++ (w ++ rest)) (.token (tokenAt (Place.start.after front) k w)) front w
      rest where
  split := rfl
  span := by
    rw [← span_start_after, Place.after_append]
    rfl
  line := by
    rw [tokenAt, ← Place.after_append]
    rfl
  lexeme := by
    rintro t ⟨⟩
    simp [tokenAt]
  ends := by
    have hne := lexeme_ne_eof k w hk
    simp [Item.isEof, Token.isEof, tokenAt, hne]
  nonempty _ := lexeme_ne_nil k w hk
  unexpected := by rintro e c ⟨⟩
  unterminated := by rintro e ⟨⟩
  quoted hmem := lexeme_blank '\n' (by decide) k w hk hmem

theorem stands_error (front text rest : List Char) (cause : LexicalError.Cause) (hne : text ≠ [])
    (hchar : ∀ c, cause = .unexpectedCharacter c → text = [c])
    (hopen : cause = .unterminatedString → text.head? = some '"' ∧ rest = [])
    (hq : '\n' ∈ text → text.head? = some '"') :
    Stands (front ++ (text ++ rest))
      (.error ⟨cause, ((Place.start.after front).after text).line,
        (Place.start.after front).span ((Place.start.after front).after text)⟩) front text
      rest where
  split := rfl
  span := by
    rw [← span_start_after, Place.after_append]
    rfl
  line := by
    rw [← Place.after_append]
    rfl
  lexeme := by rintro t ⟨⟩
  ends := by simp [Item.isEof]
  nonempty _ := hne
  unexpected := by
    rintro e c ⟨⟩ hc
    exact hchar c hc
  unterminated := by
    rintro e ⟨⟩ hc
    exact hopen hc
  quoted := hq

theorem tokenizes_stands (p : Place) (before cs : List Char) (items : List Item)
    (h : Tokenizes p cs items) (hp : p = Place.start.after before) :
    ∀ item ∈ items, ∃ front text behind, Stands (before ++ cs) item front text behind := by
  induction h generalizing before with
  | done p gap hg =>
    intro item hitem
    obtain rfl := List.mem_singleton.mp hitem
    rw [hp, ← Place.after_append]
    exact ⟨_, _, _, stands_eof (before ++ gap)⟩
  | token p gap w rest k items hg hb hk hw h ih =>
    have hgap : p.after gap = Place.start.after (before ++ gap) := by rw [hp, Place.after_append]
    rw [hgap] at ih ⊢
    intro item hitem
    rcases List.mem_cons.mp hitem with rfl | hitem
    · rw [← List.append_assoc]
      exact ⟨_, _, _, stands_token (before ++ gap) w rest k hk⟩
    · have hstands := ih (before ++ gap ++ w) (Place.after_append _ _ _).symm item hitem
      simpa using hstands
  | unterminated p gap body hg hn =>
    have hgap : p.after gap = Place.start.after (before ++ gap) := by rw [hp, Place.after_append]
    rw [hgap]
    intro item hitem
    rcases List.mem_cons.mp hitem with rfl | hitem
    · have hstands := stands_error (before ++ gap) ('"' :: body) [] .unterminatedString (by simp)
        (by simp) (by simp) (fun _ => rfl)
      rw [List.append_nil, List.append_assoc] at hstands
      exact ⟨_, _, _, hstands⟩
    · obtain rfl := List.mem_singleton.mp hitem
      rw [← Place.after_append, ← List.append_assoc]
      exact ⟨_, _, _, stands_eof (before ++ gap ++ '"' :: body)⟩
  | unexpected p gap rest c items hg hb hc hn h ih =>
    have hgap : p.after gap = Place.start.after (before ++ gap) := by rw [hp, Place.after_append]
    rw [hgap] at ih ⊢
    intro item hitem
    rcases List.mem_cons.mp hitem with rfl | hitem
    · -- A line feed is a blank, so it is never unexpected.
      have hfeed : '\n' ∉ [c] := by
        intro hmem
        obtain rfl : '\n' = c := by simpa using hmem
        exact hb (Or.inl ⟨'\n', rfl, by decide⟩)
      rw [← List.append_assoc]
      exact ⟨_, _, _, stands_error (before ++ gap) [c] rest (.unexpectedCharacter c) (by simp)
        (by simp) (by simp) (fun hmem => absurd hmem hfeed)⟩
    · have hstands := ih (before ++ gap ++ [c]) (Place.after_append _ _ _).symm item hitem
      simpa using hstands

theorem scan_stands (src : String) (item : Item) (h : item ∈ scan src) :
    ∃ front text behind, Stands src.toList item front text behind :=
  tokenizes_stands .start [] src.toList _ (scan_tokenizes src) rfl item h

end Lexical

/-! ## What a report is about -/

namespace Report

def span? : Report → Option Span
  | malformed e => e.span
  | runtime e => some e.token.span

def line : Report → Nat
  | malformed e => e.line
  | runtime e => e.token.line

def message : Report → String
  | malformed e => e.message
  | runtime e => e.message

/-- How the text at its span is named by a report of each of the three stages. -/
inductive Names (src : String) (span : Span) (text : List Char) : Report → Prop
  | scanner (e : LexicalError) (h : e ∈ lexicalErrors src)
      (hchar : ∀ c, e.cause = .unexpectedCharacter c → text = [c])
      (hopen : e.cause = .unterminatedString →
        text.head? = some '"' ∧ span.stop = src.utf8ByteSize) :
      Names src span text (.malformed (.ofLexical e))
  | parser (e : ParseError)
      (hend : (SyntaxError.ofParse e).location = " at end" ↔ span = .point src.utf8ByteSize)
      (htext : span ≠ .point src.utf8ByteSize →
        (SyntaxError.ofParse e).location = " at '" ++ String.ofList text ++ "'") :
      Names src span text (.malformed (.ofParse e))
  | operator (e : RuntimeError) (hlexeme : e.token.lexeme = String.ofList text)
      (hkind : ∃ t p, scan e.token.lexeme = [.token t, .eof p] ∧ t.kind = e.token.kind)
      (hfeed : '\n' ∉ text) : Names src span text (.runtime e)

/-- The report is about `text`, which stands in the text of the run behind `front`. -/
structure PointsAt (src : String) (front text behind : List Char) (r : Report) : Prop where
  split : src.toList = front ++ (text ++ behind)
  span : r.span? = some (.behind front text)
  inside : (Span.behind front text).start ≤ (Span.behind front text).stop ∧
    (Span.behind front text).stop ≤ src.utf8ByteSize
  unclamped : (Span.behind front text).clamp src.utf8ByteSize = .behind front text
  names : r.Names src (.behind front text) text
  line : r.line = 1 + lineFeeds (front ++ text)
  -- The header of the diagnostic gives the line that the text begins on.
  begins : r.line = (1 + lineFeeds front) + lineFeeds text
  agrees : ∀ e, r = .runtime e → r.line = 1 + lineFeeds front
  differs : r.line ≠ 1 + lineFeeds front ↔ '\n' ∈ text
  quoted : '\n' ∈ text → text.head? = some '"'

end Report

theorem pointsAt_of_stands (src : String) (item : Item) (front text behind : List Char)
    (r : Report) (h : Lexical.Stands src.toList item front text behind)
    (hspan : r.span? = some item.span) (hline : r.line = item.line)
    (hnames : r.Names src (.behind front text) text) : r.PointsAt src front text behind := by
  have hsize : src.utf8ByteSize = byteLength front + (byteLength text + byteLength behind) := by
    rw [utf8ByteSize_eq, h.split, byteLength_append, byteLength_append]
  have hbegins : r.line = (1 + lineFeeds front) + lineFeeds text := by
    rw [hline, h.line, lineFeeds_append, Nat.add_assoc]
  have hstop : (Span.behind front text).stop = byteLength front + byteLength text :=
    byteLength_append front text
  have hfeeds : lineFeeds text = 0 ↔ '\n' ∉ text := List.count_eq_zero
  refine ⟨h.split, by rw [hspan, h.span], ?_, ?_, hnames, by rw [hline, h.line], hbegins, ?_, ?_,
    h.quoted⟩
  · rw [hstop, hsize]
    simp only [Span.behind]
    omega
  · have hstart : (Span.behind front text).start = byteLength front := rfl
    unfold Span.clamp
    rw [Nat.min_eq_left (by omega), Nat.min_eq_left (by omega)]
  · rintro e rfl
    cases hnames with
    | operator e hlexeme hkind hfeed => rw [hbegins, hfeeds.mpr hfeed, Nat.add_zero]
  · rw [hbegins, ← not_iff_not, not_not, ← hfeeds]
    omega

theorem pointsAt_ofLexical (src : String) (e : LexicalError) (h : e ∈ lexicalErrors src) :
    ∃ front text behind, (Report.ofLexical e).PointsAt src front text behind := by
  obtain ⟨item, hitem, he⟩ := List.mem_filterMap.mp h
  obtain rfl : item = .error e := by
    cases item with
    | token t => cases he
    | error e' =>
      cases he
      rfl
  obtain ⟨front, text, behind, hstands⟩ := Lexical.scan_stands src _ hitem
  refine ⟨front, text, behind, pointsAt_of_stands src _ front text behind _ hstands rfl rfl ?_⟩
  apply Report.Names.scanner e h
  · exact fun c => hstands.unexpected e c rfl
  · intro hcause
    obtain ⟨hquote, rfl⟩ := hstands.unterminated e rfl hcause
    refine ⟨hquote, ?_⟩
    rw [utf8ByteSize_eq, hstands.split, List.append_nil]
    rfl

theorem token_mem_of_parses (src : String) (err : ParseError) (h : Parses src (.error err)) :
    err.token ∈ tokensOf src := by
  obtain ⟨v, rest, hrun⟩ : ∃ v rest, Parse.run (.due []) (tokensOf src) = (v, rest) :=
    ⟨_, _, rfl⟩
  obtain ⟨us, s, hsplit, -⟩ := Parse.run_explains [] (.due []) (tokensOf src) rest v .nil hrun
  unfold Parses at h
  simp only [Parser.expression, Parser.rest, List.drop_zero, hrun] at h
  split at h
  · cases h
  · cases h
    rw [hsplit]
    exact List.mem_append_right us List.mem_cons_self
  · cases h
  · cases h

theorem pointsAt_ofParse (src : String) (err : ParseError) (h : Parses src (.error err)) :
    ∃ front text behind, (Report.ofParse err).PointsAt src front text behind := by
  have hmem := mem_scan_of_mem_tokensOf src err.token (token_mem_of_parses src err h)
  obtain ⟨front, text, behind, hstands⟩ := Lexical.scan_stands src _ hmem
  have hlexeme := hstands.lexeme err.token rfl
  refine ⟨front, text, behind, pointsAt_of_stands src _ front text behind _ hstands rfl rfl ?_⟩
  have hlocation : (SyntaxError.ofParse err).location = SyntaxError.locationOf err.token := rfl
  cases heof : err.token.isEof with
  | true =>
    obtain ⟨rfl, rfl⟩ := hstands.ends heof
    have hpoint : Span.behind front [] = .point src.utf8ByteSize := by
      rw [utf8ByteSize_eq, hstands.split]
      simp [Span.behind, Span.point]
    apply Report.Names.parser
    · simp [hlocation, SyntaxError.locationOf, heof, hpoint]
    · exact fun hne => absurd hpoint hne
  | false =>
    have hpoint : Span.behind front text ≠ .point src.utf8ByteSize := by
      have hpos := byteLength_pos text (hstands.nonempty heof)
      simp only [Span.behind, Span.point, byteLength_append, ne_eq, Span.mk.injEq]
      omega
    have hat : (SyntaxError.ofParse err).location = " at '" ++ String.ofList text ++ "'" := by
      rw [hlocation, SyntaxError.locationOf, heof, ← hlexeme, String.ofList_toList]
      rfl
    apply Report.Names.parser
    · rw [hat]
      simp [hpoint, ← String.toList_inj]
    · exact fun _ => hat

theorem pointsAt_runtime (src : String) (e : Expr) (err : RuntimeError) (h : Parses src (.ok e))
    (herr : e.evaluate = .error (.runtime err)) :
    ∃ front text behind, (Report.runtime err).PointsAt src front text behind := by
  obtain ⟨hop, hkind⟩ := e.evaluate_blames err herr
  have hmem := operator_mem_tokensOf src e h _ hop
  obtain ⟨front, text, behind, hstands⟩ :=
    Lexical.scan_stands src _ (mem_scan_of_mem_tokensOf src err.token hmem)
  have heof : err.token.isEof = false := by
    rw [Token.isEof, beq_eq_false_iff_ne]
    intro hk
    simp [hk, Grammar.binaryOperators] at hkind
  have hlexeme := genuine_of_mem_tokensOf src err.token hmem heof
  refine ⟨front, text, behind, pointsAt_of_stands src _ front text behind _ hstands rfl rfl ?_⟩
  apply Report.Names.operator
  · rw [← hstands.lexeme err.token rfl, String.ofList_toList]
  · have hscan := Lexical.scan_lexeme _ _ hlexeme.lexeme
    rw [String.ofList_toList] at hscan
    exact ⟨_, _, hscan, rfl⟩
  · -- With a line feed in it the lexeme would be a string.
    intro hfeed
    obtain ⟨v, rfl⟩ := List.head?_eq_some_iff.mp (hstands.quoted hfeed)
    have hquote := hlexeme.lexeme
    rw [hstands.lexeme err.token rfl] at hquote
    obtain ⟨body, hbody, rfl⟩ := Lexical.lexeme_quote _ v hquote
    have hstring := Lexical.lexeme_kind_unique _ _ _ hquote (.string _ ⟨body, hbody, rfl⟩)
    simp [hstring, Grammar.binaryOperators] at hkind

/-! ## What is shown -/

/-- The report gives the line that its text ends on. Its diagnostic has the same span, and a header
with the line and the column at which the text begins. -/
def Report.ShownAs (src path : String) (r : Report) (d : Diagnostic) : Prop :=
  ∃ front text behind, r.PointsAt src front text behind ∧
    (∃ before after, r.text = before ++ ("[line " ++ toString r.line ++ "]" ++ after)) ∧
    d.location = some ⟨src, path, some r.message, .behind front text⟩ ∧
    ∃ pad rest, d.paint.text = Diagnostic.heading d.title path pad (1 + lineFeeds front)
      (1 + (Line.lastOf front).length) ++ rest

theorem Report.text_line (r : Report) :
    ∃ before after, r.text = before ++ ("[line " ++ toString r.line ++ "]" ++ after) := by
  cases r with
  | malformed e =>
    refine ⟨"", " Error" ++ e.location ++ ": " ++ e.message, ?_⟩
    simp [text, line, SyntaxError.text, ← String.toList_inj]
  | runtime e =>
    refine ⟨e.message ++ "\n", "", ?_⟩
    simp [text, line, RuntimeError.text, ← String.toList_inj]

theorem shownAs_of_location (src path : String) (r : Report) (d : Diagnostic)
    (front text behind : List Char) (h : r.PointsAt src front text behind)
    (hd : d.location = some (Failure.locate path src r.message (.behind front text))) :
    r.ShownAs src path d := by
  rw [Failure.locate, h.unclamped] at hd
  obtain ⟨pad, rest, hpaint⟩ := d.text_paint _ hd
  obtain ⟨hnumber, hcolumn⟩ := Line.locate_all src front _ h.split
  have hstart : (Span.behind front text).start = byteLength front := rfl
  rw [hstart, hnumber, hcolumn] at hpaint
  exact ⟨front, text, behind, h, r.text_line, hd, pad, rest, hpaint⟩

theorem complaints_pointAt (src : String) (result : Except ParseError Expr)
    (h : Parses src result) (r : Report) (hr : r ∈ complaints src result) :
    ∃ front text behind, r.PointsAt src front text behind := by
  have hlexical : ∀ r ∈ (lexicalErrors src).map Report.ofLexical,
      ∃ front text behind, r.PointsAt src front text behind := by
    intro r hr
    obtain ⟨e, he, rfl⟩ := List.mem_map.mp hr
    exact pointsAt_ofLexical src e he
  cases result with
  | ok e => exact hlexical r hr
  | error err =>
    rcases List.mem_append.mp hr with hr | hr
    · exact hlexical r hr
    · obtain rfl := List.mem_singleton.mp hr
      exact pointsAt_ofParse src err h

theorem diagnose_shown (src path : String) (e : SyntaxError) (front text behind : List Char)
    (h : (Report.malformed e).PointsAt src front text behind) :
    (Report.malformed e).ShownAs src path (Failure.diagnose path src e) := by
  apply shownAs_of_location src path _ _ front text behind h
  have hspan : e.span = some (.behind front text) := h.span
  rw [Failure.diagnose, hspan]
  rfl

theorem malformed_shown (src path : String) (s : Sink) (errors : List SyntaxError)
    (hreports : s.reports = errors.map .malformed)
    (h : ∀ r ∈ s.reports, ∃ front text behind, r.PointsAt src front text behind) :
    List.Forall₂ (Report.ShownAs src path) s.reports
      (Failure.malformed path src s.syntaxErrors).diagnostics := by
  have herrors : s.syntaxErrors = errors := by
    rw [Sink.syntaxErrors, hreports, List.filterMap_map]
    simp [Function.comp_def, Report.syntaxError?]
  rw [hreports] at h
  rw [herrors, hreports, Failure.diagnostics, List.forall₂_map_left_iff, List.forall₂_map_right_iff,
    List.forall₂_same]
  intro e he
  obtain ⟨front, text, behind, hpoints⟩ := h _ (List.mem_map_of_mem he)
  exact diagnose_shown src path e front text behind hpoints

/-- **Every report points at the text it is about.** A run returns, and whatever it reports has a
span in the text, names what stands there, and gives the line that it ends on. If the run fails,
each report is shown at its span, under a header with the line and the column of its start. -/
theorem reports_point_at_text (src path : String) :
    ∃ outcome s answer, run src {} = .ok (outcome, s) ∧ runText path src {} = .ok (answer, s) ∧
      (∀ r ∈ s.reports, ∃ front text behind, r.PointsAt src front text behind) ∧
      (∀ v, answer = .ok v → s.reports = []) ∧
      ∀ failure, answer = .error failure →
        List.Forall₂ (Report.ShownAs src path) s.reports failure.diagnostics := by
  obtain ⟨result, hresult, -⟩ := parses_operable src
  obtain ⟨parsed, hgrows, hcases⟩ := run_cases src {} result hresult
  have hreports : parsed.reports = complaints src result := hgrows.reports
  rcases hcases with ⟨-, -, hrun⟩ | ⟨-, hnone, e, rfl, -, ⟨v, -, hrun⟩ | ⟨err, herr, hrun⟩⟩
  · have hpoints : ∀ r ∈ parsed.reports, ∃ front text behind, r.PointsAt src front text behind := by
      rw [hreports]
      exact complaints_pointAt src result hresult
    refine ⟨_, _, .error (.malformed path src parsed.syntaxErrors), hrun, ?_, hpoints, by simp, ?_⟩
    · simp only [runText, hrun]
      rfl
    · rintro _ ⟨⟩
      exact malformed_shown src path parsed _ (by rw [hreports, complaints_eq]) hpoints
  · rw [hnone] at hreports
    have hlog : (parsed.log (.evaluated v)).reports = [] := hreports
    refine ⟨_, _, .ok v, hrun, ?_, by simp [hlog], fun _ _ => hlog, by simp⟩
    simp only [runText, hrun]
    rfl
  · rw [hnone] at hreports
    have hpost : ((parsed.log (.failed err)).post (.runtime err)).reports = [.runtime err] := by
      simp [Sink.post, Sink.log, hreports]
    obtain ⟨front, text, behind, hpoints⟩ := pointsAt_runtime src e err hresult herr
    refine ⟨_, _, .error (.runtime path src err), hrun, ?_, ?_, by simp, ?_⟩
    · simp only [runText, hrun, bind, Except.bind, Sink.runtimeErrors, hpost]
      rfl
    · rw [hpost]
      simpa using ⟨front, text, behind, hpoints⟩
    · rintro _ ⟨⟩
      rw [hpost]
      have hspan : err.token.span = .behind front text := Option.some.inj hpoints.span
      refine .cons (shownAs_of_location src path _ _ front text behind hpoints ?_) .nil
      rw [hspan]
      rfl

end Lox
