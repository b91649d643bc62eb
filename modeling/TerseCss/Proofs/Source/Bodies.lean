-- The bodies of classes, read and written. What is read of a body can be written down and is read
-- from there as it was before. What this takes is said of the parts of a body one by one, and every
-- body that is read meets it.
import TerseCss.ClassBody
import TerseCss.Proofs.Outcome
import TerseCss.Proofs.Source.Blocks
import TerseCss.Proofs.Source.Spans
import TerseCss.Proofs.Source.Tokens

namespace TerseCss

/-! ## Unbroken texts -/

/-- The text is one line: it has no line feed, and outside all brackets it has no brace and opens
no comment. -/
structure Text.Unbroken (t : Text) : Prop where
  oneLine : '\n' ∉ t
  plain : ∀ front c rest, t = front ++ c :: rest → front.foldl depthAfter 0 = 0 →
    c ≠ '\x7b' ∧ c ≠ '\x7d' ∧ (c = '/' → rest.head? ≠ some '*')

/-- A part of an unbroken text is unbroken if no bracket is open where it begins. -/
theorem Text.Unbroken.part {before part after : Text} (h : Unbroken (before ++ part ++ after))
    (hbefore : before.foldl depthAfter 0 = 0) : Unbroken part := by
  refine ⟨fun hfeed => h.oneLine (by simp [hfeed]), ?_⟩
  rintro front c rest rfl hdepth
  obtain ⟨hopen, hclose, hcomment⟩ := h.plain (before ++ front) c (rest ++ after) (by simp)
    (by rw [List.foldl_append, hbefore, hdepth])
  refine ⟨hopen, hclose, fun hslash hstar => hcomment hslash ?_⟩
  rw [List.head?_append, hstar]
  rfl

namespace Source

theorem endsLine_eq_false_iff {depth : Nat} {c : Char} {cs : Text} :
    endsLine depth c cs = false ↔ c ≠ '\n' ∧
      (depth = 0 → c ≠ '\x7b' ∧ c ≠ '\x7d' ∧ (c = '/' → cs.head? ≠ some '*')) := by
  simp [endsLine, Decidable.imp_iff_not_or, and_assoc]

theorem spanLine_eq_self_iff {depth : Nat} {t : Text} :
    spanLine depth t = (t, []) ↔ '\n' ∉ t ∧ ∀ front c rest, t = front ++ c :: rest →
      front.foldl Text.depthAfter depth = 0 →
      c ≠ '\x7b' ∧ c ≠ '\x7d' ∧ (c = '/' → rest.head? ≠ some '*') := by
  induction t generalizing depth with
  | nil => simp [spanLine]
  | cons c cs ih =>
    rw [spanLine_cons_eq_self_iff, ih, endsLine_eq_false_iff]
    constructor
    · rintro ⟨⟨hfeed, hfirst⟩, hfeeds, hplain⟩
      refine ⟨by simp [hfeed.symm, hfeeds], ?_⟩
      rintro (_ | ⟨d, front⟩) e rest he hdepth
      · cases he
        exact hfirst hdepth
      · cases he
        exact hplain front e rest rfl hdepth
    · rintro ⟨hfeeds, hplain⟩
      rw [List.mem_cons, not_or] at hfeeds
      refine ⟨⟨Ne.symm hfeeds.1, hplain [] c cs rfl⟩, hfeeds.2, ?_⟩
      rintro front e rest rfl
      exact hplain (c :: front) e rest rfl

theorem unbroken_iff {t : Text} : t.Unbroken ↔ spanLine 0 t = (t, []) := by
  rw [spanLine_eq_self_iff]
  exact ⟨fun h => ⟨h.oneLine, h.plain⟩, fun h => ⟨h.1, h.2⟩⟩

instance (t : Text) : Decidable t.Unbroken := decidable_of_iff _ unbroken_iff.symm

/-! ## Lines and selectors -/

/-- What a line of a body is. -/
structure IsBodyLine (line : Text) : Prop where
  filled : line ≠ []
  trimmed : line.Trimmed
  unbroken : line.Unbroken
  noDirective : line.head? ≠ some '@'

instance (line : Text) : Decidable (IsBodyLine line) :=
  decidable_of_iff (line ≠ [] ∧ line.Trimmed ∧ line.Unbroken ∧ line.head? ≠ some '@')
    ⟨fun ⟨hfilled, htrimmed, hunbroken, hat⟩ => ⟨hfilled, htrimmed, hunbroken, hat⟩,
      fun h => ⟨h.filled, h.trimmed, h.unbroken, h.noDirective⟩⟩

/-- What the selector of a query is. -/
structure IsSelector (selector : Text) : Prop where
  filled : selector ≠ []
  trimmed : selector.Trimmed
  unbroken : selector.Unbroken
  closed : selector.foldl Text.depthAfter 0 = 0

instance (selector : Text) : Decidable (IsSelector selector) :=
  decidable_of_iff (selector ≠ [] ∧ selector.Trimmed ∧ selector.Unbroken ∧
      selector.foldl Text.depthAfter 0 = 0)
    ⟨fun ⟨hfilled, htrimmed, hunbroken, hclosed⟩ => ⟨hfilled, htrimmed, hunbroken, hclosed⟩,
      fun h => ⟨h.filled, h.trimmed, h.unbroken, h.closed⟩⟩

/-- What trimming leaves of an unbroken text is unbroken, and leaves as many brackets open. -/
theorem unbroken_trim (before : Text) {t : Text} (hbefore : ∀ c ∈ before, c ∉ Text.brackets)
    (h : (before ++ t).Unbroken) : (Text.trim t).Unbroken ∧
      (Text.trim t).foldl Text.depthAfter 0 = (before ++ t).foldl Text.depthAfter 0 := by
  obtain ⟨front, back, ht, hfront, hback⟩ := Text.exists_trim t
  have hopens : (before ++ front).foldl Text.depthAfter 0 = 0 := by
    refine Text.foldl_depthAfter (fun c hc => ?_) 0
    rcases List.mem_append.mp hc with hc | hc
    · exact hbefore c hc
    · exact Text.not_mem_brackets (hfront c hc)
  have hwhole : before ++ t = before ++ front ++ Text.trim t ++ back := by
    rw [List.append_assoc before, List.append_assoc before, ← ht]
  rw [hwhole] at h ⊢
  refine ⟨h.part hopens, ?_⟩
  rw [List.foldl_append, List.foldl_append, hopens,
    Text.foldl_depthAfter fun c hc => Text.not_mem_brackets (hback c hc)]

theorem lineToken_of_head? {t : Text} (h : t.head? ≠ some '@') : lineToken t = .line t := by
  unfold lineToken
  split
  · exact absurd rfl h
  · rfl

theorem lineToken_directive (name : Text) (hname : ∀ d ∈ name, Text.isBlank d = false) {c : Char}
    (hc : Text.isBlank c) (value : Text) :
    lineToken ('@' :: (name ++ c :: value)) = .directive name (Text.trim value) := by
  have hsplit : Text.splitAtFirst? Text.isBlank (name ++ c :: value) = some (name, value) :=
    Text.splitAtFirst?_eq_some_iff.mpr ⟨c, hc, hname, rfl⟩
  simp only [lineToken, hsplit]

theorem head?_of_lineToken {t text : Text} (h : lineToken t = .line text) :
    t.head? ≠ some '@' := by
  intro hat
  obtain ⟨cs, rfl⟩ := List.head?_eq_some_iff.mp hat
  simp only [lineToken] at h
  split at h <;> cases h

/-- What is read as a line is a line of a body. -/
theorem Reads.isBodyLine {raw text rest : Text} (h : Reads raw (.line text) rest) :
    IsBodyLine text := by
  obtain ⟨hfilled, htext⟩ := h.shownBy
  generalize htoken : Token.line text = token at h
  cases h with
  | closing _ => cases htoken
  | bare _ => cases htoken
  | opening _ _ _ => cases htoken
  | line hline _ _ =>
    have hunbroken := unbroken_trim [] (by simp) (unbroken_iff.mpr hline.whole)
    have hhead := head?_of_lineToken htoken.symm
    rw [← htext] at hunbroken hhead
    exact ⟨hfilled, htext ▸ Text.trimmed_trim raw, hunbroken.1, hhead⟩

/-- The header of a block is unbroken and leaves no bracket open. -/
theorem Reads.unbroken_header {raw header rest : Text} (h : Reads raw (.opening header) rest) :
    header.Unbroken ∧ header.foldl Text.depthAfter 0 = 0 := by
  generalize htoken : Token.opening header = token at h
  cases h with
  | closing _ => cases htoken
  | bare _ =>
    cases htoken
    exact ⟨unbroken_iff.mpr rfl, rfl⟩
  | opening hline hends _ =>
    cases htoken
    have hunbroken := unbroken_trim [] (by simp) (unbroken_iff.mpr hline.whole)
    exact ⟨hunbroken.1, hunbroken.2.trans hends⟩
  | line _ _ _ =>
    unfold lineToken at htoken
    split at htoken
    · split at htoken <;> cases htoken
    · cases htoken

theorem IsBodyLine.isLine {line : Text} (h : IsBodyLine line) : IsLine line := by
  obtain ⟨c, cs, rfl⟩ := List.exists_cons_of_ne_nil h.filled
  exact ⟨by simp [h.trimmed.1 c rfl], unbroken_iff.mp h.unbroken⟩

theorem IsBodyLine.lineToken_trim {line : Text} (h : IsBodyLine line) :
    lineToken (Text.trim line) = .line line := by
  rw [Text.trim_of_trimmed h.trimmed, lineToken_of_head? h.noDirective]

end Source

open Source

theorem ClassBody.isSelector_of_selector {header raw selector : Text}
    (h : ClassBody.selector header raw = .ok selector) (hheader : header.Unbroken)
    (hdepth : header.foldl Text.depthAfter 0 = 0) : IsSelector selector := by
  unfold ClassBody.selector at h
  split at h
  · cases h
  rename_i rest hrest
  split at h
  · cases h
  rename_i hfilled
  cases h
  have hsome := (Option.filter_eq_some_iff.mp hrest).1
  obtain rfl := Text.dropStart?_eq_some_iff.mp hsome
  have hunbroken := unbroken_trim _ (Text.forall_of_all (by decide)) hheader
  exact ⟨hfilled, Text.trimmed_trim rest, hunbroken.1, hunbroken.2.trans hdepth⟩

/-! ## What a body is read from -/

namespace Source

/-- The lexemes of an item are among those of the source. -/
theorem exists_own_of_mem_items {ls : List Lexeme} {item : Item} (h : item ∈ items ls) :
    ∃ own, (∀ l ∈ own, l ∈ ls) ∧ item.MadeOf own := by
  obtain ⟨before, own, after, rfl, hown⟩ := madeOf_of_mem_items h
  exact ⟨own, fun l hl => List.mem_append_left _ (List.mem_append_right _ hl), hown⟩

theorem mem_of_linesOf {header : Text} {ls : List Lexeme} {lines : List Text}
    (h : linesOf header ls = .ok lines) : ∀ line ∈ lines, ∃ l ∈ ls, l.token = .line line := by
  induction ls generalizing lines with
  | nil =>
    cases h
    simp
  | cons l ls ih =>
    unfold linesOf at h
    split at h
    · rename_i text hl
      obtain ⟨more, hmore, rfl⟩ := map_eq_ok_iff.mp h
      intro line hline
      rcases List.mem_cons.mp hline with rfl | hline
      · exact ⟨l, List.mem_cons_self, hl⟩
      · obtain ⟨l', hl', htoken⟩ := ih hmore line hline
        exact ⟨l', List.mem_cons_of_mem _ hl', htoken⟩
    · cases h
    · cases h
    · cases h

end Source

namespace ClassBody

/-- The parts of the body are read from these lexemes. -/
structure ReadFrom (ls : List Lexeme) (b : ClassBody) : Prop where
  uses : b.uses ≠ [] → ∃ l ∈ ls, ∃ value, l.token = .directive "use" value ∧
    b.uses = Text.words Text.isBlank value ∧ b.uses.all Text.isName
  lines : ∀ line ∈ b.lines, ∃ l ∈ ls, l.token = .line line
  selectors : ∀ q ∈ b.queries, ∃ l ∈ ls, ∃ header, l.token = .opening header ∧
    selector header l.raw = .ok q.selector
  queryLines : ∀ q ∈ b.queries, ∀ line ∈ q.lines, ∃ l ∈ ls, l.token = .line line

theorem readFrom_add {ls : List Lexeme} {ending : Ending} {b b' : ClassBody} {item : Item}
    (hitem : item ∈ items ls) (hb : b.ReadFrom ls) (h : b.add ending item = .ok b') :
    b'.ReadFrom ls := by
  obtain ⟨own, hown, hmade⟩ := exists_own_of_mem_items hitem
  cases hmade with
  | @line l _ hl =>
    cases h
    refine ⟨hb.uses, fun line hline => ?_, hb.selectors, hb.queryLines⟩
    rcases List.mem_append.mp hline with hline | hline
    · exact hb.lines line hline
    · obtain rfl := List.mem_singleton.mp hline
      exact ⟨l, hown l List.mem_cons_self, hl⟩
  | @directive l name value hl =>
    simp only [add, addDirective] at h
    split at h
    · rename_i hname
      subst hname
      split at h
      · cases h
      split at h
      · rename_i huses
        cases h
        exact ⟨fun _ => ⟨l, hown l List.mem_cons_self, value, hl, rfl, huses.2⟩, hb.lines,
          hb.selectors, hb.queryLines⟩
      · cases h
    · cases h
  | stray _ => cases h
  | @block opening closing header inner hopening _ _ =>
    obtain ⟨selector, hselector, h⟩ := bind_eq_ok_iff.mp h
    obtain ⟨lines, hlines, h⟩ := bind_eq_ok_iff.mp h
    cases h
    refine ⟨hb.uses, hb.lines, fun q hq => ?_, fun q hq line hline => ?_⟩
    · rcases List.mem_append.mp hq with hq | hq
      · exact hb.selectors q hq
      · obtain rfl := List.mem_singleton.mp hq
        exact ⟨opening, hown _ List.mem_cons_self, header, hopening, hselector⟩
    · rcases List.mem_append.mp hq with hq | hq
      · exact hb.queryLines q hq line hline
      · obtain rfl := List.mem_singleton.mp hq
        obtain ⟨l, hl, htoken⟩ := mem_of_linesOf hlines line hline
        exact ⟨l, hown l (List.mem_cons_of_mem _ (List.mem_append_left _ hl)), htoken⟩
  | unclosed _ _ =>
    obtain ⟨selector, -, h⟩ := bind_eq_ok_iff.mp h
    obtain ⟨lines, -, h⟩ := bind_eq_ok_iff.mp h
    cases h

theorem readFrom_of_parse {body : Text} {b : ClassBody} (h : parse body = .ok b) :
    b.ReadFrom (lex body).lexemes := by
  obtain ⟨b', hrun, hfinish⟩ := bind_eq_ok_iff.mp h
  obtain ⟨rfl, -⟩ := finish_eq_ok_iff.mp hfinish
  have hempty : ReadFrom (lex body).lexemes {} := ⟨by simp, by simp, by simp, by simp⟩
  refine foldlM_history
    (P := fun done b => (∀ item ∈ done, item ∈ items (lex body).lexemes) →
      b.ReadFrom (lex body).lexemes)
    (fun done item b b' hb hitem hdone => ?_) _ [] (fun _ => hempty) hrun (fun _ h => h)
  exact readFrom_add (hdone item (by simp)) (hb fun i hi => hdone i (by simp [hi])) hitem

/-- What it takes for a body to be read as it is written. -/
structure Writable (b : ClassBody) : Prop where
  uses : ∀ name ∈ b.uses, Text.isName name
  lines : ∀ line ∈ b.lines, IsBodyLine line
  selectors : ∀ q ∈ b.queries, IsSelector q.selector
  queryLines : ∀ q ∈ b.queries, ∀ line ∈ q.lines, IsBodyLine line

instance (b : ClassBody) : Decidable b.Writable :=
  decidable_of_iff ((∀ name ∈ b.uses, Text.isName name) ∧ (∀ line ∈ b.lines, IsBodyLine line) ∧
      (∀ q ∈ b.queries, IsSelector q.selector) ∧ ∀ q ∈ b.queries, ∀ line ∈ q.lines, IsBodyLine line)
    ⟨fun ⟨huses, hlines, hselectors, hqueries⟩ => ⟨huses, hlines, hselectors, hqueries⟩,
      fun h => ⟨h.uses, h.lines, h.selectors, h.queryLines⟩⟩

/-- Every body that is read can be written. -/
theorem writable_of_parse {body : Text} {b : ClassBody} (h : parse body = .ok b) : b.Writable := by
  have hfrom := readFrom_of_parse h
  have hline : ∀ line, (∃ l ∈ (lex body).lexemes, l.token = .line line) → IsBodyLine line := by
    rintro line ⟨l, hl, htoken⟩
    obtain ⟨-, rest, hread⟩ := (leads_lex body).lexeme hl
    rw [htoken] at hread
    exact hread.isBodyLine
  refine ⟨fun name hname => ?_, fun line hmem => hline line (hfrom.lines line hmem),
    fun q hq => ?_, fun q hq line hmem => hline line (hfrom.queryLines q hq line hmem)⟩
  · obtain ⟨-, -, -, -, -, hnames⟩ := hfrom.uses (List.ne_nil_of_mem hname)
    exact List.all_eq_true.mp hnames name hname
  · obtain ⟨l, hl, header, htoken, hselector⟩ := hfrom.selectors q hq
    obtain ⟨-, rest, hread⟩ := (leads_lex body).lexeme hl
    rw [htoken] at hread
    exact isSelector_of_selector hselector hread.unbroken_header.1 hread.unbroken_header.2

end ClassBody

/-! ## Writing a body -/

theorem writtenLines_cons (line : Text) (lines : List Text) :
    writtenLines (line :: lines) = line ++ '\n' :: writtenLines lines := by
  simp [writtenLines]

theorem writtenLines_append (lines more : List Text) :
    writtenLines (lines ++ more) = writtenLines lines ++ writtenLines more :=
  List.flatMap_append

namespace Source

/-- The characters that a line may end at, and the brackets. -/
def marks : Text := ['\n', '\x7b', '\x7d', '/'] ++ Text.brackets

theorem spanLine_plain {t : Text} (h : ∀ c ∈ t, c ∉ marks) (depth : Nat) (rest : Text) :
    spanLine depth (t ++ rest) = (t ++ (spanLine depth rest).1, (spanLine depth rest).2) := by
  induction t with
  | nil => rfl
  | cons c cs ih =>
    have hc := h c List.mem_cons_self
    simp only [marks, List.mem_append, List.mem_cons, not_or] at hc
    obtain ⟨⟨hfeed, hopen, hclose, hslash, -⟩, hbracket⟩ := hc
    have hgoes : endsLine depth c (cs ++ rest) = false :=
      endsLine_eq_false_iff.mpr ⟨hfeed, fun _ => ⟨hopen, hclose, fun h => absurd h hslash⟩⟩
    have hdepth : Text.depthAfter depth c = depth :=
      Text.foldl_depthAfter (t := [c]) (by simpa using hbracket) depth
    rw [List.cons_append, spanLine, hgoes, hdepth, ih fun d hd => h d (List.mem_cons_of_mem _ hd)]
    rfl

theorem spanLine_append_self {depth : Nat} {a b : Text} (ha : spanLine depth a = (a, []))
    (hb : spanLine (a.foldl Text.depthAfter depth) b = (b, [])) (hstar : b.head? ≠ some '*') :
    spanLine depth (a ++ b) = (a ++ b, []) := by
  induction a generalizing depth with
  | nil => exact hb
  | cons c cs ih =>
    obtain ⟨hgoes, hcs⟩ := spanLine_cons_eq_self_iff.mp ha
    rw [List.cons_append]
    refine spanLine_cons_eq_self_iff.mpr ⟨?_, ih hcs hb⟩
    rw [endsLine_append _ _ _ hstar, hgoes]

theorem not_mem_marks {c : Char} (h : Text.isNameChar c) : c ∉ marks := by
  intro hc
  have hall : ∀ c ∈ marks, Text.isNameChar c = false := Text.forall_of_all (by decide)
  rw [hall c hc] at h
  cases h

theorem lex_alone {raw : Text} {token : Token} (h : Reads raw token []) :
    lex raw = { lexemes := [{ gap := [], raw, token }], ending := .clean [] } := by
  have hlex := lex_cons (l := { gap := [], raw, token }) spanTrivia_nil h
  rw [lex_of_clear_nil spanTrivia_nil, List.append_nil] at hlex
  exact hlex

theorem IsBodyLine.reads {line : Text} (h : IsBodyLine line) (rest : Text) :
    Reads line (.line line) ('\n' :: rest) := by
  rw [← h.lineToken_trim]
  exact .line h.isLine rfl (by simp)

theorem lex_line {line : Text} (h : IsBodyLine line) :
    lex line = { lexemes := [{ gap := [], raw := line, token := .line line }],
                 ending := .clean [] } :=
  lex_alone (h.reads []).alone

/-- Lines that are written one below the other are read as lines. -/
theorem lex_writtenLines {lines : List Text} (h : ∀ line ∈ lines, IsBodyLine line) {gap : Text}
    (hgap : IsGap gap) (rest : Text) :
    ∃ ls gap', lex (gap ++ (writtenLines lines ++ rest)) = ((lex rest).afterGap gap').prepend ls ∧
      ls.map Lexeme.token = lines.map Token.line := by
  induction lines generalizing gap with
  | nil => exact ⟨[], gap, lex_afterGap hgap rest, rfl⟩
  | cons line lines ih =>
    have hline := h line List.mem_cons_self
    obtain ⟨ls, gap', hlex, hls⟩ := ih (fun line hl => h line (List.mem_cons_of_mem _ hl))
      (isGap_newLine spanTrivia_nil)
    refine ⟨{ gap, raw := line, token := .line line } :: ls, gap', ?_, by simp [hls]⟩
    have happ : gap ++ (writtenLines (line :: lines) ++ rest) =
        Lexeme.source { gap, raw := line, token := .line line } ++
          '\n' :: (writtenLines lines ++ rest) := by
      simp [writtenLines_cons, Lexeme.source]
    rw [happ, lex_cons hgap (hline.reads _)]
    exact congrArg (Lexed.cons _) hlex

theorem linesOf_of_tokens {header : Text} {ls : List Lexeme} {lines : List Text}
    (h : ls.map Lexeme.token = lines.map Token.line) : linesOf header ls = .ok lines := by
  induction ls generalizing lines with
  | nil =>
    obtain rfl : lines = [] := by simpa using h
    rfl
  | cons l ls ih =>
    cases lines with
    | nil => cases h
    | cons line lines =>
      obtain ⟨hl, hls⟩ := List.cons.inj h
      rw [linesOf, hl]
      dsimp only
      rw [ih hls]
      rfl

theorem closes_of_tokens {ls : List Lexeme} {lines : List Text}
    (h : ls.map Lexeme.token = lines.map Token.line) : Closes 0 ls := by
  induction ls generalizing lines with
  | nil => exact .nil
  | cons l ls ih =>
    cases lines with
    | nil => cases h
    | cons line lines =>
      obtain ⟨hl, hls⟩ := List.cons.inj h
      exact .plain (by rw [hl]; rfl) (ih hls)

/-- Whole pieces that are written one below the other are grouped one by one. -/
theorem items_writtenLines {pieces : List Text} (h : ∀ piece ∈ pieces, (lex piece).Whole) :
    items (lex (writtenLines pieces)).lexemes =
        pieces.flatMap (fun piece => items (lex piece).lexemes) ∧
      ∃ gap, (lex (writtenLines pieces)).ending = .clean gap := by
  induction pieces with
  | nil =>
    have hlex : lex (writtenLines []) = { lexemes := [], ending := .clean [] } :=
      lex_of_clear_nil spanTrivia_nil
    rw [hlex]
    exact ⟨by rw [items]; rfl, [], rfl⟩
  | cons piece pieces ih =>
    obtain ⟨hcloses, gap, hgap⟩ := h piece List.mem_cons_self
    obtain ⟨hitems, gap', hgap'⟩ := ih fun p hp => h p (List.mem_cons_of_mem _ hp)
    obtain ⟨hboth, hending⟩ := items_newLine hgap hcloses hgap'
    rw [writtenLines_cons]
    refine ⟨?_, hending⟩
    rw [hboth, hitems, List.flatMap_cons]

/-- The header of a query is read as it is written. -/
theorem IsSelector.reads {selector : Text} (h : IsSelector selector) (rest : Text) :
    Reads ("@query " ++ selector ++ " \x7b") (.opening ("@query " ++ selector)) rest := by
  have hopens : ("@query " ++ selector : Text).head?.map Text.isBlank = some false := rfl
  have htrimmed : Text.Trimmed ("@query " ++ selector) := by
    refine ⟨fun c hc => ?_, fun c hc => h.trimmed.2 c ?_⟩
    · cases hc
      decide
    · rwa [List.getLast?_append_of_ne_nil _ h.filled] at hc
  have htrim : Text.trim ("@query " ++ selector ++ " ") = "@query " ++ selector := by
    rw [Text.trim_append hopens (Text.forall_of_all (by decide)), Text.trim_of_trimmed htrimmed]
  have hline : IsLine ("@query " ++ selector ++ " ") := by
    refine ⟨rfl, ?_⟩
    have hspan : spanLine 0 (selector ++ " ") = (selector ++ " ", []) :=
      spanLine_append_self (unbroken_iff.mp h.unbroken) (by rw [h.closed]; rfl) (by decide)
    rw [List.append_assoc, spanLine_plain (Text.forall_of_all (by decide)), hspan]
  have hends : ("@query " ++ selector ++ " " : Text).foldl Text.depthAfter 0 = 0 := by
    have hkeyword : ("@query " : Text).foldl Text.depthAfter 0 = 0 := by decide
    rw [List.foldl_append, List.foldl_append, hkeyword, h.closed]
    rfl
  have hreads := Reads.opening hline hends rest
  rw [htrim, List.append_assoc] at hreads
  exact hreads

end Source

namespace QueryBlock

/-- The block as it is written, without the line feed behind it. -/
def piece (q : QueryBlock) : Text :=
  "@query " ++ q.selector ++ " \x7b" ++ ('\n' :: (writtenLines q.lines ++ ['\x7d']))

theorem source_eq (q : QueryBlock) : q.source = q.piece ++ ['\n'] := by
  have hparts : ∀ a s o w : Text, a ++ s ++ (o ++ ['\n']) ++ w ++ ['\x7d', '\n'] =
      a ++ s ++ o ++ ('\n' :: (w ++ ['\x7d'])) ++ ['\n'] := by simp
  exact hparts _ _ " \x7b" _

/-- A written query is read as one block with its lines. -/
theorem lex_piece {q : QueryBlock} (hselector : IsSelector q.selector)
    (hlines : ∀ line ∈ q.lines, IsBodyLine line) :
    (lex q.piece).Whole ∧ ∃ raw inner gap,
      items (lex q.piece).lexemes = [.block ("@query " ++ q.selector) raw inner gap] ∧
        linesOf ("@query " ++ q.selector) inner = .ok q.lines := by
  obtain ⟨ls, gap, hlex, hls⟩ :=
    lex_writtenLines hlines (isGap_newLine spanTrivia_nil) ['\x7d']
  rw [lex_alone (.closing [])] at hlex
  let opening : Lexeme :=
    { gap := [], raw := "@query " ++ q.selector ++ " \x7b"
      token := .opening ("@query " ++ q.selector) }
  let closing : Lexeme := { gap := gap ++ [], raw := ['\x7d'], token := .closing }
  have hpiece : lex q.piece =
      { lexemes := opening :: (ls ++ [closing]), ending := .clean [] } := by
    have hopening := lex_cons (l := opening) spanTrivia_nil
      (hselector.reads ('\n' :: (writtenLines q.lines ++ ['\x7d'])))
    exact hopening.trans (congrArg (Lexed.cons opening) hlex)
  have hcloses : Closes 0 ls := closes_of_tokens hls
  have hsplit : splitBlock? 0 (ls ++ [closing]) = some (ls, closing, []) :=
    splitBlock?_eq_some_iff.mpr ⟨rfl, rfl, hcloses⟩
  rw [hpiece]
  refine ⟨⟨.opening rfl (hcloses.closing_append rfl .nil), [], rfl⟩, opening.raw, ls, closing.gap,
    ?_, linesOf_of_tokens hls⟩
  rw [items_block rfl hsplit, items]

end QueryBlock

namespace ClassBody

/-- The line that names the constants. -/
def useLine (uses : List Text) : Text := "@use " ++ Text.join " " uses

/-- What stands in the body as it is written, piece by piece. -/
def pieces (b : ClassBody) : List Text :=
  (if b.uses = [] then [] else [useLine b.uses]) ++ b.lines ++ b.queries.map QueryBlock.piece

theorem source_eq (b : ClassBody) : b.source = writtenLines b.pieces := by
  have huses : ("@use " ++ Text.join " " b.uses ++ "\n" : Text) = writtenLines [useLine b.uses] :=
    (List.append_nil (useLine b.uses ++ ['\n'])).symm
  have hqueries : b.queries.flatMap QueryBlock.source =
      writtenLines (b.queries.map QueryBlock.piece) := by
    rw [writtenLines, List.flatMap_map]
    exact congrArg b.queries.flatMap (funext QueryBlock.source_eq)
  unfold ClassBody.source pieces
  rw [hqueries, writtenLines_append, writtenLines_append]
  split
  · rfl
  · exact congrArg (· ++ writtenLines b.lines ++ _) huses

section Uses

variable {uses : List Text} (hne : uses ≠ []) (huses : ∀ name ∈ uses, Text.isName name)

include huses

theorem mem_join_uses {c : Char} (hc : c ∈ Text.join " " uses) : Text.isNameChar c ∨ c = ' ' := by
  induction uses with
  | nil => cases hc
  | cons name uses ih =>
    have hname : c ∈ name → Text.isNameChar c :=
      Text.isNameChar_of_mem (huses name List.mem_cons_self)
    cases uses with
    | nil =>
      rw [Text.join_singleton] at hc
      exact .inl (hname hc)
    | cons name' uses =>
      rw [Text.join_cons_cons, List.mem_append, List.mem_append] at hc
      rcases hc with (hc | hc) | hc
      · exact .inl (hname hc)
      · exact .inr (by simpa using hc)
      · exact ih (fun n hn => huses n (List.mem_cons_of_mem _ hn)) hc

include hne

theorem isNameChar_getLast?_join :
    ∃ c, (Text.join " " uses).getLast? = some c ∧ Text.isNameChar c := by
  induction uses with
  | nil => exact absurd rfl hne
  | cons name uses ih =>
    cases uses with
    | nil =>
      have hname := huses name List.mem_cons_self
      have hlast := List.getLast?_eq_some_getLast (Text.ne_nil_of_isName hname)
      rw [Text.join_singleton]
      exact ⟨_, hlast, Text.isNameChar_of_mem hname (List.mem_of_getLast? hlast)⟩
    | cons name' uses =>
      obtain ⟨c, hc, hchar⟩ := ih (by simp) fun n hn => huses n (List.mem_cons_of_mem _ hn)
      exact ⟨c, by rw [Text.join_cons_cons, List.getLast?_append, hc]; rfl, hchar⟩

/-- The line that names the constants is read as it is written. -/
theorem reads_useLine :
    Reads (useLine uses) (.directive "use" (Text.trim (Text.join " " uses))) [] := by
  have hkeyword : ∀ c ∈ ("@use " : Text), c ∉ marks := Text.forall_of_all (by decide)
  have hplain : ∀ c ∈ useLine uses, c ∉ marks := by
    intro c hc
    rcases List.mem_append.mp hc with hc | hc
    · exact hkeyword c hc
    · rcases mem_join_uses huses hc with hc | rfl
      · exact not_mem_marks hc
      · decide
  have hline : IsLine (useLine uses) := by
    refine ⟨rfl, ?_⟩
    have hspan := spanLine_plain hplain 0 []
    simpa [spanLine] using hspan
  have htrimmed : Text.Trimmed (useLine uses) := by
    refine ⟨fun c hc => ?_, fun c hc => ?_⟩
    · cases hc
      decide
    · obtain ⟨d, hd, hchar⟩ := isNameChar_getLast?_join hne huses
      have hlast : (useLine uses).getLast? = some d :=
        List.getLast?_append.trans (congrArg (Option.or · _) hd)
      cases hlast.symm.trans hc
      exact Text.isBlank_of_isNameChar hchar
  have htoken : lineToken (useLine uses) = .directive "use" (Text.trim (Text.join " " uses)) :=
    lineToken_directive "use" (Text.forall_of_all (by decide)) (by decide : Text.isBlank ' ')
      (Text.join " " uses)
  have hreads : Reads (useLine uses) (lineToken (Text.trim (useLine uses))) [] :=
    .line hline rfl (by simp)
  rwa [Text.trim_of_trimmed htrimmed, htoken] at hreads

theorem lex_useLine :
    (lex (useLine uses)).Whole ∧ ∃ value raw,
      items (lex (useLine uses)).lexemes = [.directive "use" value raw] ∧
        Text.words Text.isBlank value = uses := by
  rw [lex_alone (reads_useLine hne huses)]
  refine ⟨⟨.plain rfl .nil, [], rfl⟩, _, _, (items_directive rfl).trans (by rw [items]), ?_⟩
  rw [Text.words_trim]
  refine Text.words_join (fun name hname => Text.ne_nil_of_isName (huses name hname)) ?_
  intro name hname c hc
  exact Text.isBlank_of_isNameChar (Text.isNameChar_of_mem (huses name hname) hc)

end Uses

/-! ### Reading it back -/

theorem foldlM_addLine (ending : Ending) (lines : List Text) (b : ClassBody) :
    (lines.map Item.line).foldlM (ClassBody.add ending) b =
      .ok { b with lines := b.lines ++ lines } := by
  induction lines generalizing b with
  | nil => simp; rfl
  | cons line lines ih =>
    rw [List.map_cons, List.foldlM_cons]
    refine bind_eq_ok_iff.mpr ⟨_, rfl, ?_⟩
    rw [ih]
    simp

theorem foldlM_items_piece {q : QueryBlock} (hselector : IsSelector q.selector)
    (hlines : ∀ line ∈ q.lines, IsBodyLine line) (ending : Ending) (b : ClassBody) :
    (items (lex q.piece).lexemes).foldlM (ClassBody.add ending) b =
      .ok { b with queries := b.queries ++ [q] } := by
  obtain ⟨-, raw, inner, gap, hitems, hinner⟩ := QueryBlock.lex_piece hselector hlines
  have hkeyword : dropKeyword? "@query" ("@query " ++ q.selector) = some (' ' :: q.selector) := by
    have hblank : Text.isBlank ' ' := by decide
    exact Option.filter_eq_some_iff.mpr ⟨Text.dropStart?_eq_some_iff.mpr rfl, by simp [hblank]⟩
  have htrim : Text.trim (' ' :: q.selector) = q.selector := Text.trim_of_trimmed hselector.trimmed
  have hselector' : selector ("@query " ++ q.selector) raw = .ok q.selector := by
    rw [selector, hkeyword]
    dsimp only
    rw [htrim, if_neg hselector.filled]
  rw [hitems, List.foldlM_cons]
  refine bind_eq_ok_iff.mpr ⟨_, ?_, rfl⟩
  exact bind_eq_ok_iff.mpr ⟨_, hselector', bind_eq_ok_iff.mpr ⟨_, hinner, rfl⟩⟩

theorem foldlM_items_pieces {queries : List QueryBlock}
    (hselectors : ∀ q ∈ queries, IsSelector q.selector)
    (hlines : ∀ q ∈ queries, ∀ line ∈ q.lines, IsBodyLine line) (ending : Ending) (b : ClassBody) :
    ((queries.map QueryBlock.piece).flatMap fun piece => items (lex piece).lexemes).foldlM
      (ClassBody.add ending) b = .ok { b with queries := b.queries ++ queries } := by
  induction queries generalizing b with
  | nil => simp; rfl
  | cons q queries ih =>
    rw [List.map_cons, List.flatMap_cons, List.foldlM_append]
    refine bind_eq_ok_iff.mpr ⟨_, foldlM_items_piece (hselectors q List.mem_cons_self)
      (hlines q List.mem_cons_self) ending b, ?_⟩
    rw [ih (fun p hp => hselectors p (List.mem_cons_of_mem _ hp))
      fun p hp => hlines p (List.mem_cons_of_mem _ hp)]
    simp

theorem foldlM_items_useLine {uses : List Text} (huses : ∀ name ∈ uses, Text.isName name)
    (ending : Ending) :
    ((if uses = [] then [] else [useLine uses]).flatMap fun piece =>
      items (lex piece).lexemes).foldlM (ClassBody.add ending) {} = .ok { uses } := by
  split
  · rename_i hnil
    rw [hnil]
    rfl
  · rename_i hne
    obtain ⟨-, value, raw, hitems, hwords⟩ := lex_useLine hne huses
    rw [List.flatMap_singleton, hitems, List.foldlM_cons]
    refine bind_eq_ok_iff.mpr ⟨{ uses }, ?_, rfl⟩
    have hnames : uses.all Text.isName := List.all_eq_true.mpr huses
    simp only [add, addDirective, hwords]
    rw [if_pos trivial, if_neg (by simp), if_pos ⟨hne, hnames⟩]

theorem whole_of_mem_pieces {b : ClassBody} (h : b.Writable) : ∀ piece ∈ b.pieces,
    (lex piece).Whole := by
  intro piece hpiece
  simp only [pieces, List.mem_append, List.mem_map] at hpiece
  rcases hpiece with (huse | hline) | ⟨q, hq, rfl⟩
  · split at huse
    · cases huse
    · rename_i hne
      obtain rfl := List.mem_singleton.mp huse
      exact (lex_useLine hne h.uses).1
  · rw [lex_line (h.lines piece hline)]
    exact ⟨.plain rfl .nil, [], rfl⟩
  · exact (QueryBlock.lex_piece (h.selectors q hq) (h.queryLines q hq)).1

/-- A body that can be written is read as it is written. -/
theorem parse_source {b : ClassBody} (h : b.Writable) : parse b.source = .ok b := by
  obtain ⟨hitems, gap, hending⟩ := items_writtenLines (whole_of_mem_pieces h)
  have hlines : b.lines.flatMap (fun piece => items (lex piece).lexemes) =
      b.lines.map Item.line := by
    rw [List.map_eq_flatMap]
    refine List.flatMap_congr fun line hline => ?_
    rw [lex_line (h.lines line hline), items_line rfl, items]
  unfold parse
  rw [source_eq]
  refine bind_eq_ok_iff.mpr ⟨b, ?_, finish_eq_ok_iff.mpr ⟨rfl, gap, hending⟩⟩
  rw [hitems, pieces, List.flatMap_append, List.flatMap_append, hlines, List.foldlM_append,
    List.foldlM_append]
  refine bind_eq_ok_iff.mpr ⟨{ b with queries := [] }, ?_, ?_⟩
  · refine bind_eq_ok_iff.mpr ⟨{ uses := b.uses }, foldlM_items_useLine h.uses _, ?_⟩
    exact foldlM_addLine _ _ _
  · exact foldlM_items_pieces h.selectors h.queryLines _ _

/-! ## The round trip -/

/-- Bodies can be read, written and read again. Whatever is read of a text is a body that can be
written, and a body that can be written is read from there as it is. So the bodies that can be
read at all are exactly those whose constants are names and whose lines and selectors are as they
should be. -/
theorem bodies_are_read_as_they_are_written (b : ClassBody) :
    (∀ t, parse t = .ok b → parse b.source = .ok b) ∧
      (b.Writable → parse b.source = .ok b) ∧ ∀ t, parse t = .ok b → b.Writable :=
  ⟨fun _ h => parse_source (writable_of_parse h), parse_source, fun _ => writable_of_parse⟩

/-- A wide blank stands between the constants, two lines leave a bracket open, a comment ends a
line, and the selector holds a brace in its brackets. -/
theorem bodies_are_read_as_they_are_written_with_open_brackets :
    let t : Text := "/**/ @use base\u3000wide\r\nw[calc(1px\n c[red]/* ] */\n" ++
      "@query  > a[x='\x7b'] \x7b c[blue\n\x7d"
    let b : ClassBody := {
      uses := ["base", "wide"]
      lines := ["w[calc(1px", "c[red]"]
      queries := [{ selector := "> a[x='\x7b']", lines := ["c[blue"] }] }
    (parse t = .ok b ∧ b.Writable ∧ t ≠ b.source) ∧ parse b.source = .ok b := by
  intro t b
  have ht : parse t = .ok b := by decide +kernel
  exact ⟨⟨ht, (bodies_are_read_as_they_are_written b).2.2 t ht, by decide +kernel⟩,
    (bodies_are_read_as_they_are_written b).2.1 (by decide +kernel)⟩

end ClassBody

end TerseCss
