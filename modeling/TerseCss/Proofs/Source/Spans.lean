-- Reading loses nothing. The spans of the tokens lie in the source one behind the other, and what
-- stands before, between and behind them are blanks and comments. A token is told by the text of
-- its span alone, whatever stands around it.
import Mathlib.Data.List.Forall2
import TerseCss.Proofs.Source.Reading
import TerseCss.Proofs.Texts

namespace TerseCss.Source

/-! ## Blanks and comments -/

/-- The text is made of blanks and of comments with their ends. -/
inductive IsTrivia : Text → Prop
  | nil : IsTrivia []
  | blank {c : Char} {t : Text} (hc : Text.isBlank c) (ht : IsTrivia t) : IsTrivia (c :: t)
  | comment {body t : Text} (hbody : ¬("*/" : Text) <:+: body) (ht : IsTrivia t) :
      IsTrivia ("/*" ++ body ++ "*/" ++ t)

/-- The text is a comment without an end. -/
def IsUnterminated (t : Text) : Prop := ∃ body : Text, t = "/*" ++ body ∧ ¬("*/" : Text) <:+: body

theorem not_ends_cons {c : Char} {cs : Text} (hc : ∀ rest, c = '*' → cs = '/' :: rest → False)
    (hcs : ¬("*/" : Text) <:+: cs) : ¬("*/" : Text) <:+: c :: cs := by
  rw [List.infix_cons_iff]
  rintro (⟨rest, hrest⟩ | h)
  · obtain ⟨rfl, hcs'⟩ := List.cons.inj hrest
    exact hc rest rfl hcs'.symm
  · exact hcs h

theorem splitComment?_none {t : Text} (h : splitComment? t = none) : ¬("*/" : Text) <:+: t := by
  fun_induction splitComment? t with
  | case1 => simp
  | case2 rest => cases h
  | case3 c cs hc ih => exact not_ends_cons hc (ih (Option.map_eq_none_iff.mp h))

/-- A comment goes up to the first end that it has. -/
theorem splitComment?_some {t body rest : Text} (h : splitComment? t = some (body, rest)) :
    ∃ inner : Text, body = inner ++ "*/" ∧ ¬("*/" : Text) <:+: inner := by
  fun_induction splitComment? t generalizing body with
  | case1 => cases h
  | case2 rest =>
    cases h
    exact ⟨[], rfl, by simp⟩
  | case3 c cs hc ih =>
    obtain ⟨⟨body', rest'⟩, hsplit, he⟩ := Option.map_eq_some_iff.mp h
    cases he
    obtain ⟨inner, rfl, hinner⟩ := ih hsplit
    refine ⟨c :: inner, rfl, not_ends_cons ?_ hinner⟩
    -- What follows `c` in the comment follows it in the text.
    rintro more rfl rfl
    exact hc _ rfl (append_of_splitComment? hsplit).symm

theorem isTrivia_of_clear {t gap rest : Text} (h : spanTrivia t = .clear gap rest) :
    IsTrivia gap := by
  fun_induction spanTrivia t generalizing gap with
  | case1 =>
    cases h
    exact .nil
  | case2 cs body rest' hsplit ih =>
    obtain ⟨g, hg, rfl⟩ := Trivia.prepend_eq_clear_iff.mp h
    obtain ⟨inner, rfl, hinner⟩ := splitComment?_some hsplit
    simpa using IsTrivia.comment hinner (ih hg)
  | case3 => cases h
  | case4 c cs _ hblank ih =>
    obtain ⟨g, hg, rfl⟩ := Trivia.prepend_eq_clear_iff.mp h
    exact .blank hblank (ih hg)
  | case5 =>
    cases h
    exact .nil

theorem isTrivia_of_unterminated {t gap comment : Text}
    (h : spanTrivia t = .unterminated gap comment) : IsTrivia gap ∧ IsUnterminated comment := by
  fun_induction spanTrivia t generalizing gap with
  | case1 => cases h
  | case2 cs body rest hsplit ih =>
    cases hrest : spanTrivia rest with
    | clear g r => simp [hrest, Trivia.prepend] at h
    | unterminated g c =>
      rw [hrest] at h
      cases h
      obtain ⟨hgap, hcomment⟩ := ih hrest
      obtain ⟨inner, rfl, hinner⟩ := splitComment?_some hsplit
      exact ⟨by simpa using IsTrivia.comment hinner hgap, hcomment⟩
  | case3 cs hsplit =>
    cases h
    exact ⟨.nil, cs, rfl, splitComment?_none hsplit⟩
  | case4 c cs _ hblank ih =>
    cases hrest : spanTrivia cs with
    | clear g r => simp [hrest, Trivia.prepend] at h
    | unterminated g c =>
      rw [hrest] at h
      cases h
      obtain ⟨hgap, hcomment⟩ := ih hrest
      exact ⟨.blank hblank hgap, hcomment⟩
  | case5 => cases h

/-! ## Tokens and their texts -/

/-- What the text of a token has to do with it. -/
def Token.ShownBy (raw : Text) : Token → Prop
  | .closing => raw = "\x7d"
  | .opening header => ∃ line : Text, raw = line ++ "\x7b" ∧ header = Text.trim line
  | .line text => text ≠ [] ∧ text = Text.trim raw
  | .directive name value =>
    (∀ c ∈ name, Text.isBlank c = false) ∧
      ((value = [] ∧ Text.trim raw = '@' :: name) ∨
        (value ≠ [] ∧ value.Trimmed ∧ ∃ gap : Text, gap ≠ [] ∧ (∀ c ∈ gap, Text.isBlank c) ∧
          Text.trim raw = '@' :: name ++ gap ++ value))

/-- The value of a directive ends where its line does. -/
theorem exists_value {raw rest : Text} {c : Char} (hc : Text.isBlank c) (front : Text)
    (h : Text.trim raw = front ++ c :: rest) :
    Text.trim rest ≠ [] ∧ ∃ gap : Text, gap ≠ [] ∧ (∀ d ∈ gap, Text.isBlank d) ∧
      c :: rest = gap ++ Text.trim rest := by
  have hlast : ∀ d, (c :: rest).getLast? = some d → Text.isBlank d = false := by
    intro d hd
    refine (Text.trimmed_trim raw).2 d ?_
    rw [h, List.getLast?_append, hd]
    rfl
  -- A text of blanks cannot stand at the end.
  have hend : ∀ before gap : Text, c :: rest = before ++ gap → (∀ d ∈ gap, Text.isBlank d) →
      gap = [] := by
    intro before gap hgap hblank
    by_contra hne
    have hd := List.getLast_mem hne
    have hnot := hlast (gap.getLast hne) (by
      rw [hgap, List.getLast?_append, List.getLast?_eq_some_getLast hne]
      rfl)
    rw [hblank _ hd] at hnot
    cases hnot
  obtain ⟨gap, back, hrest, hgap, hback⟩ := Text.exists_trim rest
  have hnil : back = [] := hend (c :: gap ++ Text.trim rest) back (by simp [← hrest]) hback
  rw [hnil, List.append_nil] at hrest
  have hblank : ∀ d ∈ c :: gap, Text.isBlank d := by
    intro d hd
    rcases List.mem_cons.mp hd with rfl | hd
    · exact hc
    · exact hgap d hd
  refine ⟨?_, c :: gap, List.cons_ne_nil _ _, hblank, by rw [List.cons_append, ← hrest]⟩
  intro htrim
  have hall := hend [] (c :: rest) rfl (by
    rw [hrest, htrim, List.append_nil]
    exact hblank)
  cases hall

theorem shownBy_lineToken {raw : Text} (h : Text.trim raw ≠ []) :
    (lineToken (Text.trim raw)).ShownBy raw := by
  unfold lineToken
  split
  · rename_i directive hraw
    split
    · rename_i name rest hsplit
      obtain ⟨c, hc, hname, rfl⟩ := Text.splitAtFirst?_eq_some_iff.mp hsplit
      obtain ⟨hvalue, gap, hne, hgap, hrest⟩ := exists_value hc ('@' :: name) hraw
      refine ⟨hname, Or.inr ⟨hvalue, Text.trimmed_trim rest, gap, hne, hgap, ?_⟩⟩
      rw [hraw, hrest]
      simp
    · rename_i hsplit
      exact ⟨Text.splitAtFirst?_eq_none_iff.mp hsplit, Or.inl ⟨rfl, hraw⟩⟩
  · exact ⟨h, rfl⟩

theorem trim_ne_nil_of_isLine {line : Text} (h : IsLine line) : Text.trim line ≠ [] := by
  intro htrim
  obtain ⟨front, back, hline, hfront, hback⟩ := Text.exists_trim line
  obtain ⟨hopens, -⟩ := h
  rw [htrim, List.append_nil] at hline
  cases line with
  | nil => cases hopens
  | cons c cs =>
    have hc : c ∈ front ++ back := hline ▸ List.mem_cons_self
    have hblank : Text.isBlank c := (List.mem_append.mp hc).elim (hfront c) (hback c)
    simp [hblank] at hopens

theorem Reads.shownBy {raw rest : Text} {token : Token} (h : Reads raw token rest) :
    token.ShownBy raw := by
  cases h with
  | closing _ => rfl
  | bare _ => exact ⟨[], rfl, rfl⟩
  | @opening line _ _ _ => exact ⟨line, rfl, rfl⟩
  | line hline _ _ => exact shownBy_lineToken (trim_ne_nil_of_isLine hline)

theorem Reads.ne_nil {raw rest : Text} {token : Token} (h : Reads raw token rest) : raw ≠ [] := by
  cases h with
  | closing _ => simp
  | bare _ => simp
  | opening _ _ _ => simp
  | line hline _ _ =>
    rintro rfl
    cases hline.opens

/-- A token can be read from its own text. -/
theorem Reads.alone {raw rest : Text} {token : Token} (h : Reads raw token rest) :
    Reads raw token [] := by
  cases h with
  | closing _ => exact .closing []
  | bare _ => exact .bare []
  | opening hline hends _ => exact .opening hline hends []
  | line hline _ _ => exact .line hline rfl (by simp)

theorem Reads.token_eq {raw rest rest' : Text} {token token' : Token} (h : Reads raw token rest)
    (h' : Reads raw token' rest') : token = token' := by
  obtain ⟨c, cs, happ, -, hread⟩ := readToken_of_reads h.alone
  obtain ⟨c', cs', happ', -, hread'⟩ := readToken_of_reads h'.alone
  cases happ.symm.trans happ'
  cases hread.symm.trans hread'
  rfl

/-! ## Spans -/

theorem byteSize_pos {t : Text} (h : t ≠ []) : 0 < Text.byteSize t := by
  obtain ⟨c, cs, rfl⟩ := List.exists_cons_of_ne_nil h
  have hc := c.utf8Size_pos
  change 0 < c.utf8Size + Text.byteSize cs
  omega

/-- The span lies within the text, between characters of it, and `part` is what stands there. -/
def Span.Marks (s : Span) (t part : Text) : Prop :=
  ∃ before after : Text, t = before ++ part ++ after ∧ s.start = Text.byteSize before ∧
    s.stop = Text.byteSize (before ++ part)

theorem Span.Marks.start_lt_stop {s : Span} {t part : Text} (h : s.Marks t part)
    (hpart : part ≠ []) : s.start < s.stop := by
  obtain ⟨before, after, -, hstart, hstop⟩ := h
  have hpos := byteSize_pos hpart
  rw [Text.byteSize_append] at hstop
  omega

/-- The span begins and ends before the other. -/
def Span.Before (a b : Span) : Prop := a.start < b.start ∧ a.stop ≤ b.start

/-- The stretches that lie before the spans, from the byte `start` on. -/
def stretchesFrom (start : Nat) : List Span → List Span
  | [] => []
  | s :: ss => { start, stop := s.start } :: stretchesFrom s.stop ss

/-- Where the last span stops. -/
def lastStop (start : Nat) : List Span → Nat
  | [] => start
  | s :: ss => lastStop s.stop ss

theorem start_le_of_mem_spansFrom {start : Nat} {ls : List Lexeme} {s : Span}
    (h : s ∈ spansFrom start ls) : start ≤ s.start := by
  induction ls generalizing start with
  | nil => cases h
  | cons l ls ih =>
    rcases List.mem_cons.mp h with rfl | h
    · exact Nat.le_add_right _ _
    · have hle := ih h
      omega

theorem before_spansFrom {ls : List Lexeme} (hraw : ∀ l ∈ ls, l.raw ≠ []) (start : Nat) :
    (spansFrom start ls).Pairwise Span.Before := by
  induction ls generalizing start with
  | nil => exact .nil
  | cons l ls ih =>
    refine .cons ?_ (ih (fun l hl => hraw l (List.mem_cons_of_mem _ hl)) _)
    intro s hs
    have hle := start_le_of_mem_spansFrom hs
    have hpos := byteSize_pos (hraw l List.mem_cons_self)
    exact ⟨Nat.lt_of_lt_of_le (by simpa using hpos) hle, hle⟩

theorem spansFrom_cons (before : Text) (l : Lexeme) (ls : List Lexeme) :
    spansFrom (Text.byteSize before) (l :: ls) =
      { start := Text.byteSize (before ++ l.gap)
        stop := Text.byteSize (before ++ l.gap ++ l.raw) } ::
        spansFrom (Text.byteSize (before ++ l.gap ++ l.raw)) ls := by
  simp only [spansFrom, Text.byteSize_append]

theorem source_behind {t before after : Text} {l : Lexeme} {ls : List Lexeme}
    (h : t = before ++ (sourceOf (l :: ls) ++ after)) :
    t = before ++ l.gap ++ l.raw ++ (sourceOf ls ++ after) := by
  simpa [sourceOf, Lexeme.source] using h

section Marks

variable {t before after : Text} {ls : List Lexeme} (h : t = before ++ (sourceOf ls ++ after))

include h

theorem marks_spansFrom :
    List.Forall₂ (fun s l => s.Marks t l.raw) (spansFrom (Text.byteSize before) ls) ls := by
  induction ls generalizing before with
  | nil => exact .nil
  | cons l ls ih =>
    have hnext := source_behind h
    rw [spansFrom_cons]
    exact .cons ⟨before ++ l.gap, sourceOf ls ++ after, hnext, rfl, rfl⟩ (ih hnext)

theorem marks_stretchesFrom {stretch : Span}
    (hs : stretch ∈ stretchesFrom (Text.byteSize before) (spansFrom (Text.byteSize before) ls)) :
    ∃ l ∈ ls, stretch.Marks t l.gap := by
  induction ls generalizing before with
  | nil => cases hs
  | cons l ls ih =>
    have hnext := source_behind h
    rw [spansFrom_cons] at hs
    rcases List.mem_cons.mp hs with rfl | hs
    · refine ⟨l, List.mem_cons_self, before, l.raw ++ (sourceOf ls ++ after), ?_, rfl, rfl⟩
      rw [hnext, List.append_assoc]
    · obtain ⟨l', hl', hmarks⟩ := ih hnext hs
      exact ⟨l', List.mem_cons_of_mem _ hl', hmarks⟩

theorem marks_lastStop :
    Span.Marks { start := lastStop (Text.byteSize before) (spansFrom (Text.byteSize before) ls)
                 stop := Text.byteSize t } t after := by
  induction ls generalizing before with
  | nil =>
    have ht : t = before ++ after := h
    exact ⟨before, [], by rw [ht, List.append_nil], rfl, by rw [ht]⟩
  | cons l ls ih =>
    rw [spansFrom_cons]
    exact ih (source_behind h)

end Marks

/-! ## Sources -/

/-- The text behind the last token is what the ending says: blanks and comments, and if it is an
error, then a comment without an end. -/
def Ending.Leaves (ending : Ending) (tail : Text) : Prop :=
  match ending.error? with
  | none => IsTrivia tail
  | some e => ∃ gap comment, tail = gap ++ comment ∧ IsTrivia gap ∧ IsUnterminated comment ∧
      e = .malformed .unterminatedComment (firstLine comment)

theorem leaves_lex (t : Text) : (lex t).ending.Leaves (lex t).ending.source := by
  fun_induction lex t with
  | case1 t gap comment h =>
    obtain ⟨hgap, hcomment⟩ := isTrivia_of_unterminated h
    exact ⟨gap, comment, rfl, hgap, hcomment, rfl⟩
  | case2 t gap h => exact isTrivia_of_clear h
  | case3 _ _ _ _ _ _ ih => exact ih

/-- Every token has its span in the source, and the spans follow each other. Blanks and comments are
all that stands before, between and behind them, save that a comment without an end may come last.
A token is what the text of its span shows, so that the same text is the same token everywhere. -/
theorem reading_loses_nothing (t : Text) :
    List.Forall₂ (fun s l => s.start < s.stop ∧ s.Marks t l.raw ∧ l.token.ShownBy l.raw)
        (lex t).spans (lex t).lexemes ∧
      (lex t).spans.Pairwise Span.Before ∧
      (∀ stretch ∈ stretchesFrom 0 (lex t).spans, ∃ gap, stretch.Marks t gap ∧ IsTrivia gap) ∧
      (∃ tail, Span.Marks ⟨lastStop 0 (lex t).spans, Text.byteSize t⟩ t tail ∧
        (lex t).ending.Leaves tail) ∧
      ∀ u, ∀ l ∈ (lex t).lexemes, ∀ l' ∈ (lex u).lexemes, l.raw = l'.raw → l.token = l'.token := by
  have hlexeme := fun t l (hl : l ∈ (lex t).lexemes) => (leads_lex t).lexeme hl
  have hsource : t = [] ++ (sourceOf (lex t).lexemes ++ (lex t).ending.source) :=
    (source_lex t).symm
  have hraw : ∀ l ∈ (lex t).lexemes, l.raw ≠ [] := by
    intro l hl
    obtain ⟨-, rest, hread⟩ := hlexeme t l hl
    exact hread.ne_nil
  refine ⟨?_, before_spansFrom hraw 0, ?_, ⟨_, marks_lastStop hsource, leaves_lex t⟩, ?_⟩
  · refine List.forall₂_iff_zip.mpr ⟨(marks_spansFrom hsource).length_eq, fun {s l} hsl => ?_⟩
    have hmarks : s.Marks t l.raw := (List.forall₂_iff_zip.mp (marks_spansFrom hsource)).2 hsl
    obtain ⟨-, rest, hread⟩ := hlexeme t l (List.of_mem_zip hsl).2
    exact ⟨hmarks.start_lt_stop hread.ne_nil, hmarks, hread.shownBy⟩
  · intro stretch hstretch
    obtain ⟨l, hl, hmarks⟩ := marks_stretchesFrom hsource hstretch
    exact ⟨l.gap, hmarks, isTrivia_of_clear (hlexeme t l hl).1⟩
  · intro u l hl l' hl' heq
    obtain ⟨-, rest, hread⟩ := hlexeme t l hl
    obtain ⟨-, rest', hread'⟩ := hlexeme u l' hl'
    rw [← heq] at hread'
    exact hread.token_eq hread'

/-- The first token leaves a bracket open and ends in a brace, another brace stands in the comment
before the block, and the last comment has no end. -/
theorem reading_loses_nothing_before_an_open_comment :
    let t : Text := "ä[\x7b\n@use  k /* \x7d */ .x \x7b\x7d/*"
    let use : Lexeme := { gap := "\n", raw := "@use  k ", token := .directive "use" "k" }
    ((lex t).spans = [⟨0, 4⟩, ⟨5, 13⟩, ⟨21, 25⟩, ⟨25, 26⟩] ∧ use ∈ (lex t).lexemes) ∧
      (lex t).spans.Pairwise Span.Before ∧
      (∃ gap, Span.Marks ⟨13, 21⟩ t gap ∧ IsTrivia gap) ∧
      (∃ tail, Span.Marks ⟨26, 28⟩ t tail ∧ (lex t).ending.Leaves tail) ∧
      ∀ u, ∀ l ∈ (lex u).lexemes, "@use  k " = l.raw → .directive "use" "k" = l.token := by
  intro t use
  have hspans : (lex t).spans = [⟨0, 4⟩, ⟨5, 13⟩, ⟨21, 25⟩, ⟨25, 26⟩] := by decide +kernel
  have huse : use ∈ (lex t).lexemes := by decide +kernel
  have hsize : Text.byteSize t = 28 := by decide
  obtain ⟨-, hbefore, hgaps, htail, htoken⟩ := reading_loses_nothing t
  rw [hspans] at hgaps htail
  rw [hsize] at htail
  exact ⟨⟨hspans, huse⟩, hbefore, hgaps ⟨13, 21⟩ (by decide), htail, fun u => htoken u use huse⟩

end TerseCss.Source
