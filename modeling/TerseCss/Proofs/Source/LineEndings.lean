-- Line endings. A source with a carriage return before each line feed is read as the same tokens. A
-- token never goes on behind a line feed, so a return stands at the end of a line, where it is
-- trimmed, or between tokens. The bodies of blocks are those of the source, with the returns in
-- them.
import Mathlib.Data.List.Forall2
import TerseCss.ClassBody
import TerseCss.ConstBody
import TerseCss.Proofs.Outcome
import TerseCss.Proofs.Source.Blocks
import TerseCss.Proofs.Texts
import TerseCss.Template

namespace TerseCss

/-! ## Texts with returns -/

namespace Text

/-- The text with a carriage return before each line feed. -/
def withReturns (t : Text) : Text := t.flatMap fun c => if c = '\n' then ['\r', '\n'] else [c]

@[simp]
theorem withReturns_nil : withReturns [] = [] := rfl

@[simp]
theorem withReturns_append (a b : Text) : withReturns (a ++ b) = withReturns a ++ withReturns b :=
  List.flatMap_append

@[simp]
theorem withReturns_feed (t : Text) : withReturns ('\n' :: t) = '\r' :: '\n' :: withReturns t := rfl

theorem withReturns_cons {c : Char} (hc : c ≠ '\n') (t : Text) :
    withReturns (c :: t) = c :: withReturns t := by
  simp [withReturns, hc]

theorem withReturns_of_not_mem {t : Text} (h : '\n' ∉ t) : withReturns t = t := by
  induction t with
  | nil => rfl
  | cons c t ih =>
    have hc : c ≠ '\n' := fun hc => h (hc ▸ List.mem_cons_self)
    rw [withReturns_cons hc, ih fun ht => h (List.mem_cons_of_mem _ ht)]

/-- What begins with anything but a return began with it before. -/
theorem head?_withReturns {c : Char} (hreturn : c ≠ '\r') (hfeed : c ≠ '\n') (t : Text) :
    (withReturns t).head? = some c ↔ t.head? = some c := by
  cases t with
  | nil => simp
  | cons d t =>
    by_cases hd : d = '\n'
    · subst hd
      simp [hreturn.symm, hfeed.symm]
    · rw [withReturns_cons hd]
      rfl

end Text

open Text (withReturns withReturns_feed withReturns_cons withReturns_of_not_mem head?_withReturns)

namespace Source

/-! ## Blanks and comments -/

theorem splitComment?_withReturns (t : Text) :
    splitComment? (withReturns t) =
      (splitComment? t).map fun r => (withReturns r.1, withReturns r.2) := by
  fun_induction splitComment? t with
  | case1 => rfl
  | case2 rest =>
    rw [withReturns_cons (by decide), withReturns_cons (by decide)]
    rfl
  | case3 c cs hc ih =>
    by_cases hfeed : c = '\n'
    · subst hfeed
      rw [withReturns_feed, splitComment?_cons (by simp), splitComment?_cons (by simp), ih]
      cases splitComment? cs <;> simp
    · have hopen : ¬(c = '*' ∧ (withReturns cs).head? = some '/') := by
        rw [head?_withReturns (by decide) (by decide)]
        rintro ⟨rfl, hslash⟩
        obtain ⟨rest, rfl⟩ := List.head?_eq_some_iff.mp hslash
        exact hc rest rfl rfl
      rw [withReturns_cons hfeed, splitComment?_cons hopen, ih]
      cases splitComment? cs <;> simp [withReturns_cons hfeed]

/-- The blanks and comments with returns, and what follows them. -/
def Trivia.withReturns : Trivia → Trivia
  | .clear gap rest => .clear gap.withReturns rest.withReturns
  | .unterminated gap comment => .unterminated gap.withReturns comment.withReturns

theorem Trivia.withReturns_prepend (t : Text) (v : Trivia) :
    (v.prepend t).withReturns = v.withReturns.prepend t.withReturns := by
  cases v <;> simp [Trivia.prepend, Trivia.withReturns]

theorem startsToken_withReturns {c : Char} {cs : Text} (h : startsToken c cs) :
    startsToken c (withReturns cs) := by
  rw [startsToken_iff] at h ⊢
  refine ⟨h.1, fun hc => ?_⟩
  rw [ne_eq, head?_withReturns (by decide) (by decide)]
  exact h.2 hc

theorem spanTrivia_withReturns (t : Text) :
    spanTrivia (withReturns t) = (spanTrivia t).withReturns := by
  fun_induction spanTrivia t with
  | case1 => exact spanTrivia_nil
  | case2 cs body rest hsplit ih =>
    have hreturns : splitComment? (withReturns cs) = some (withReturns body, withReturns rest) := by
      rw [splitComment?_withReturns, hsplit]
      rfl
    rw [withReturns_cons (by decide), withReturns_cons (by decide), spanTrivia_comment hreturns, ih,
      Trivia.withReturns_prepend, Text.withReturns_append]
    rfl
  | case3 cs hsplit =>
    have hreturns : splitComment? (withReturns cs) = none := by
      rw [splitComment?_withReturns, hsplit]
      rfl
    rw [withReturns_cons (by decide), withReturns_cons (by decide),
      spanTrivia_unterminated hreturns, Trivia.withReturns, withReturns_cons (by decide),
      withReturns_cons (by decide)]
    rfl
  | case4 c cs _ hblank ih =>
    by_cases hfeed : c = '\n'
    · subst hfeed
      rw [withReturns_feed, spanTrivia_blank (by decide), spanTrivia_blank (by decide), ih,
        Trivia.prepend_prepend, Trivia.withReturns_prepend]
      rfl
    · rw [withReturns_cons hfeed, spanTrivia_blank hblank, ih, Trivia.withReturns_prepend,
        withReturns_cons hfeed]
      rfl
  | case5 c cs hcomment hblank =>
    have hstarts : startsToken c cs := by
      refine startsToken_iff.mpr ⟨by simpa using hblank, ?_⟩
      rintro rfl hstar
      obtain ⟨ds, rfl⟩ := List.head?_eq_some_iff.mp hstar
      exact hcomment ds rfl rfl
    have hfeed : c ≠ '\n' := ne_feed_of_isBlank (startsToken_iff.mp hstarts).1
    rw [withReturns_cons hfeed, spanTrivia_token (startsToken_withReturns hstarts),
      Trivia.withReturns, withReturns_cons hfeed]
    rfl

/-- The returns at the start of a text are skipped like any blank. -/
theorem spanTrivia_blanks {gap : Text} (h : ∀ c ∈ gap, Text.isBlank c) (t : Text) :
    spanTrivia (gap ++ t) = (spanTrivia t).prepend gap := by
  induction gap with
  | nil => simp
  | cons c gap ih =>
    rw [List.cons_append, spanTrivia_blank (h c List.mem_cons_self),
      ih fun d hd => h d (List.mem_cons_of_mem _ hd), Trivia.prepend_prepend, List.singleton_append]

/-! ## Tokens -/

theorem feed_not_mem_of_spanLine {depth : Nat} {line : Text}
    (h : spanLine depth line = (line, [])) : '\n' ∉ line := by
  induction line generalizing depth with
  | nil => simp
  | cons c cs ih =>
    obtain ⟨hgoes, hrest⟩ := spanLine_cons_eq_self_iff.mp h
    intro hmem
    rcases List.mem_cons.mp hmem with rfl | hmem
    · simp [endsLine] at hgoes
    · exact ih hrest hmem

theorem Reads.feed_not_mem {raw rest : Text} {token : Token} (h : Reads raw token rest) :
    '\n' ∉ raw := by
  cases h with
  | closing _ => decide
  | bare _ => decide
  | opening hline _ _ => simpa using feed_not_mem_of_spanLine hline.whole
  | line hline _ _ => exact feed_not_mem_of_spanLine hline.whole

/-- A return does not end a line. -/
theorem spanLine_return {depth : Nat} {line : Text} (h : spanLine depth line = (line, [])) :
    spanLine depth (line ++ ['\r']) = (line ++ ['\r'], []) := by
  induction line generalizing depth with
  | nil => simp [spanLine, endsLine]
  | cons c cs ih =>
    obtain ⟨hgoes, hrest⟩ := spanLine_cons_eq_self_iff.mp h
    rw [List.cons_append]
    refine spanLine_cons_eq_self_iff.mpr ⟨?_, ih hrest⟩
    rwa [endsLine_append _ _ _ (by simp)]

theorem IsLine.return {line : Text} (h : IsLine line) : IsLine (line ++ ['\r']) := by
  refine ⟨?_, spanLine_return h.whole⟩
  cases line with
  | nil => cases h.opens
  | cons c cs => exact h.opens

theorem lineToken_isPlain (t : Text) : (lineToken t).isPlain := by
  unfold lineToken
  split
  · split <;> rfl
  · rfl

theorem endsBefore_withReturns {depth : Nat} {c : Char} (hc : c ≠ '\n') (cs : Text) :
    endsBefore depth (withReturns (c :: cs)) = endsBefore depth (c :: cs) := by
  have hstar : ((withReturns cs).head? == some '*') = (cs.head? == some '*') := by
    rw [Bool.eq_iff_iff, beq_iff_eq, beq_iff_eq, head?_withReturns (by decide) (by decide)]
  rw [withReturns_cons hc]
  simp only [endsBefore, endsLine, hstar]

/-- With returns a token is what it was. If it goes up to the end of its line, it takes the return
that stands there, and no token with a brace does. -/
theorem Reads.withReturns {raw rest : Text} {token : Token} (h : Reads raw token rest) :
    ∃ taken rest' : Text, Reads (raw ++ taken) token rest' ∧ taken ++ rest' = rest.withReturns ∧
      (∀ c ∈ taken, Text.isBlank c) ∧ (token.isPlain = false → taken = []) := by
  cases h with
  | closing rest => exact ⟨[], rest.withReturns, .closing _, rfl, by simp, fun _ => rfl⟩
  | bare rest => exact ⟨[], rest.withReturns, .bare _, rfl, by simp, fun _ => rfl⟩
  | opening hline hends rest =>
    refine ⟨[], rest.withReturns, ?_, rfl, by simp, fun _ => rfl⟩
    rw [List.append_nil]
    exact .opening hline hends _
  | @line line rest hline hends hbrace =>
    cases rest with
    | nil =>
      refine ⟨[], [], ?_, rfl, by simp, fun _ => rfl⟩
      rw [List.append_nil]
      exact .line hline rfl (by simp)
    | cons c cs =>
      by_cases hfeed : c = '\n'
      · subst hfeed
        have hblank : ∀ c ∈ ['\r'], Text.isBlank c := Text.forall_of_all (by decide)
        refine ⟨['\r'], '\n' :: Text.withReturns cs, ?_, rfl, hblank, ?_⟩
        · rw [← Text.trim_append hline.opens hblank]
          exact .line hline.return (by simp [endsBefore, endsLine]) (by simp)
        · rw [lineToken_isPlain]
          exact fun h => absurd h (by decide)
      · refine ⟨[], Text.withReturns (c :: cs), ?_, rfl, by simp, fun _ => rfl⟩
        rw [List.append_nil]
        refine .line hline ?_ ?_
        · rwa [endsBefore_withReturns hfeed]
        · rw [withReturns_cons hfeed]
          simpa using hbrace

/-! ## Lexemes -/

/-- The lexemes `ls'` are those of `ls` with returns, where the text `taken` of the first gap has
been read before. -/
inductive Twin : Text → List Lexeme → List Lexeme → Prop
  | nil (taken : Text) : Twin taken [] []
  | cons {taken more : Text} {l l' : Lexeme} {ls ls' : List Lexeme}
      (hgap : taken ++ l'.gap = l.gap.withReturns) (htoken : l'.token = l.token)
      (hraw : l'.raw = l.raw ++ more) (hfeed : '\n' ∉ l.raw) (hmore : ∀ c ∈ more, Text.isBlank c)
      (hplain : l.token.isPlain = false → more = []) (hls : Twin more ls ls') :
      Twin taken (l :: ls) (l' :: ls')

/-- The ending `ending'` is `ending` with returns. -/
inductive Ending.Twin : Ending → Ending → Prop
  | clean (gap gap' : Text) : Twin (.clean gap) (.clean gap')
  | unterminated (gap gap' comment : Text) :
      Twin (.unterminated gap comment) (.unterminated gap' comment.withReturns)

theorem Trivia.prepend_eq_unterminated_iff {v : Trivia} {t gap comment : Text} :
    v.prepend t = .unterminated gap comment ↔ ∃ g, v = .unterminated g comment ∧ gap = t ++ g := by
  cases v with
  | clear g r => simp [Trivia.prepend]
  | unterminated g c =>
    constructor
    · rintro ⟨⟩
      exact ⟨g, rfl, rfl⟩
    · rintro ⟨_, ⟨⟩, rfl⟩
      rfl

theorem spanTrivia_taken {t taken rest : Text} (htaken : ∀ c ∈ taken, Text.isBlank c)
    (h : taken ++ rest = t.withReturns) :
    (spanTrivia rest).prepend taken = (spanTrivia t).withReturns := by
  rw [← spanTrivia_withReturns, ← h, spanTrivia_blanks htaken]

/-- With returns a source is read as the same tokens. -/
theorem twin_lex (t : Text) {taken rest : Text} (htaken : ∀ c ∈ taken, Text.isBlank c)
    (h : taken ++ rest = t.withReturns) :
    Twin taken (lex t).lexemes (lex rest).lexemes ∧ (lex t).ending.Twin (lex rest).ending := by
  fun_induction lex t generalizing taken rest with
  | case1 t gap comment ht =>
    have hspan := spanTrivia_taken htaken h
    rw [ht] at hspan
    obtain ⟨g, hg, -⟩ := Trivia.prepend_eq_unterminated_iff.mp hspan
    rw [lex_of_unterminated hg]
    exact ⟨.nil taken, .unterminated gap g comment⟩
  | case2 t gap ht =>
    have hspan := spanTrivia_taken htaken h
    rw [ht] at hspan
    obtain ⟨g, hg, -⟩ := Trivia.prepend_eq_clear_iff.mp hspan
    rw [lex_of_clear_nil hg]
    exact ⟨.nil taken, .clean gap g⟩
  | case3 t gap c cs ht r =>
    rename_i ih
    have hspan := spanTrivia_taken htaken h
    rw [ht] at hspan
    obtain ⟨g, hg, hgap⟩ := Trivia.prepend_eq_clear_iff.mp hspan
    have hread : Reads r.1 r.2.1 r.2.2 := reads_readToken (startsToken_of_spanTrivia ht)
    obtain ⟨more, rest', hread', hmore, hblank, hplain⟩ := hread.withReturns
    -- What follows the gap is the token, the return that it takes, and the rest.
    have hrest : rest = (Lexeme.mk g (r.1 ++ more) r.2.1).source ++ rest' := by
      have hsource := source_spanTrivia rest
      rw [hg, ← readToken_append c cs, Trivia.source, Text.withReturns_append,
        withReturns_of_not_mem hread.feed_not_mem, ← hmore] at hsource
      simpa [Lexeme.source] using hsource.symm
    obtain ⟨hls, hending⟩ := ih hblank hmore
    rw [hrest, lex_cons (isGap_of_spanTrivia hg) hread']
    exact ⟨.cons hgap.symm rfl rfl hread.feed_not_mem hblank hplain hls, hending⟩

/-! ## Items -/

/-- The item is the other one with returns. -/
inductive Item.Twin : Item → Item → Prop
  | line (text : Text) : Twin (.line text) (.line text)
  | directive (name value : Text) {raw raw' : Text} (hraw : Text.trimEnd raw = Text.trimEnd raw') :
      Twin (.directive name value raw) (.directive name value raw')
  | stray (raw : Text) : Twin (.stray raw) (.stray raw)
  | block (header raw : Text) {inner inner' : List Lexeme} {gap gap' : Text}
      (hinner : Source.Twin [] inner inner')
      (hbody : bodyText inner' gap' = (bodyText inner gap).withReturns) :
      Twin (.block header raw inner gap) (.block header raw inner' gap')
  | unclosed (header raw : Text) {inner inner' : List Lexeme}
      (hinner : Source.Twin [] inner inner') :
      Twin (.unclosed header raw inner) (.unclosed header raw inner')

/-- A block that is cut from the lexemes, and the one that is cut from those with returns. -/
inductive SplitTwin (taken : Text) : Option (List Lexeme × Lexeme × List Lexeme) →
    Option (List Lexeme × Lexeme × List Lexeme) → Prop
  | none : SplitTwin taken none none
  | some {inner inner' rest rest' : List Lexeme} {brace brace' : Lexeme}
      (hinner : Twin taken inner inner')
      (hbody : taken ++ bodyText inner' brace'.gap = (bodyText inner brace.gap).withReturns)
      (hrest : Twin [] rest rest') :
      SplitTwin taken (some (inner, brace, rest)) (some (inner', brace', rest'))

theorem bodyText_cons (l : Lexeme) (inner : List Lexeme) (gap : Text) :
    bodyText (l :: inner) gap = l.gap ++ (l.raw ++ bodyText inner gap) := by
  simp [bodyText, Lexeme.source]

theorem Twin.splitBlock? {taken : Text} {ls ls' : List Lexeme} (h : Twin taken ls ls')
    (depth : Nat) : SplitTwin taken (splitBlock? depth ls) (splitBlock? depth ls') := by
  induction h generalizing depth with
  | nil taken => exact .none
  | @cons taken more l l' ls ls' hgap htoken hraw hfeed hmore hplain hls ih =>
    unfold Source.splitBlock?
    rw [htoken]
    split
    · rename_i hclosing
      obtain rfl := hplain (by rw [hclosing.2]; rfl)
      exact .some (.nil taken) hgap hls
    · have hrec := ih (blockDepthAfter depth l.token)
      generalize Source.splitBlock? (blockDepthAfter depth l.token) ls = split at hrec ⊢
      generalize Source.splitBlock? (blockDepthAfter depth l.token) ls' = split' at hrec ⊢
      cases hrec with
      | none => exact .none
      | @some inner inner' rest rest' brace brace' hinner hbody hrest =>
        refine .some (.cons hgap htoken hraw hfeed hmore hplain hinner) ?_ hrest
        calc taken ++ bodyText (l' :: inner') brace'.gap
            = taken ++ l'.gap ++ (l.raw ++ (more ++ bodyText inner' brace'.gap)) := by
              simp [bodyText_cons, hraw]
          _ = (bodyText (l :: inner) brace.gap).withReturns := by
              rw [hgap, hbody, bodyText_cons, Text.withReturns_append, Text.withReturns_append,
                withReturns_of_not_mem hfeed]

theorem Twin.items {taken : Text} {ls ls' : List Lexeme} (h : Twin taken ls ls') :
    List.Forall₂ Item.Twin (items ls) (items ls') := by
  fun_induction Source.items ls generalizing taken ls' with
  | case1 =>
    cases h
    rw [Source.items]
    exact .nil
  | case2 l ls text hl ih =>
    obtain _ | ⟨_, htoken, _, _, _, _, hls⟩ := h
    rw [items_line (htoken.trans hl)]
    exact .cons (.line text) (ih hls)
  | case3 l ls name value hl ih =>
    obtain _ | ⟨_, htoken, hraw, _, hmore, _, hls⟩ := h
    rw [items_directive (htoken.trans hl), hraw]
    exact .cons (.directive name value (Text.trimEnd_append hmore _).symm) (ih hls)
  | case4 l ls hl ih =>
    obtain _ | ⟨_, htoken, hraw, _, _, hplain, hls⟩ := h
    obtain rfl := hplain (by rw [hl]; rfl)
    rw [items_stray (htoken.trans hl), hraw, List.append_nil]
    exact .cons (.stray l.raw) (ih hls)
  | case5 l ls header hl hsplit =>
    obtain _ | ⟨_, htoken, hraw, _, _, hplain, hls⟩ := h
    obtain rfl := hplain (by rw [hl]; rfl)
    have hnone := hls.splitBlock? 0
    rw [hsplit] at hnone
    generalize hsplit' : Source.splitBlock? 0 _ = split' at hnone
    cases hnone
    rw [items_unclosed (htoken.trans hl) hsplit', hraw, List.append_nil]
    exact .cons (.unclosed header l.raw hls) .nil
  | case6 l ls header hl inner brace rest hsplit ih =>
    obtain _ | ⟨_, htoken, hraw, _, _, hplain, hls⟩ := h
    obtain rfl := hplain (by rw [hl]; rfl)
    have hsome := hls.splitBlock? 0
    rw [hsplit] at hsome
    generalize hsplit' : Source.splitBlock? 0 _ = split' at hsome
    obtain _ | ⟨hinner, hbody, hrest⟩ := hsome
    rw [items_block (htoken.trans hl) hsplit', hraw, List.append_nil]
    exact .cons (.block header l.raw hinner hbody) (ih hrest)

end Source

/-! ## Errors -/

/-- The error with `f` applied to the line that it shows, if it shows one. -/
def Error.mapLine (f : Text → Text) : Error → Error
  | .unknownAbbreviation abbr line => .unknownAbbreviation abbr (f line)
  | .malformed problem line => .malformed problem (f line)
  | .invalidCondition condition line => .invalidCondition condition (f line)
  | .notAllowed feature region line => .notAllowed feature region (f line)
  | .duplicateLocal name line => .duplicateLocal name (f line)
  | .mixedForm abbr line => .mixedForm abbr (f line)
  | .unknownConst name line => .unknownConst name (f line)
  | .missingThemeKey kind key place line => .missingThemeKey kind key place (f line)
  | e => e

/-- The errors are the same but for blanks at the end of the line that they show. -/
def Error.Alike (e e' : Error) : Prop := e.mapLine Text.trimEnd = e'.mapLine Text.trimEnd

theorem Error.Alike.refl (e : Error) : e.Alike e := rfl

theorem alike_malformed (problem : Problem) {line line' : Text}
    (h : Text.trimEnd line = Text.trimEnd line') :
    (Error.malformed problem line).Alike (.malformed problem line') := by
  simp only [Error.Alike, Error.mapLine, h]

namespace Source

theorem trimEnd_firstLine_withReturns (t : Text) :
    Text.trimEnd (firstLine t) = Text.trimEnd (firstLine t.withReturns) := by
  unfold firstLine
  cases h : Text.splitAtFirst? (· == '\n') t with
  | none =>
    have hfeed : '\n' ∉ t := by
      intro hmem
      have hnot := Text.splitAtFirst?_eq_none_iff.mp h '\n' hmem
      cases hnot
    rw [withReturns_of_not_mem hfeed, h]
  | some r =>
    obtain ⟨line, rest⟩ := r
    obtain ⟨c, hc, hline, rfl⟩ := Text.splitAtFirst?_eq_some_iff.mp h
    obtain rfl := beq_iff_eq.mp hc
    have hfeed : '\n' ∉ line := fun hmem => by simpa using hline _ hmem
    have hreturns : Text.splitAtFirst? (· == '\n') (line ++ '\n' :: rest).withReturns =
        some (line ++ ['\r'], rest.withReturns) := by
      refine Text.splitAtFirst?_eq_some_iff.mpr ⟨'\n', hc, ?_, ?_⟩
      · intro d hd
        rcases List.mem_append.mp hd with hd | hd
        · exact hline d hd
        · rw [List.mem_singleton.mp hd]
          rfl
      · rw [Text.withReturns_append, withReturns_of_not_mem hfeed, withReturns_feed]
        simp
    have hdrop : Text.dropEnd? "\r" (line ++ ['\r']) = some line :=
      Text.dropEnd?_eq_some_iff.mpr rfl
    simp only [hreturns, hdrop, Option.getD_some]
    -- A return that stood there before is a blank at the end of the line.
    cases hr : Text.dropEnd? "\r" line with
    | none => rfl
    | some kept =>
      rw [Text.dropEnd?_eq_some_iff.mp hr]
      exact (Text.trimEnd_append (Text.forall_of_all (by decide)) kept).symm

theorem Ending.Twin.finish {α β : Type} {ending ending' : Ending} (h : ending.Twin ending')
    {R : α → β → Prop} {a : α} {b : β} (hab : R a b) :
    Agree Error.Alike R (ending.finish a) (ending'.finish b) := by
  cases h with
  | clean gap gap' => exact .ok hab
  | unterminated gap gap' comment =>
    exact .error (alike_malformed _ (trimEnd_firstLine_withReturns comment))

theorem Ending.Twin.unclosedError {ending ending' : Ending} (h : ending.Twin ending')
    (header : Text) : (ending.unclosedError header).Alike (ending'.unclosedError header) := by
  cases h with
  | clean gap gap' => exact .refl _
  | unterminated gap gap' comment =>
    exact alike_malformed _ (trimEnd_firstLine_withReturns comment)

theorem Twin.linesOf {taken : Text} {ls ls' : List Lexeme} (h : Twin taken ls ls')
    (header : Text) : Agree Error.Alike Eq (linesOf header ls) (linesOf header ls') := by
  induction h with
  | nil taken => exact .ok rfl
  | @cons taken more l l' ls ls' hgap htoken hraw hfeed hmore hplain hls ih =>
    have hend : Text.trimEnd l.raw = Text.trimEnd l'.raw := by
      rw [hraw, Text.trimEnd_append hmore]
    unfold Source.linesOf
    rw [htoken]
    cases l.token with
    | line text => exact ih.map fun _ _ h => congrArg _ h
    | directive name value => exact .error (alike_malformed _ hend)
    | opening inner => exact .error (alike_malformed _ hend)
    | closing => exact .error (.refl _)

/-! ## Bodies and templates -/

/-- Two foldings over the items of a text and of the same text with returns agree if their steps
do. -/
theorem agree_foldlM_items {α β : Type} {S : α → β → Prop} {f : Ending → α → Item → Except Error α}
    {f' : Ending → β → Item → Except Error β} {a : α} {b : β} (t : Text) (hab : S a b)
    (hstep : ∀ {ending ending' : Ending}, ending.Twin ending' → ∀ a b item item', S a b →
      item.Twin item' → Agree Error.Alike S (f ending a item) (f' ending' b item')) :
    Agree Error.Alike S
      ((items (lex t).lexemes).foldlM (f (lex t).ending) a >>= (lex t).ending.finish)
      ((items (lex t.withReturns).lexemes).foldlM (f' (lex t.withReturns).ending) b >>=
        (lex t.withReturns).ending.finish) := by
  obtain ⟨hls, hending⟩ := twin_lex t (by simp) (List.nil_append t.withReturns)
  exact (Agree.foldlM hls.items hab (hstep hending)).bind fun _ _ h => hending.finish h

end Source

open Source

namespace ClassBody

theorem agree_addDirective (b : ClassBody) (name value : Text) {raw raw' : Text}
    (hraw : Text.trimEnd raw = Text.trimEnd raw') :
    Agree Error.Alike Eq (b.addDirective name value raw) (b.addDirective name value raw') := by
  unfold addDirective
  dsimp only
  split
  · split
    · exact .error (alike_malformed _ hraw)
    · split
      · exact .ok rfl
      · exact .error (alike_malformed _ hraw)
  · exact .error (alike_malformed _ hraw)

theorem agree_add {ending ending' : Ending} (hending : ending.Twin ending') (b : ClassBody)
    {item item' : Item} (h : item.Twin item') :
    Agree Error.Alike Eq (b.add ending item) (b.add ending' item') := by
  cases h with
  | line text => exact .ok rfl
  | directive name value hraw => exact agree_addDirective b name value hraw
  | stray raw => exact .error (.refl _)
  | block header raw hinner hbody =>
    refine (agree_refl Error.Alike.refl _).bind ?_
    rintro selector _ rfl
    refine (hinner.linesOf header).bind ?_
    rintro lines _ rfl
    exact .ok rfl
  | unclosed header raw hinner =>
    refine (agree_refl Error.Alike.refl _).bind ?_
    rintro selector _ rfl
    exact (hinner.linesOf header).bind fun _ _ _ => .error (hending.unclosedError header)

theorem agree_parse (body : Text) :
    Agree Error.Alike Eq (parse body) (parse body.withReturns) := by
  refine agree_foldlM_items body rfl fun hending b b' item item' hb hitem => ?_
  subst hb
  exact agree_add hending b hitem

end ClassBody

theorem ConstBody.agree_parse (name body : Text) :
    Agree Error.Alike Eq (parse name body) (parse name body.withReturns) := by
  obtain ⟨hls, hending⟩ := twin_lex body (by simp) (List.nil_append body.withReturns)
  exact (hls.linesOf _).bind fun _ _ h => hending.finish h

/-- The block with returns in its body. -/
def RawBlock.withReturns (b : RawBlock) : RawBlock := { b with body := b.body.withReturns }

namespace Template

/-- The template with returns in its bodies. -/
def withReturns (t : Template) : Template :=
  { t with
    consts := t.consts.map RawBlock.withReturns
    classes := t.classes.map RawBlock.withReturns }

/-- The second template is the first one with returns. -/
def Twin (t t' : Template) : Prop := t' = t.withReturns

theorem agree_addDirective (t : Template) (name value : Text) {raw raw' : Text}
    (hraw : Text.trimEnd raw = Text.trimEnd raw') :
    Agree Error.Alike Twin (t.addDirective name value raw)
      (t.withReturns.addDirective name value raw') := by
  have hscope : t.withReturns.scope = t.scope := rfl
  unfold addDirective
  rw [hscope]
  split
  · split
    · exact .error (alike_malformed _ hraw)
    · split
      · exact .ok rfl
      · exact .error (alike_malformed _ hraw)
  · split
    · split
      · exact .ok rfl
      · exact .error (alike_malformed _ hraw)
    · split
      · exact .error (alike_malformed _ hraw)
      · exact .error (alike_malformed _ hraw)

theorem agree_addBlock (t : Template) {body body' : Except Error Text}
    (hbody : Agree Error.Alike (fun b b' => b' = Text.withReturns b) body body')
    (heading : Heading) :
    Agree Error.Alike Twin (t.addBlock body heading) (t.withReturns.addBlock body' heading) := by
  cases heading with
  | const name =>
    have hnames : t.withReturns.consts.map RawBlock.name = t.consts.map RawBlock.name := by
      simp [withReturns, RawBlock.withReturns, Function.comp_def]
    simp only [addBlock, hnames]
    split
    · exact .error (.refl _)
    · refine hbody.map ?_
      rintro body _ rfl
      simp [Twin, withReturns, RawBlock.withReturns]
  | cls name =>
    refine hbody.map ?_
    rintro body _ rfl
    simp [Twin, withReturns, RawBlock.withReturns]

theorem agree_add {ending ending' : Ending} (hending : ending.Twin ending') (t : Template)
    {item item' : Item} (h : item.Twin item') :
    Agree Error.Alike Twin (t.add ending item) (t.withReturns.add ending' item') := by
  cases h with
  | line text => exact .error (.refl _)
  | directive name value hraw => exact agree_addDirective t name value hraw
  | stray raw => exact .error (.refl _)
  | block header raw hinner hbody =>
    refine (agree_refl Error.Alike.refl _).bind ?_
    rintro heading _ rfl
    exact agree_addBlock t (.ok hbody) heading
  | unclosed header raw hinner =>
    refine (agree_refl Error.Alike.refl _).bind ?_
    rintro heading _ rfl
    exact agree_addBlock t (.error (hending.unclosedError header)) heading

theorem agree_parse (source : Text) :
    Agree Error.Alike Twin (parse source) (parse source.withReturns) := by
  refine agree_foldlM_items source rfl fun hending t t' item item' ht hitem => ?_
  obtain rfl := ht
  exact agree_add hending t hitem

end Template

end TerseCss
