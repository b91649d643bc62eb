-- What stands in a source. The texts of its tokens stand there word for word, and so do the lines
-- of a body. Of the constants that a class uses only the words are kept, not what sets them apart.
import TerseCss.Proofs.SourceErrors
import TerseCss.Proofs.Source.Bodies

namespace TerseCss

open Source

namespace Source

/-! ## Tokens -/

theorem firstLine_isInfix (t : Text) : firstLine t <:+: t := by
  unfold firstLine
  split
  · rename_i line rest h
    obtain ⟨c, -, -, rfl⟩ := Text.splitAtFirst?_eq_some_iff.mp h
    have hline : line <+: line ++ c :: rest := List.prefix_append _ _
    cases hr : Text.dropEnd? "\r" line with
    | none => exact hline.isInfix
    | some kept =>
      have hkept : kept <+: line := ⟨_, (Text.dropEnd?_eq_some_iff.mp hr).symm⟩
      exact (hkept.trans hline).isInfix
  · exact List.infix_refl t

theorem lineToken_eq_line {t text : Text} (h : lineToken t = .line text) : text = t := by
  unfold lineToken at h
  split at h
  · split at h <;> cases h
  · cases h
    rfl

/-- The words of a directive are its name and the words of its value. -/
theorem words_of_lineToken {t name value : Text} (h : lineToken t = .directive name value)
    (hvalue : value ≠ []) :
    Text.words Text.isBlank t = ('@' :: name) :: Text.words Text.isBlank value := by
  unfold lineToken at h
  split at h
  · split at h
    · rename_i directive name' rest hsplit
      cases h
      obtain ⟨c, hc, hname, rfl⟩ := Text.splitAtFirst?_eq_some_iff.mp hsplit
      rw [Text.words_trim, ← List.cons_append]
      refine Text.words_word_cons (by simp) (fun d hd => ?_) hc rest
      rcases List.mem_cons.mp hd with rfl | hd
      · decide
      · exact hname d hd
    · cases h
      exact absurd rfl hvalue
  · cases h

theorem Reads.line_isInfix {raw text rest : Text} (h : Reads raw (.line text) rest) :
    text <:+: raw := by
  generalize htoken : Token.line text = token at h
  cases h with
  | closing _ => cases htoken
  | bare _ => cases htoken
  | opening _ _ _ => cases htoken
  | line _ _ _ =>
    rw [lineToken_eq_line htoken.symm]
    exact Text.trim_isInfix raw

theorem Reads.header_isInfix {raw header rest : Text} (h : Reads raw (.opening header) rest) :
    header <:+: raw := by
  generalize htoken : Token.opening header = token at h
  cases h with
  | closing _ => cases htoken
  | bare _ =>
    cases htoken
    exact List.nil_infix
  | @opening line _ _ _ =>
    cases htoken
    exact (Text.trim_isInfix line).trans (List.prefix_append _ _).isInfix
  | line _ _ _ =>
    unfold lineToken at htoken
    split at htoken
    · split at htoken <;> cases htoken
    · cases htoken

theorem Reads.words_directive {raw name value rest : Text}
    (h : Reads raw (.directive name value) rest) (hvalue : value ≠ []) :
    Text.words Text.isBlank raw = ('@' :: name) :: Text.words Text.isBlank value := by
  generalize htoken : Token.directive name value = token at h
  cases h with
  | closing _ => cases htoken
  | bare _ => cases htoken
  | opening _ _ _ => cases htoken
  | line _ _ _ =>
    rw [← Text.words_trim]
    exact words_of_lineToken htoken.symm hvalue

/-- A lexeme of a source stands there as it was read. -/
theorem reads_of_mem_lexemes {source : Text} {l : Lexeme} (h : l ∈ (lex source).lexemes) :
    l.raw <:+: source ∧ ∃ rest, Reads l.raw l.token rest := by
  obtain ⟨before, after, hls⟩ := List.append_of_mem h
  have hlead := leads_lex source
  have hsource := source_lex source
  rw [hls] at hlead
  rw [Lexed.source, hls] at hsource
  obtain _ | ⟨-, hread, -⟩ := (leads_append_iff.mp hlead).2
  refine ⟨⟨before.flatMap Lexeme.source ++ l.gap,
    after.flatMap Lexeme.source ++ (lex source).ending.source, ?_⟩, _, hread⟩
  simpa [Lexeme.source] using hsource

theorem line_isInfix_of_mem_lexemes {source text : Text} {l : Lexeme} (h : l ∈ (lex source).lexemes)
    (hl : l.token = .line text) : text <:+: source := by
  obtain ⟨hraw, rest, hread⟩ := reads_of_mem_lexemes h
  rw [hl] at hread
  exact hread.line_isInfix.trans hraw

theorem header_isInfix_of_mem_lexemes {source header : Text} {l : Lexeme}
    (h : l ∈ (lex source).lexemes) (hl : l.token = .opening header) : header <:+: source := by
  obtain ⟨hraw, rest, hread⟩ := reads_of_mem_lexemes h
  rw [hl] at hread
  exact hread.header_isInfix.trans hraw

/-! ## What errors may show -/

theorem ending_texts_isInfix {source text : Text} (h : text ∈ (lex source).ending.texts) :
    text <:+: source := by
  have hending : (lex source).ending.source <:+ source :=
    ⟨(lex source).lexemes.flatMap Lexeme.source, source_lex source⟩
  cases he : (lex source).ending with
  | clean gap =>
    rw [he] at h
    cases h
  | unterminated gap comment =>
    rw [he] at h hending
    obtain rfl := List.mem_singleton.mp h
    have hcomment : comment <:+ gap ++ comment := List.suffix_append gap comment
    exact (firstLine_isInfix comment).trans (hcomment.trans hending).isInfix

theorem item_texts_isInfix {source text : Text} {item : Item}
    (hitem : item ∈ items (lex source).lexemes) (h : text ∈ item.texts) : text <:+: source := by
  obtain ⟨own, hown, hmade⟩ := exists_own_of_mem_items hitem
  have hraw : ∀ l ∈ own, l.raw <:+: source := fun l hl => (reads_of_mem_lexemes (hown l hl)).1
  -- The texts of a block are its header and the texts of its lexemes, whether it is closed or not.
  have hblock : ∀ {opening : Lexeme} {inner : List Lexeme} {header : Text},
      opening.token = .opening header → opening ∈ own → (∀ l ∈ inner, l ∈ own) →
      text ∈ header :: opening.raw :: inner.map Lexeme.raw → text <:+: source := by
    intro opening inner header htoken hopening hinner htext
    rcases List.mem_cons.mp htext with rfl | htext
    · exact header_isInfix_of_mem_lexemes (hown _ hopening) htoken
    rcases List.mem_cons.mp htext with rfl | htext
    · exact hraw _ hopening
    obtain ⟨l, hl, rfl⟩ := List.mem_map.mp htext
    exact hraw l (hinner l hl)
  cases hmade with
  | line hl =>
    obtain rfl := List.mem_singleton.mp h
    exact line_isInfix_of_mem_lexemes (hown _ List.mem_cons_self) hl
  | directive _ =>
    obtain rfl := List.mem_singleton.mp h
    exact hraw _ List.mem_cons_self
  | stray _ =>
    obtain rfl := List.mem_singleton.mp h
    exact hraw _ List.mem_cons_self
  | block hopening _ _ =>
    exact hblock hopening List.mem_cons_self
      (fun l hl => List.mem_cons_of_mem _ (List.mem_append_left _ hl)) h
  | unclosed hopening _ =>
    exact hblock hopening List.mem_cons_self (fun l hl => List.mem_cons_of_mem _ hl) h

/-- What an error may show of a source stands there. -/
theorem texts_isInfix {source text : Text} (h : text ∈ (lex source).texts) : text <:+: source := by
  rcases List.mem_append.mp h with h | h
  · obtain ⟨item, hitem, h⟩ := List.mem_flatMap.mp h
    exact item_texts_isInfix hitem h
  · exact ending_texts_isInfix h

end Source

/-! ## Bodies -/

/-- Some text of the source has the words `@use` and then `uses`. -/
def UsedIn (source : Text) (uses : List Text) : Prop :=
  ∃ raw, raw <:+: source ∧ Text.words Text.isBlank raw = ("@use" : Text) :: uses

/-- The parts of a body stand in the source. -/
structure ClassBody.StandsIn (source : Text) (b : ClassBody) : Prop where
  lines : ∀ line ∈ b.lines, line <:+: source
  queries : ∀ q ∈ b.queries, ∀ line ∈ q.lines, line <:+: source
  uses : b.uses ≠ [] → UsedIn source b.uses

theorem ClassBody.standsIn_of_parse {body : Text} {b : ClassBody}
    (h : ClassBody.parse body = .ok b) : b.StandsIn body := by
  have hfrom := readFrom_of_parse h
  refine ⟨fun line hline => ?_, fun q hq line hline => ?_, fun huses => ?_⟩
  · obtain ⟨l, hl, htoken⟩ := hfrom.lines line hline
    exact line_isInfix_of_mem_lexemes hl htoken
  · obtain ⟨l, hl, htoken⟩ := hfrom.queryLines q hq line hline
    exact line_isInfix_of_mem_lexemes hl htoken
  · obtain ⟨l, hl, value, htoken, hwords, -⟩ := hfrom.uses huses
    obtain ⟨hraw, rest, hread⟩ := reads_of_mem_lexemes hl
    rw [htoken] at hread
    refine ⟨l.raw, hraw, ?_⟩
    rw [hwords] at huses ⊢
    refine hread.words_directive ?_
    rintro rfl
    exact huses (by rw [Text.words])

theorem ConstBody.infix_of_parse {name body : Text} {lines : List Text}
    (h : ConstBody.parse name body = .ok lines) : ∀ line ∈ lines, line <:+: body := by
  obtain ⟨lines', hlines, hfinish⟩ := bind_eq_ok_iff.mp h
  obtain ⟨rfl, -⟩ := finish_eq_ok_iff.mp hfinish
  intro line hline
  obtain ⟨l, hl, htoken⟩ := mem_of_linesOf hlines line hline
  exact line_isInfix_of_mem_lexemes hl htoken

end TerseCss
