-- What errors show. A template that fails is blamed on a text of its source, and the error shows
-- that text as it stands there. The one exception is a constant that is not known: of the line that
-- names it the error shows the words, with a single space between them.
import TerseCss.Proofs.Session.Standalone
import TerseCss.Proofs.Source.Captures
import TerseCss.Proofs.Source.Quotes

namespace TerseCss

open Source

/-! ## Errors that quote -/

/-- The error shows a text of the source. If it is about a constant that is not known, it shows the
words of a text that names the constant. -/
def Error.Quotes (source : Text) : Error → Prop
  | .unknownConst name line => ∃ uses, UsedIn source uses ∧ name ∈ uses ∧
      line = Text.join " " (("@use" : Text) :: uses)
  | e => ∀ line, e.line? = some line → line <:+: source

theorem Error.Quotes.mono {part source : Text} {e : Error} (h : e.Quotes part)
    (hpart : part <:+: source) : e.Quotes source := by
  cases e with
  | unknownConst name line =>
    obtain ⟨uses, ⟨raw, hraw, hwords⟩, hname⟩ := h
    exact ⟨uses, ⟨raw, hraw.trans hpart, hwords⟩, hname⟩
  | _ => exact fun line hline => (h line hline).trans hpart

theorem quotes_of_line?_eq_none {source : Text} {e : Error} (h : e.line? = none) :
    e.Quotes source := by
  cases e <;> simp_all [Error.Quotes, Error.line?]

theorem Error.OfParts.quotes {texts : List Text} {whole : Prop} {source : Text} {e : Error}
    (h : e.OfParts texts whole) (htexts : ∀ t ∈ texts, t <:+: source) : e.Quotes source := by
  cases e with
  | malformed problem line =>
    rintro shown ⟨⟩
    exact htexts line h.1
  | duplicateConst name => exact quotes_of_line?_eq_none rfl
  | _ => exact absurd h id

theorem Error.OfLine.quotes {line source : Text} {e : Error} (h : e.OfLine line)
    (hline : line <:+: source) : e.Quotes source := by
  cases e <;> simp_all [Error.OfLine, Error.Quotes, Error.line?]

/-! ## Constants and classes -/

theorem ClassBody.Blames.quotes {b : ClassBody} {source : Text} {e : Error} (h : b.Blames e)
    (hb : b.StandsIn source) : e.Quotes source := by
  cases h with
  | @line line _ hline he =>
    refine he.quotes ((Text.trim_isInfix line).trans ?_)
    rcases hline with hline | ⟨q, hq, hline⟩
    · exact hb.lines line hline
    · exact hb.queries q hq line hline
  | use hname =>
    have hne : b.uses ≠ [] := List.ne_nil_of_mem hname
    refine ⟨b.uses, hb.uses hne, hname, ?_⟩
    obtain ⟨first, more, huses⟩ := List.exists_cons_of_ne_nil hne
    rw [huses]
    rfl

theorem quotes_ofBody (theme : Theme) (seed : UInt32) (consts : Consts) (scope cls body : Text) :
    ErrorsIn (Error.Quotes body) (CompiledClass.ofBody theme seed consts scope cls body) := by
  refine errorsIn_bind
    (errorsIn_mono (ofParts_parseBody body) fun _ he => he.quotes fun _ => texts_isInfix)
    fun b hb => errorsIn_bind (errorsIn_mono (blames_compile theme consts b) fun _ he =>
      he.quotes (ClassBody.standsIn_of_parse hb)) fun style _ =>
        errorsIn_bind ?_ fun named _ => errorsIn_pure _
  unfold StyleTree.finalize
  split
  · exact errorsIn_error.mpr (quotes_of_line?_eq_none rfl)
  · exact errorsIn_ok _

/-- A constant shows its name instead of a text of its body only if a brace has no partner. -/
theorem quotes_compileConst (theme : Theme) (name : Text) {body : Text} (h : (lex body).Whole) :
    ErrorsIn (Error.Quotes body) (ConstBody.compile theme name body) := by
  refine errorsIn_bind (errorsIn_mono (errors_parseConst name body) ?_) fun lines hlines =>
    errorsIn_mono (ofLine_ofLines theme _ lines) ?_
  · rintro e (he | ⟨-, hopen⟩)
    · refine he.quotes fun text htext => ?_
      rcases List.mem_append.mp htext with htext | htext
      · obtain ⟨l, hl, rfl⟩ := List.mem_map.mp htext
        exact (reads_of_mem_lexemes hl).1
      · exact ending_texts_isInfix htext
    · exact absurd h hopen
  · rintro e ⟨line, hline, he⟩
    exact he.quotes ((Text.trim_isInfix line).trans (ConstBody.infix_of_parse hlines line hline))

/-! ## Templates -/

theorem isName_of_heading {header raw name : Text}
    (h : Template.heading header raw = .ok (.cls name)) : Text.isName name := by
  unfold Template.heading at h
  split at h
  · split at h <;> cases h
  · split at h
    · rename_i hdotted
      cases h
      unfold onlyDotted? at hdotted
      split at hdotted
      · unfold dotted? at hdotted
        split at hdotted
        · split at hdotted
          · rename_i hname
            cases hdotted
            exact hname
          · cases hdotted
        · cases hdotted
      · cases hdotted
    · cases h

theorem quotes_constants {source : Text} {t : Template} (h : Template.parse source = .ok t)
    (theme : Theme) : ErrorsIn (Error.Quotes source) (t.constants theme) := by
  apply errorsIn_foldlM
  intro consts block hblock
  rw [(Template.holds_of_parse h).consts] at hblock
  obtain ⟨site, hd, -, hset⟩ := Template.exists_setAt h hblock
  refine errorsIn_bind ?_ fun style _ => ?_
  · exact errorsIn_mono (quotes_compileConst theme block.name hset.whole) fun _ he =>
      he.mono hset.isInfix
  · unfold Consts.add
    split
    · exact errorsIn_error.mpr (quotes_of_line?_eq_none rfl)
    · exact errorsIn_ok _

theorem quotes_namedClasses {source : Text} {t : Template} (h : Template.parse source = .ok t)
    (theme : Theme) (seed : UInt32) (consts : Consts) :
    ErrorsIn (Error.Quotes source) (t.namedClasses theme seed consts) := by
  apply errorsIn_mapM
  intro block hblock
  rw [(Template.holds_of_parse h).classes] at hblock
  obtain ⟨site, hd, hname, hset⟩ := Template.exists_setAt h hblock
  have hcls : Text.isName block.name := by
    obtain ⟨-, ⟨header, -, hheading⟩, -⟩ := hset
    cases hd with
    | const name => cases hname
    | cls name =>
      cases hname
      exact isName_of_heading hheading
  refine errorsIn_map ?_
  unfold CompiledClass.ofNamed
  rw [if_neg (by simp [hcls])]
  exact errorsIn_mono (quotes_ofBody theme seed consts _ block.name block.body) fun _ he =>
    he.mono hset.isInfix

theorem line?_addBind (sheet : Sheet) (bind : Bind) :
    ErrorsIn (fun e => e.line? = none) (sheet.addBind bind) := by
  unfold Sheet.addBind
  split
  · exact errorsIn_error.mpr rfl
  · apply errorsIn_map
    apply errorsIn_mapM
    intro cls _
    split
    · exact errorsIn_ok _
    · exact errorsIn_error.mpr rfl

theorem quotes_compileSource (theme : Theme) (seed : UInt32) (source : Text) :
    ErrorsIn (Error.Quotes source) (compileSource theme seed source) := by
  refine errorsIn_bind
    (errorsIn_mono (ofParts_parse source) fun _ he => he.quotes fun _ => texts_isInfix)
    fun t ht => ?_
  refine errorsIn_bind (quotes_constants ht theme) fun consts _ =>
    errorsIn_bind (quotes_namedClasses ht theme seed consts) fun named _ =>
      errorsIn_bind (errorsIn_foldlM (fun sheet bind _ => ?_) _) fun sheet _ => errorsIn_pure _
  exact errorsIn_mono (line?_addBind sheet bind) fun _ => quotes_of_line?_eq_none

theorem line?_repeatedClasses (scope : Text) (names : List Text) (r : Registry) :
    ∀ e ∈ r.repeatedClasses scope names, e.line? = none := by
  induction names generalizing r with
  | nil => simp [Registry.repeatedClasses]
  | cons name names ih =>
    intro e he
    rcases List.mem_append.mp he with he | he
    · unfold Registry.repeatedClass at he
      split at he
      · rw [List.mem_singleton.mp he]
        rfl
      · cases he
    · exact ih _ e he

theorem line?_repeated (r : Registry) (t : Template) : ∀ e ∈ r.repeated t, e.line? = none := by
  intro e he
  rcases List.mem_append.mp he with he | he
  · unfold Registry.repeatedScope at he
    split at he
    · split at he
      · rw [List.mem_singleton.mp he]
        rfl
      · cases he
    · cases he
  · exact line?_repeatedClasses _ _ _ e he

/-- Whatever a template fails for, the error quotes the source. -/
theorem quotes_compileTemplate {s : Session} {source : Text} {e : Error}
    (h : (s.compileTemplate source).result = .error e) : e.Quotes source := by
  rcases Session.compileTemplate_error h with h | ⟨-, t, -, h⟩
  · exact quotes_compileSource s.theme s.options.seed source e h
  · exact quotes_of_line?_eq_none (line?_repeated s.registry t e (List.mem_of_head? h))

/-- The line that an error shows stands in the source, unless the error is about a constant that is
not known. Then it shows the words of a line of the source that names the constant. -/
theorem errors_show_what_stands_in_the_source {s : Session} {source line : Text} {e : Error}
    (h : (s.compileTemplate source).result = .error e) (hline : e.line? = some line) :
    ((∀ name, e ≠ .unknownConst name line) → line <:+: source) ∧
      ∀ name, e = .unknownConst name line → ∃ raw uses, raw <:+: source ∧
        Text.words Text.isBlank raw = ("@use" : Text) :: uses ∧ name ∈ uses ∧
        line = Text.join " " (Text.words Text.isBlank raw) := by
  have hquotes := quotes_compileTemplate h
  constructor
  · intro hne
    cases e with
    | unknownConst name shown =>
      cases hline
      exact absurd rfl (hne name)
    | _ => exact hquotes line hline
  · rintro name rfl
    obtain ⟨uses, ⟨raw, hraw, hwords⟩, hname, hshown⟩ := hquotes
    exact ⟨raw, uses, hraw, hwords, hname, hwords ▸ hshown⟩

/-- A line in a query of a class, with a bracket that stays open and blanks at its end. -/
theorem errors_show_what_stands_in_the_source_of_a_query :
    let s : Session := {}
    let source : Text := "@scope a\n.x \x7b\n  @query b \x7b /* zz[1] */\n zz[(1] \n\x7d \x7d"
    (s.compileTemplate source).result = .error (.unknownAbbreviation "zz" "zz[(1]") ∧
      ("zz[(1]" : Text) <:+: source := by
  intro s source
  have h : (s.compileTemplate source).result = .error (.unknownAbbreviation "zz" "zz[(1]") := by
    decide +kernel
  exact ⟨h, (errors_show_what_stands_in_the_source h rfl).1 (by simp)⟩

/-- Two blanks between the names of constants are shown as one. -/
theorem an_unknown_constant_is_not_shown_as_it_stands :
    let s : Session := {}
    let source : Text := ".box \x7b\n  @use a  b\n\x7d"
    (s.compileTemplate source).result = .error (.unknownConst "a" "@use a b") ∧
      ¬("@use a b" : Text) <:+: source := by
  intro s source
  refine ⟨by decide +kernel, ?_⟩
  rw [← Text.occursIn_iff]
  decide

end TerseCss
