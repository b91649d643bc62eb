-- Where errors come from. Whatever is read from a source fails for a reason that lies in the source
-- and the theme: only a session finds that something was declared before. An error of a line is
-- about that line, and an error of the parts of a source is about a text that stands there.
import TerseCss.CompiledClass
import TerseCss.Proofs.Outcome
import TerseCss.Proofs.Source.Blocks
import TerseCss.Session.Sheet

namespace TerseCss

open Source

/-! ## What errors are about -/

/-- The error is not about what was declared before. -/
def Error.OfSource (e : Error) : Prop := e.kind ≠ .uniquenessViolation

/-- The problem is a comment or a block without an end, or a brace without its partner. -/
def Problem.isUnfinished : Problem → Bool
  | .unterminatedComment => true
  | .unmatchedBrace => true
  | .neverClosed => true
  | _ => false

/-- The error of a source that is cut into its parts. It shows one of the texts or names a
constant, and it finds nothing unfinished if the source is `whole`. -/
def Error.OfParts (texts : List Text) (whole : Prop) : Error → Prop
  | .malformed problem line => line ∈ texts ∧ (problem.isUnfinished → ¬whole)
  | .duplicateConst _ => True
  | _ => False

/-- The error of a line. It shows the line or blames the theme. -/
def Error.OfLine (line : Text) : Error → Prop
  | .unknownAbbreviation _ shown => shown = line
  | .malformed _ shown => shown = line
  | .invalidCondition _ shown => shown = line
  | .notAllowed _ _ shown => shown = line
  | .duplicateLocal _ shown => shown = line
  | .mixedForm _ shown => shown = line
  | .missingThemeKey _ _ _ shown => shown = line
  | .invalidThemeProperty .. => True
  | _ => False

@[simp]
theorem ofSource_malformed (p : Problem) (line : Text) : (Error.malformed p line).OfSource := by
  simp [Error.OfSource, Error.kind]

@[simp]
theorem ofLine_malformed (problem : Problem) (line : Text) :
    (Error.malformed problem line).OfLine line := rfl

theorem Error.OfParts.mono {texts texts' : List Text} {whole whole' : Prop} {e : Error}
    (h : e.OfParts texts whole) (htexts : ∀ t ∈ texts, t ∈ texts') (hwhole : whole' → whole) :
    e.OfParts texts' whole' := by
  cases e with
  | malformed problem line =>
    exact ⟨htexts line h.1, fun hproblem hw => h.2 hproblem (hwhole hw)⟩
  | duplicateConst name => trivial
  | _ => exact absurd h id

theorem Error.OfParts.ofSource {texts : List Text} {whole : Prop} {e : Error}
    (h : e.OfParts texts whole) : e.OfSource := by
  cases e <;> simp_all [Error.OfParts, Error.OfSource, Error.kind]

theorem Error.OfLine.ofSource {line : Text} {e : Error} (h : e.OfLine line) : e.OfSource := by
  cases e <;> simp_all [Error.OfLine, Error.OfSource, Error.kind]

/-! ## Tokens and blocks -/

/-- The texts of an item that an error may show. -/
def Source.Item.texts : Item → List Text
  | .line text => [text]
  | .directive _ _ raw => [raw]
  | .stray raw => [raw]
  | .block header raw inner _ => header :: raw :: inner.map Lexeme.raw
  | .unclosed header raw inner => header :: raw :: inner.map Lexeme.raw

/-- The text behind the last token that an error may show. -/
def Source.Ending.texts : Ending → List Text
  | .clean _ => []
  | .unterminated _ comment => [firstLine comment]

/-- The texts of a source that an error may show. -/
def Source.Lexed.texts (r : Lexed) : List Text :=
  (items r.lexemes).flatMap Item.texts ++ r.ending.texts

theorem ofParts_unclosedError (ending : Ending) (header : Text) :
    (ending.unclosedError header).OfParts (header :: ending.texts) False := by
  cases ending with
  | clean gap => exact ⟨List.mem_cons_self, fun _ h => h⟩
  | unterminated gap comment =>
    exact ⟨List.mem_cons_of_mem _ (List.mem_singleton.mpr rfl), fun _ h => h⟩

theorem ofParts_finish {α : Type} (r : Lexed) (a : α) :
    ErrorsIn (Error.OfParts r.ending.texts r.Whole) (r.ending.finish a) := by
  obtain ⟨ls, _ | ⟨gap, comment⟩⟩ := r
  · exact errorsIn_ok a
  · refine errorsIn_error.mpr ⟨List.mem_singleton.mpr rfl, ?_⟩
    rintro _ ⟨-, _, hclean⟩
    cases hclean

theorem Error.OfParts.ofEnding {texts : List Text} {r : Lexed} {e : Error}
    (h : e.OfParts r.ending.texts r.Whole) : e.OfParts (texts ++ r.ending.texts) r.Whole :=
  h.mono (fun _ => List.mem_append_right _) id

/-- Lines are refused for a token that is no line, or for a brace without its partner. -/
theorem errors_linesOf (header : Text) (ls : List Lexeme) :
    ErrorsIn (fun e => (∃ l ∈ ls, ∃ problem, e = .malformed problem l.raw ∧ ¬problem.isUnfinished) ∨
      (e = .malformed .unmatchedBrace header ∧ ¬Closes 0 ls)) (linesOf header ls) := by
  induction ls with
  | nil => exact errorsIn_ok []
  | cons l ls ih =>
    unfold linesOf
    split
    · rename_i text hl
      refine errorsIn_map (errorsIn_mono ih ?_)
      rintro e (⟨l', hl', problem, he⟩ | ⟨he, hopen⟩)
      · exact Or.inl ⟨l', List.mem_cons_of_mem _ hl', problem, he⟩
      · exact Or.inr ⟨he, fun h => hopen ((closes_cons_plain (by rw [hl]; rfl)).mp h)⟩
    · exact errorsIn_error.mpr
        (Or.inl ⟨l, List.mem_cons_self, _, rfl, by simp [Problem.isUnfinished]⟩)
    · exact errorsIn_error.mpr
        (Or.inl ⟨l, List.mem_cons_self, _, rfl, by simp [Problem.isUnfinished]⟩)
    · rename_i hl
      exact errorsIn_error.mpr (Or.inr ⟨rfl, not_closes_closing hl⟩)

theorem ofParts_linesOf (header : Text) (ls : List Lexeme) :
    ErrorsIn (Error.OfParts (header :: ls.map Lexeme.raw) (Closes 0 ls)) (linesOf header ls) := by
  refine errorsIn_mono (errors_linesOf header ls) ?_
  rintro e (⟨l, hl, problem, rfl, hproblem⟩ | ⟨rfl, hopen⟩)
  · exact ⟨List.mem_cons_of_mem _ (List.mem_map_of_mem hl), fun h => absurd h hproblem⟩
  · exact ⟨List.mem_cons_self, fun _ => hopen⟩

/-! ## Templates -/

theorem ofParts_heading (header raw : Text) (whole : Prop) :
    ErrorsIn (Error.OfParts [raw] whole) (Template.heading header raw) := by
  unfold Template.heading
  split
  · split <;> simp [Error.OfParts, Problem.isUnfinished]
  · split <;> simp [Error.OfParts, Problem.isUnfinished]

theorem ofParts_addBlock (t : Template) {body : Except Error Text} {texts : List Text}
    {whole : Prop} (hbody : ErrorsIn (Error.OfParts texts whole) body)
    (heading : Template.Heading) :
    ErrorsIn (Error.OfParts texts whole) (t.addBlock body heading) := by
  cases heading with
  | const name =>
    simp only [Template.addBlock]
    split
    · simp [Error.OfParts]
    · exact errorsIn_map hbody
  | cls name => exact errorsIn_map hbody

theorem ofParts_addDirective (t : Template) (name value raw : Text) (whole : Prop) :
    ErrorsIn (Error.OfParts [raw] whole) (t.addDirective name value raw) := by
  unfold Template.addDirective
  repeat' split
  all_goals simp [Error.OfParts, Problem.isUnfinished]

theorem ofParts_add (ending : Ending) (t : Template) (item : Item) :
    ErrorsIn (Error.OfParts (item.texts ++ ending.texts) item.Whole)
      (Template.add ending t item) := by
  cases item with
  | line text => simp [Template.add, Error.OfParts, Problem.isUnfinished, Item.texts]
  | directive name value raw =>
    refine errorsIn_mono (ofParts_addDirective t name value raw True) fun e he => he.mono ?_ id
    simp [Item.texts]
  | stray raw => simp [Template.add, Error.OfParts, Item.texts, Item.Whole]
  | block header raw inner gap =>
    refine errorsIn_bind ?_ fun heading _ => ofParts_addBlock t (errorsIn_ok _) heading
    refine errorsIn_mono (ofParts_heading header raw True) fun e he => he.mono ?_ fun _ => trivial
    simp [Item.texts]
  | unclosed header raw inner =>
    refine errorsIn_bind ?_ fun heading _ => ofParts_addBlock t (errorsIn_error.mpr ?_) heading
    · refine errorsIn_mono (ofParts_heading header raw False) fun e he => he.mono ?_ id
      simp [Item.texts]
    · refine (ofParts_unclosedError ending header).mono ?_ id
      intro text htext
      rcases List.mem_cons.mp htext with rfl | htext
      · simp [Item.texts]
      · exact List.mem_append_right _ htext

/-- The texts of an item are among those of its source, and an item is as whole as its source. -/
theorem Error.OfParts.ofItem {r : Lexed} {item : Item} {e : Error} (hitem : item ∈ items r.lexemes)
    (h : e.OfParts (item.texts ++ r.ending.texts) item.Whole) : e.OfParts r.texts r.Whole := by
  refine h.mono ?_ fun hwhole => closes_iff_whole.mp hwhole.closes item hitem
  intro text htext
  rcases List.mem_append.mp htext with htext | htext
  · exact List.mem_append_left _ (List.mem_flatMap.mpr ⟨item, hitem, htext⟩)
  · exact List.mem_append_right _ htext

theorem ofParts_parse (source : Text) :
    ErrorsIn (Error.OfParts (lex source).texts (lex source).Whole) (Template.parse source) := by
  refine errorsIn_bind (errorsIn_foldlM ?_ _) fun t _ =>
    errorsIn_mono (ofParts_finish _ t) fun _ he => he.ofEnding
  intro t item hitem
  exact errorsIn_mono (ofParts_add _ t item) fun e he => he.ofItem hitem

theorem ofSource_parse (source : Text) : ErrorsIn Error.OfSource (Template.parse source) :=
  errorsIn_mono (ofParts_parse source) fun _ he => he.ofSource

/-! ## Class bodies -/

theorem ofParts_selector (header raw : Text) (whole : Prop) :
    ErrorsIn (Error.OfParts [raw] whole) (ClassBody.selector header raw) := by
  unfold ClassBody.selector
  split
  · simp [Error.OfParts, Problem.isUnfinished]
  · split <;> simp [Error.OfParts, Problem.isUnfinished]

theorem ofParts_bodyDirective (b : ClassBody) (name value raw : Text) (whole : Prop) :
    ErrorsIn (Error.OfParts [raw] whole) (b.addDirective name value raw) := by
  unfold ClassBody.addDirective
  dsimp only
  repeat' split
  all_goals simp [Error.OfParts, Problem.isUnfinished]

theorem ofParts_bodyItem (ending : Ending) (b : ClassBody) (item : Item) :
    ErrorsIn (Error.OfParts (item.texts ++ ending.texts) item.Whole)
      (ClassBody.add ending b item) := by
  cases item with
  | line text => exact errorsIn_ok _
  | directive name value raw =>
    refine errorsIn_mono (ofParts_bodyDirective b name value raw True) fun e he => he.mono ?_ id
    simp [Item.texts]
  | stray raw => simp [ClassBody.add, Error.OfParts, Item.texts, Item.Whole]
  | block header raw inner gap =>
    refine errorsIn_bind ?_ fun _ _ => errorsIn_bind ?_ fun _ _ => errorsIn_pure _
    · refine errorsIn_mono (ofParts_selector header raw True)
        fun e he => he.mono ?_ fun _ => trivial
      simp [Item.texts]
    · refine errorsIn_mono (ofParts_linesOf header inner) fun e he => he.mono ?_ id
      simp +contextual [Item.texts]
  | unclosed header raw inner =>
    refine errorsIn_bind ?_ fun _ _ => errorsIn_bind ?_ fun _ _ => errorsIn_error.mpr ?_
    · refine errorsIn_mono (ofParts_selector header raw False) fun e he => he.mono ?_ id
      simp [Item.texts]
    · refine errorsIn_mono (ofParts_linesOf header inner) fun e he => he.mono ?_ fun h => h.elim
      simp +contextual [Item.texts]
    · refine (ofParts_unclosedError ending header).mono ?_ id
      intro text htext
      rcases List.mem_cons.mp htext with rfl | htext
      · simp [Item.texts]
      · exact List.mem_append_right _ htext

theorem ofParts_parseBody (body : Text) :
    ErrorsIn (Error.OfParts (lex body).texts (lex body).Whole) (ClassBody.parse body) := by
  refine errorsIn_bind (errorsIn_foldlM ?_ _) fun b _ =>
    errorsIn_mono (ofParts_finish _ b) fun _ he => he.ofEnding
  intro b item hitem
  exact errorsIn_mono (ofParts_bodyItem _ b item) fun e he => he.ofItem hitem

/-! ## Lines -/

theorem ofLine_classify (line : Text) : ErrorsIn (Error.OfLine line) (Line.classify line) := by
  unfold Line.classify
  repeat' split
  all_goals simp

theorem ofLine_declaration (env : Setting) (raw : Text) :
    ErrorsIn (Error.OfLine env.line) (env.declaration raw) := by
  unfold Setting.declaration Setting.malformed
  split <;> simp

theorem ofLine_checkImportant (env : Setting) (d : Declaration) :
    ErrorsIn (Error.OfLine env.line) (env.checkImportant d) := by
  unfold Setting.checkImportant Setting.notAllowed
  split <;> simp [Error.OfLine]

theorem ofLine_writeTypography (env : Setting) (place : Place) (d : Declaration) (g : Group) :
    (Group.writeTypography env place d g).StopsIn (Error.OfLine env.line) := by
  unfold Group.writeTypography
  split
  · rename_i e he
    exact Attempt.stopsIn_stop.mpr (ofLine_checkImportant env d e he)
  · dsimp only
    split
    · simp [Error.OfLine]
    · refine Attempt.stopsIn_forEach ?_ g
      intro entry _ g'
      unfold Group.writeProperty
      split <;> simp [Error.OfLine]

theorem ofLine_writeRuntime (env : Setting) (place : Place) (d : Declaration) (property : Text)
    (g : Group) : ErrorsIn (Error.OfLine env.line) (Group.writeRuntime env place d property g) := by
  unfold Group.writeRuntime Setting.notAllowed
  repeat' split
  all_goals simp [Error.OfLine]

theorem ofLine_writePlain (env : Setting) (d : Declaration) (property : Text) (g : Group) :
    ErrorsIn (Error.OfLine env.line) (Group.writePlain env d property g) := by
  unfold Group.writePlain Setting.notAllowed
  dsimp only
  repeat' split
  all_goals simp [Error.OfLine]

theorem ofLine_writeAbbreviation (env : Setting) (place : Place) (d : Declaration) (g : Group) :
    ErrorsIn (Error.OfLine env.line) (Group.writeAbbreviation env place d g) := by
  unfold Group.writeAbbreviation Setting.malformed
  split
  · simp [Error.OfLine]
  · split
    · simp
    · split
      · rename_i e he
        exact errorsIn_error.mpr (ofLine_checkImportant env d e he)
      · split
        · exact ofLine_writeRuntime env place d _ g
        · exact ofLine_writePlain env d _ g

theorem ofLine_writeContent (env : Setting) (d : Declaration) (g : Group) :
    ErrorsIn (Error.OfLine env.line) (Group.writeContent env d g) := by
  unfold Group.writeContent Setting.malformed
  split
  · simp
  · split
    · rename_i e he
      exact errorsIn_error.mpr (ofLine_checkImportant env d e he)
    · exact errorsIn_ok _

theorem ofLine_write (env : Setting) (place : Place) (d : Declaration) (g : Group) :
    (Group.write env place d g).StopsIn (Error.OfLine env.line) := by
  unfold Group.write Setting.malformed
  split
  · exact Attempt.stopsIn_ofExcept (ofLine_writeContent env d g)
  · split
    · simp
    · split
      · split
        · simp
        · exact ofLine_writeTypography env place d g
      · exact Attempt.stopsIn_ofExcept (ofLine_writeAbbreviation env place d g)

theorem ofLine_writeAll (env : Setting) (place : Place) (raws : List Text) (g : Group) :
    (Group.writeAll env place raws g).StopsIn (Error.OfLine env.line) := by
  refine Attempt.stopsIn_forEach ?_ g
  intro raw _ g'
  unfold Group.writeRaw
  split
  · rename_i e he
    exact Attempt.stopsIn_stop.mpr (ofLine_declaration env raw e he)
  · exact ofLine_write env place _ g'

theorem ofLine_declareLocal (env : Setting) (d : Declaration) (s : Style) :
    ErrorsIn (Error.OfLine env.line) (s.declareLocal env d) := by
  unfold Style.declareLocal Setting.notAllowed Setting.malformed
  repeat' split
  all_goals simp [Error.OfLine]

theorem ofLine_keepGroup {line : Text} {a : Attempt Group} (h : a.StopsIn (Error.OfLine line))
    (s : Style) (place : Place) : (s.keepGroup place a).StopsIn (Error.OfLine line) := by
  unfold Style.keepGroup
  split
  · rename_i e he
    exact Attempt.stopsIn_stop.mpr (h e he)
  · exact Attempt.stopsIn_done _

theorem ofLine_addDeclaration (env : Setting) (s : Style) :
    (s.addDeclaration env).StopsIn (Error.OfLine env.line) := by
  unfold Style.addDeclaration
  split
  · rename_i e he
    exact Attempt.stopsIn_stop.mpr (ofLine_declaration env _ e he)
  · split
    · exact Attempt.stopsIn_ofExcept (ofLine_declareLocal env _ s)
    · exact ofLine_keepGroup (ofLine_write env .base _ _) s .base

theorem ofLine_addList (env : Setting) (place : Place) (name body : Text) (s : Style) :
    (s.addList env place name body).StopsIn (Error.OfLine env.line) := by
  unfold Style.addList Setting.malformed
  dsimp only
  split
  · simp
  · exact ofLine_keepGroup (ofLine_writeAll env place _ _) s place

theorem ofLine_query (env : Setting) (m : Medium) (condition : Text) :
    ErrorsIn (Error.OfLine env.line) (Condition.query env m condition) := by
  refine errorsIn_bind ?_ fun full _ => errorsIn_bind (ofLine_declaration env full) fun d _ =>
    errorsIn_bind ?_ fun property _ => ?_
  · unfold Condition.expand
    repeat' split
    all_goals simp [Error.OfLine]
  · unfold Condition.property
    repeat' split
    all_goals simp [Error.OfLine]
  · dsimp only
    split <;> simp [Error.OfLine]

theorem ofLine_mediaBlock (env : Setting) (m : Medium) (body : Text) :
    ErrorsIn (Error.OfLine env.line) (Style.mediaBlock env m body) := by
  unfold Style.mediaBlock Setting.malformed
  split
  · dsimp only
    split
    · simp
    · refine errorsIn_bind (ofLine_query env m _) fun query _ => ?_
      split
      · simp
      · exact errorsIn_bind (Attempt.errorsIn_toExcept (ofLine_writeAll env _ _ _)) fun g _ =>
          errorsIn_ok _
  · simp

theorem ofLine_addLine (theme : Theme) (context : Context) (line : Text) (s : Style) :
    (s.addLine theme context line).StopsIn (Error.OfLine (Text.trim line)) := by
  unfold Style.addLine
  dsimp only
  split
  · exact Attempt.stopsIn_done s
  · split
    · rename_i e he
      exact Attempt.stopsIn_stop.mpr (ofLine_classify _ e he)
    · exact ofLine_addDeclaration _ s
    · exact ofLine_addList _ _ _ _ s
    · exact ofLine_addList _ _ _ _ s
    · exact Attempt.stopsIn_ofExcept (errorsIn_map (ofLine_mediaBlock _ _ _))

/-- Of several lines one is to blame. -/
theorem ofLine_ofLines (theme : Theme) (context : Context) (lines : List Text) :
    ErrorsIn (fun e => ∃ line ∈ lines, e.OfLine (Text.trim line))
      (Style.ofLines theme context lines) := by
  refine Attempt.errorsIn_toExcept (Attempt.stopsIn_forEach ?_ _)
  intro line hline s e he
  exact ⟨line, hline, ofLine_addLine theme context line s e he⟩

/-! ## Constants and classes -/

/-- A constant is refused like a part of its body, or for a brace without its partner. Then the
error shows the name of the constant instead. -/
theorem errors_parseConst (name body : Text) :
    ErrorsIn (fun e =>
      e.OfParts ((lex body).lexemes.map Lexeme.raw ++ (lex body).ending.texts) (lex body).Whole ∨
        (e = .malformed .unmatchedBrace ("@const " ++ name) ∧ ¬(lex body).Whole))
      (ConstBody.parse name body) := by
  refine errorsIn_bind (errorsIn_mono (errors_linesOf _ _) ?_) fun lines _ =>
    errorsIn_mono (ofParts_finish (lex body) lines) fun e he => Or.inl he.ofEnding
  rintro e (⟨l, hl, problem, rfl, hproblem⟩ | ⟨rfl, hopen⟩)
  · exact Or.inl ⟨List.mem_append_left _ (List.mem_map_of_mem hl), fun h => absurd h hproblem⟩
  · exact Or.inr ⟨rfl, fun hwhole => hopen hwhole.closes⟩

theorem ofSource_compileConst (theme : Theme) (name body : Text) :
    ErrorsIn Error.OfSource (ConstBody.compile theme name body) := by
  refine errorsIn_bind (errorsIn_mono (errors_parseConst name body) ?_) fun lines _ =>
    errorsIn_mono (ofLine_ofLines theme _ lines) ?_
  · rintro e (he | ⟨rfl, -⟩)
    · exact he.ofSource
    · simp [Error.OfSource, Error.kind]
  · rintro e ⟨line, -, he⟩
    exact he.ofSource

/-- What a class can be refused for once its body is read: one of its lines, or a constant that it
uses and that is not known. -/
inductive ClassBody.Blames (b : ClassBody) : Error → Prop
  | line {line : Text} {e : Error} (hline : line ∈ b.lines ∨ ∃ q ∈ b.queries, line ∈ q.lines)
      (he : e.OfLine (Text.trim line)) : Blames b e
  | use {name : Text} (hname : name ∈ b.uses) :
      Blames b (.unknownConst name ("@use " ++ Text.join " " b.uses))

theorem blames_compile (theme : Theme) (consts : Consts) (b : ClassBody) :
    ErrorsIn b.Blames (b.compile theme consts) := by
  refine errorsIn_bind (errorsIn_mono (ofLine_ofLines theme _ _) ?_) fun own _ =>
    errorsIn_bind (errorsIn_mapM ?_) fun queries _ =>
      errorsIn_bind (errorsIn_mapM ?_) fun used _ => errorsIn_pure _
  · rintro e ⟨line, hline, he⟩
    exact .line (Or.inl hline) he
  · intro q hq
    refine errorsIn_bind (errorsIn_mono (ofLine_ofLines theme _ _) ?_)
      fun style _ => errorsIn_pure _
    rintro e ⟨line, hline, he⟩
    exact .line (Or.inr ⟨q, hq, hline⟩) he
  · intro name hname
    split
    · exact errorsIn_ok _
    · exact errorsIn_error.mpr (.use hname)

theorem ClassBody.Blames.ofSource {b : ClassBody} {e : Error} (h : b.Blames e) : e.OfSource := by
  cases h with
  | line _ he => exact he.ofSource
  | use _ => simp [Error.OfSource, Error.kind]

/-- A class by itself never fails for what was declared before. -/
theorem ofSource_ofBody (theme : Theme) (seed : UInt32) (consts : Consts) (scope cls body : Text) :
    ErrorsIn Error.OfSource (CompiledClass.ofBody theme seed consts scope cls body) := by
  refine errorsIn_bind (errorsIn_mono (ofParts_parseBody body) fun _ he => he.ofSource) fun b _ =>
    errorsIn_bind (errorsIn_mono (blames_compile theme consts b) fun _ he => he.ofSource)
      fun style _ => errorsIn_bind ?_ fun named _ => errorsIn_pure _
  unfold StyleTree.finalize
  split <;> simp [Error.OfSource, Error.kind]

/-! ## Binds -/

theorem ofSource_addBind (sheet : Sheet) (bind : Bind) :
    ErrorsIn Error.OfSource (sheet.addBind bind) := by
  unfold Sheet.addBind
  split
  · simp [Error.OfSource, Error.kind]
  · apply errorsIn_map
    apply errorsIn_mapM
    intro cls _
    split <;> simp [Error.OfSource, Error.kind]

end TerseCss
