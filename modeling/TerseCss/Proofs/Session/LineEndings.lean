-- A template compiles to the same sheet whether its lines end with a line feed or with a carriage
-- return and a line feed. The two readings of a source agree, so each step of the compilation
-- agrees with its counterpart and leaves the same session behind.
import TerseCss.Proofs.Source.LineEndings
import TerseCss.Session.Sheet

namespace TerseCss

/-! ## Steps side by side -/

/-- The steps give values that `R` relates or errors that are alike, leave the same session behind
and give the same warnings. -/
structure Step.Alike {α β : Type} (R : α → β → Prop) (step : Step α) (step' : Step β) : Prop where
  session : step'.session = step.session
  warnings : step'.warnings = step.warnings
  result : Agree Error.Alike R step.result step'.result

section Step

variable {α α' β β' : Type} {R : α → α' → Prop} {S : β → β' → Prop}

theorem Step.Alike.refl (step : Step α) : step.Alike Eq step :=
  ⟨rfl, rfl, agree_refl Error.Alike.refl _⟩

theorem alike_ofExcept (s : Session) {r : Except Error α} {r' : Except Error α'}
    (h : Agree Error.Alike R r r') : (Step.ofExcept s r).Alike R (.ofExcept s r') :=
  ⟨rfl, rfl, h⟩

theorem Step.Alike.andThen {step : Step α} {step' : Step α'} {next : Session → α → Step β}
    {next' : Session → α' → Step β'} (h : step.Alike R step')
    (hnext : ∀ s a a', R a a' → (next s a).Alike S (next' s a')) :
    (step.andThen next).Alike S (step'.andThen next') := by
  obtain ⟨hsession, hwarnings, hresult⟩ := h
  unfold Step.andThen
  generalize step.result = r at hresult
  generalize step'.result = r' at hresult
  cases hresult with
  | error h => exact ⟨hsession, hwarnings, .error h⟩
  | @ok a a' h =>
    obtain ⟨hs, hw, hr⟩ := hnext step.session a a' h
    dsimp only
    rw [hsession, hwarnings]
    exact ⟨hs, congrArg (step.warnings ++ ·) hw, hr⟩

end Step

/-! ## The parts of a template -/

theorem CompiledClass.agree_ofBody (theme : Theme) (seed : UInt32) (consts : Consts)
    (scope cls body : Text) :
    Agree Error.Alike Eq (ofBody theme seed consts scope cls body)
      (ofBody theme seed consts scope cls body.withReturns) := by
  refine (ClassBody.agree_parse body).bind ?_
  rintro b _ rfl
  exact agree_refl Error.Alike.refl _

namespace Session

theorem alike_compileClass (s : Session) (consts : Consts) (scope cls body : Text) :
    (s.compileClass consts scope cls body).Alike Eq
      (s.compileClass consts scope cls body.withReturns) := by
  unfold compileClass
  split
  · exact .refl _
  · refine (Step.Alike.refl _).andThen fun s _ _ _ => ?_
    have hclass := CompiledClass.agree_ofBody s.theme s.options.seed consts scope cls body
    generalize CompiledClass.ofBody _ _ _ _ _ body = c at hclass ⊢
    generalize CompiledClass.ofBody _ _ _ _ _ body.withReturns = c' at hclass ⊢
    cases hclass with
    | error h => exact ⟨rfl, rfl, .error h⟩
    | ok h =>
      obtain rfl := h
      exact .refl _

theorem agree_constants (theme : Theme) (t : Template) :
    Agree Error.Alike Eq (t.constants theme) (t.withReturns.constants theme) := by
  have hblocks : List.Forall₂ (fun b b' => b' = RawBlock.withReturns b) t.consts
      (t.consts.map RawBlock.withReturns) := by
    rw [List.forall₂_map_right_iff, List.forall₂_same]
    exact fun _ _ => rfl
  refine Agree.foldlM hblocks rfl ?_
  rintro consts _ block _ rfl rfl
  refine Agree.bind (R := Eq) ((ConstBody.agree_parse block.name block.body).bind ?_) ?_
  · rintro lines _ rfl
    exact agree_refl Error.Alike.refl _
  · rintro style _ rfl
    exact agree_refl Error.Alike.refl _

theorem alike_compileClasses (consts : Consts) (scope : Text) (blocks : List RawBlock)
    (s : Session) (sheet : Sheet) :
    (compileClasses consts scope blocks s sheet).Alike Eq
      (compileClasses consts scope (blocks.map RawBlock.withReturns) s sheet) := by
  induction blocks generalizing s sheet with
  | nil => exact .refl _
  | cons block blocks ih =>
    refine (alike_compileClass s consts scope block.name block.body).andThen ?_
    rintro s c _ rfl
    exact ih s _

theorem alike_compileParts (s : Session) (t : Template) :
    (s.compileParts t).Alike Eq (s.compileParts t.withReturns) := by
  refine (Step.Alike.refl _).andThen fun s _ _ _ => ?_
  refine (alike_ofExcept s (agree_constants s.theme t)).andThen ?_
  rintro s consts _ rfl
  refine (alike_compileClasses consts _ t.classes s _).andThen ?_
  rintro s sheet _ rfl
  exact .refl _

theorem alike_compileTemplate (s : Session) (source : Text) :
    (s.compileTemplate source).Alike Eq (s.compileTemplate source.withReturns) := by
  have hstep : ((Step.ofExcept s (Template.parse source)).andThen compileParts).Alike Eq
      ((Step.ofExcept s (Template.parse source.withReturns)).andThen compileParts) := by
    refine (alike_ofExcept s (Template.agree_parse source)).andThen ?_
    rintro s t _ rfl
    exact alike_compileParts s t
  unfold compileTemplate
  generalize (Step.ofExcept s (Template.parse source)).andThen compileParts = step at hstep ⊢
  generalize (Step.ofExcept s (Template.parse source.withReturns)).andThen compileParts = step'
    at hstep ⊢
  obtain ⟨hsession, hwarnings, hresult⟩ := hstep
  obtain ⟨after, r, warnings⟩ := step
  obtain ⟨after', r', warnings'⟩ := step'
  dsimp only at hsession hwarnings hresult
  subst hsession hwarnings
  cases hresult with
  | ok h => exact ⟨rfl, rfl, .ok h⟩
  | error h => exact ⟨rfl, rfl, .error h⟩

/-- Line endings do not matter. A source and the same source with a carriage return in front of
each line feed give the same sheet, or both fail, with the same cause and the same details but for
blanks at the end of the line that the error shows. The session and the warnings are the same
in both cases. -/
theorem line_endings_do_not_matter (s : Session) (source : Text) :
    let feeds := s.compileTemplate source
    let returns := s.compileTemplate source.withReturns
    ((∃ sheet, feeds.result = .ok sheet ∧ returns.result = .ok sheet) ∨
      ∃ e e', feeds.result = .error e ∧ returns.result = .error e' ∧ e.Alike e') ∧
    returns.session = feeds.session ∧ returns.warnings = feeds.warnings := by
  intro feeds returns
  obtain ⟨hsession, hwarnings, hresult⟩ := alike_compileTemplate s source
  refine ⟨?_, hsession, hwarnings⟩
  change Agree Error.Alike Eq feeds.result returns.result at hresult
  generalize feeds.result = r at hresult ⊢
  generalize returns.result = r' at hresult ⊢
  cases hresult with
  | @ok sheet sheet' h => exact .inl ⟨sheet, rfl, congrArg _ h.symm⟩
  | @error e e' h => exact .inr ⟨e, e', rfl, rfl, h⟩

/-- A source with a comment over two lines, a class and a bind. -/
theorem line_endings_do_not_matter_for_a_bind :
    let source : Text := "@scope app\n/* a\nb */\n.box \x7b\n p[1px]\n\x7d\n@bind main .box\n"
    let rule : Text := ".box_jQrCpF\x7bpadding:1px\x7d"
    let sheet : Sheet :=
      { scope := some "app".toList
        classes := .ofList [("box", "box_jQrCpF"), ("main", "box_jQrCpF")]
        css := rule }
    let returns := ({} : Session).compileTemplate source.withReturns
    source.withReturns ≠ source ∧ returns.result = .ok sheet ∧
      returns.session.pending = [rule] := by
  intro source rule sheet returns
  have hreturns : source.withReturns ≠ source := by decide +kernel
  have hfeeds : (({} : Session).compileTemplate source).result = .ok sheet := by decide +kernel
  have hqueued : (({} : Session).compileTemplate source).session.pending = [rule] := by
    decide +kernel
  obtain ⟨hresult, hsession, -⟩ := line_endings_do_not_matter {} source
  refine ⟨hreturns, ?_, (congrArg Session.pending hsession).trans hqueued⟩
  rcases hresult with ⟨sheet', hfeeds', hok⟩ | ⟨e, e', herror, -, -⟩
  · rw [hfeeds] at hfeeds'
    cases hfeeds'
    exact hok
  · rw [hfeeds] at herror
    cases herror

end Session

end TerseCss
