-- Failed calls. A session only grows while a template is compiled: what was noted and queued before
-- stands in front of what is new. So cutting both lists back to their old lengths, and declaring
-- again what was declared, gives the session as it was.
import TerseCss.Proofs.Outcome
import TerseCss.Session.Sheet

namespace TerseCss.Session

/-! ## Growth -/

/-- The later session has the options and the theme of the earlier one, and its diagnostics and
pending rules begin with those of the earlier one. -/
structure Extends (s later : Session) : Prop where
  options : later.options = s.options
  theme : later.theme = s.theme
  diagnostics : s.diagnostics <+: later.diagnostics
  pending : s.pending <+: later.pending

variable {α β : Type}

theorem Extends.refl (s : Session) : Extends s s :=
  ⟨rfl, rfl, List.prefix_refl _, List.prefix_refl _⟩

theorem Extends.trans {s t u : Session} (h : Extends s t) (h' : Extends t u) : Extends s u :=
  ⟨h'.options.trans h.options, h'.theme.trans h.theme, h.diagnostics.trans h'.diagnostics,
    h.pending.trans h'.pending⟩

/-- Two steps extend the session if each of them does. -/
theorem extends_andThen {s : Session} {step : Step α} {next : Session → α → Step β}
    (h : Extends s step.session) (hnext : ∀ t a, Extends t (next t a).session) :
    Extends s (step.andThen next).session := by
  unfold Step.andThen
  split
  · exact h
  · exact h.trans (hnext _ _)

theorem extends_report (s : Session) (e : Error) : Extends s (s.report e).session := by
  unfold report
  split
  · exact Extends.refl s
  · exact ⟨rfl, rfl, List.prefix_append _ _, List.prefix_refl _⟩

theorem extends_compileClass (s : Session) (consts : Consts) (scope cls body : Text) :
    Extends s (s.compileClass consts scope cls body).session := by
  unfold compileClass
  split
  · exact Extends.refl s
  · apply extends_andThen
    · split
      · exact extends_report s _
      · exact Extends.refl s
    · intro t _
      split
      · exact Extends.refl t
      · exact ⟨rfl, rfl, List.prefix_refl _, List.prefix_append _ _⟩

theorem extends_registerScope? (s : Session) (scope? : Option Text) :
    Extends s (s.registerScope? scope?).session := by
  cases scope? with
  | none => exact Extends.refl s
  | some scope =>
    simp only [registerScope?, registerScope]
    split
    · exact extends_report s _
    · exact ⟨rfl, rfl, List.prefix_refl _, List.prefix_refl _⟩

theorem extends_compileClasses (consts : Consts) (scope : Text) (blocks : List RawBlock)
    (s : Session) (sheet : Sheet) :
    Extends s (compileClasses consts scope blocks s sheet).session := by
  induction blocks generalizing s sheet with
  | nil => exact Extends.refl s
  | cons block blocks ih =>
    unfold compileClasses
    exact extends_andThen (extends_compileClass s consts scope _ _) fun t c => ih t _

theorem extends_compileParts (s : Session) (t : Template) :
    Extends s (s.compileParts t).session := by
  apply extends_andThen (extends_registerScope? s t.scope)
  intro u _
  apply extends_andThen (Extends.refl u)
  intro u consts
  apply extends_andThen (extends_compileClasses consts _ _ u _)
  exact fun u sheet => Extends.refl u

/-! ## Going back -/

/-- Going back from a session that has only grown gives the session as it was. -/
theorem rollback_of_extends {s later : Session} (h : Extends s later) : later.rollback s = s := by
  have hp : later.pending.take s.pending.length = s.pending :=
    List.prefix_iff_eq_take.mp h.pending |>.symm
  have hd : later.diagnostics.take s.diagnostics.length = s.diagnostics :=
    List.prefix_iff_eq_take.mp h.diagnostics |>.symm
  unfold rollback restore
  rw [hp, hd, h.options, h.theme]

/-- A template that fails is taken back. -/
theorem session_of_failed_template {s : Session} {source : Text} {e : Error}
    (h : (s.compileTemplate source).result = .error e) :
    (s.compileTemplate source).session = s := by
  have hstep : Extends s
      ((Step.ofExcept s (Template.parse source)).andThen compileParts).session :=
    extends_andThen (Extends.refl s) extends_compileParts
  unfold compileTemplate at h ⊢
  dsimp only at h ⊢
  split at h
  · rename_i sheet hok
    rw [hok] at h
    cases h
  · rename_i hfail
    rw [hfail]
    exact rollback_of_extends hstep

/-- What a class leaves behind when it fails: nothing, or the one diagnostic of a class that stood
before. -/
theorem session_of_failed_class {s : Session} {consts : Consts} {scope cls body : Text} {e : Error}
    (h : (s.compileClass consts scope cls body).result = .error e) :
    (s.compileClass consts scope cls body).session =
      if s.options.mode = .development ∧ Text.isName cls ∧ s.registry.hasClass scope cls then
        { s with diagnostics := s.diagnostics ++ [(Error.duplicateClass scope cls).diagnostic] }
      else s := by
  unfold compileClass at h ⊢
  by_cases hn : Text.isName cls
  · simp only [hn, Bool.not_true, Bool.false_eq_true, if_false] at h ⊢
    by_cases hc : s.registry.hasClass scope cls
    · cases hm : s.options.mode with
      | strict => simp [hc, report, hm, Step.andThen, Step.fail]
      | development =>
        -- The note is made before the body is looked at, so it is there when the body fails.
        simp only [hc, if_true, report, hm, Step.andThen] at h ⊢
        split at h
        · rfl
        · cases h
    · simp only [hc, Bool.false_eq_true, and_false, if_false, Step.andThen, Step.ok] at h ⊢
      split at h
      · rfl
      · cases h
  · simp [hn, Step.fail]

/-- A class that fails declares nothing and queues nothing. -/
theorem kept_by_failed_class {s : Session} {consts : Consts} {scope cls body : Text} {e : Error}
    (h : (s.compileClass consts scope cls body).result = .error e) :
    (s.compileClass consts scope cls body).session.registry = s.registry ∧
      (s.compileClass consts scope cls body).session.pending = s.pending := by
  rw [session_of_failed_class h]
  split <;> exact ⟨rfl, rfl⟩

/-! ## The laws -/

/-- A call that fails leaves no trace. A template gives back the session as it was, wherever it
failed. A class that is compiled directly does so too, save that in development mode the note
about a class that stood before stays. -/
theorem a_failed_call_leaves_no_trace (s : Session) :
    (∀ source e, (s.compileTemplate source).result = .error e →
      (s.compileTemplate source).session = s) ∧
    ∀ consts scope cls body e, (s.compileClass consts scope cls body).result = .error e →
      (s.compileClass consts scope cls body).session =
        if s.options.mode = .development ∧ Text.isName cls ∧ s.registry.hasClass scope cls then
          { s with diagnostics := s.diagnostics ++ [(Error.duplicateClass scope cls).diagnostic] }
        else s := by
  exact ⟨fun source e => session_of_failed_template,
    fun consts scope cls body e => session_of_failed_class⟩

/-- A second class that is wrong takes back a scope and a first class that were both noted as
standing already, and the rules of the first. -/
theorem a_failed_call_leaves_no_trace_midway :
    let s : Session :=
      { options := { mode := .development }
        registry := { scopes := ["app"], classes := ["app:box"] }
        diagnostics := [(Error.duplicateScope "old").diagnostic]
        pending := [".old\x7b\x7d"] }
    let source : Text := "@scope app\n.box \x7b\n p[1px]\n\x7d\n.bad \x7b\n zz[1px]\n\x7d"
    let step := s.compileClass ∅ "app" "box" "zz[1px]"
    (s.compileTemplate source).session = s ∧
      step.session.diagnostics =
        s.diagnostics ++ [(Error.duplicateClass "app" "box").diagnostic] := by
  intro s source step
  have htemplate : (s.compileTemplate source).result =
      .error (.unknownAbbreviation "zz" "zz[1px]") := by decide +kernel
  have hclass : step.result.map (fun _ => ()) =
      .error (.unknownAbbreviation "zz" "zz[1px]") := by decide +kernel
  obtain ⟨hlaw, hlaw'⟩ := a_failed_call_leaves_no_trace s
  refine ⟨hlaw source _ htemplate, ?_⟩
  have hsession := hlaw' ∅ "app" "box" "zz[1px]" _ (map_eq_error_iff.mp hclass)
  rw [if_pos (by decide)] at hsession
  exact congrArg Session.diagnostics hsession

end TerseCss.Session
