-- The two modes of a session. Development mode gives what a template gives on its own, whatever the
-- session holds; strict mode gives the same or stops at the first thing that was declared before.
import TerseCss.Proofs.Session.Standalone

namespace TerseCss.Session

/-- The same session in a mode. -/
def inMode (s : Session) (m : Mode) : Session := { s with options := { s.options with mode := m } }

/-! ## What a template gives in a session -/

/-- A template that compiles gives what it gives on its own. -/
theorem compileSource_of_ok {s : Session} {source : Text} {sheet : Sheet}
    (h : (s.compileTemplate source).result = .ok sheet) :
    (compileSource s.theme s.options.seed source).map Prod.snd = .ok sheet := by
  obtain ⟨t, rules, ht, hout, -, -⟩ := compileTemplate_ok h
  rw [compileSource_eq_ok ht hout]
  rfl

/-- In development mode a template gives what it gives on its own. -/
theorem result_in_development (s : Session) (source : Text) :
    ((s.inMode .development).compileTemplate source).result =
      (compileSource s.theme s.options.seed source).map Prod.snd := by
  cases h : ((s.inMode .development).compileTemplate source).result with
  | ok sheet => exact (compileSource_of_ok h).symm
  | error e =>
    rcases compileTemplate_error h with hout | ⟨hm, _⟩
    · exact (map_eq_error_iff.mpr hout).symm
    · cases hm

/-- A strict session stops at the first thing that was declared before, or gives what the template
gives on its own. -/
theorem result_in_strict (s : Session) (source : Text) :
    (∃ t e, Template.parse source = .ok t ∧ (s.registry.repeated t).head? = some e ∧
      ((s.inMode .strict).compileTemplate source).result = .error e) ∨
    ((s.inMode .strict).compileTemplate source).result =
      (compileSource s.theme s.options.seed source).map Prod.snd := by
  cases h : ((s.inMode .strict).compileTemplate source).result with
  | ok sheet => exact Or.inr (compileSource_of_ok h).symm
  | error e =>
    rcases compileTemplate_error h with hout | ⟨_, t, ht, hv⟩
    · exact Or.inr (map_eq_error_iff.mpr hout).symm
    · exact Or.inl ⟨t, e, ht, hv, rfl⟩

theorem kind_of_mem_repeatedClasses {r : Registry} {scope : Text} {names : List Text} {e : Error}
    (h : e ∈ r.repeatedClasses scope names) : e.kind = .uniquenessViolation := by
  induction names generalizing r with
  | nil => cases h
  | cons name names ih =>
    rw [Registry.repeatedClasses, List.mem_append, Registry.repeatedClass] at h
    rcases h with h | h
    · split at h
      · rw [List.mem_singleton.mp h]
        rfl
      · cases h
    · exact ih h

/-- What was declared before is a violation of uniqueness. -/
theorem kind_of_mem_repeated {r : Registry} {t : Template} {e : Error} (h : e ∈ r.repeated t) :
    e.kind = .uniquenessViolation := by
  rw [Registry.repeated, List.mem_append] at h
  rcases h with h | h
  · unfold Registry.repeatedScope at h
    split at h
    · split at h
      · rw [List.mem_singleton.mp h]
        rfl
      · cases h
    · cases h
  · exact kind_of_mem_repeatedClasses h

/-! ## The laws -/

/-- Where strict mode compiles a template, development mode leaves the same session behind. -/
theorem session_in_both_modes {s : Session} {source : Text} {sheet : Sheet}
    (h : ((s.inMode .strict).compileTemplate source).result = .ok sheet) :
    ((s.inMode .development).compileTemplate source).session =
      ((s.inMode .strict).compileTemplate source).session.inMode .development ∧
    ((s.inMode .strict).compileTemplate source).session.diagnostics = s.diagnostics := by
  have hdev : ((s.inMode .development).compileTemplate source).result = .ok sheet := by
    have hout := compileSource_of_ok h
    rw [result_in_development]
    exact hout
  obtain ⟨t, rules, ht, hout, hnone, hs⟩ := compileTemplate_ok h
  obtain ⟨t', rules', ht', hout', -, hs'⟩ := compileTemplate_ok hdev
  obtain rfl : t = t' := Except.ok.inj (ht.symm.trans ht')
  have hsame : Except.ok (rules, sheet) = Except.ok (rules', sheet) := hout.symm.trans hout'
  cases hsame
  refine ⟨by rw [hs, hs']; rfl, ?_⟩
  rw [hs, hnone rfl]
  exact List.append_nil _

/-- Development mode only relaxes strict mode, and nothing that a session holds flows into what a
template gives. In development mode a template gives what it gives in a fresh session, which is
never a violation of uniqueness; in strict mode it gives the same, or a violation of uniqueness.
Where strict mode succeeds, both modes declare and queue the same and nothing is noted. Where it
meets a violation and development mode succeeds, that violation is the first thing noted. -/
theorem development_only_relaxes_strict (s : Session) (source : Text) :
    let fresh : Session := { options := { s.options with mode := .development }, theme := s.theme }
    let development := (s.inMode .development).compileTemplate source
    let strict := (s.inMode .strict).compileTemplate source
    development.result = (fresh.compileTemplate source).result ∧
    (∀ e, development.result = .error e → e.kind ≠ .uniquenessViolation) ∧
    ((∃ e, strict.result = .error e ∧ e.kind = .uniquenessViolation) ∨
      strict.result = (fresh.compileTemplate source).result) ∧
    (∀ sheet, strict.result = .ok sheet →
      strict.session.registry = development.session.registry ∧
      strict.session.pending = development.session.pending ∧
      development.session.diagnostics = s.diagnostics) ∧
    ∀ e sheet, strict.result = .error e → e.kind = .uniquenessViolation →
      development.result = .ok sheet →
      ∃ first more, development.session.diagnostics = s.diagnostics ++ first :: more ∧
        first.message = e.message := by
  intro fresh development strict
  have hfresh : (fresh.compileTemplate source).result =
      (compileSource s.theme s.options.seed source).map Prod.snd :=
    result_in_development fresh source
  have hdev : development.result = (fresh.compileTemplate source).result :=
    (result_in_development s source).trans hfresh.symm
  refine ⟨hdev, ?_, ?_, ?_, ?_⟩
  · intro e he
    rw [hdev, hfresh, map_eq_error_iff] at he
    exact ofSource_compileSource _ _ _ e he
  · rcases result_in_strict s source with ⟨t, e, ht, hv, he⟩ | hsame
    · exact Or.inl ⟨e, he, kind_of_mem_repeated (List.mem_of_mem_head? hv)⟩
    · exact Or.inr (hsame.trans hfresh.symm)
  · intro sheet hok
    obtain ⟨hs, hnone⟩ := session_in_both_modes hok
    have hboth : development.session = strict.session.inMode .development := hs
    rw [hboth]
    exact ⟨rfl, rfl, hnone⟩
  · intro e sheet he hkind hok
    rcases result_in_strict s source with ⟨t, e', ht, hv, he'⟩ | hsame
    · obtain rfl : e = e' := Except.error.inj (he.symm.trans he')
      obtain ⟨t', rules, ht', -, -, hs⟩ := compileTemplate_ok hok
      obtain rfl : t = t' := Except.ok.inj (ht.symm.trans ht')
      obtain ⟨more, hmore⟩ := List.head?_eq_some_iff.mp hv
      have hnoted : development.session.diagnostics =
          s.diagnostics ++ (s.registry.repeated t).map Error.diagnostic := by
        rw [hs]
        rfl
      rw [hmore] at hnoted
      exact ⟨e.diagnostic, more.map Error.diagnostic, hnoted, rfl⟩
    · -- The strict session fails here, so it cannot give what succeeds in the other mode.
      have hok' : strict.result = .ok sheet := (hsame.trans hfresh.symm).trans (hdev.symm.trans hok)
      rw [he] at hok'
      cases hok'

/-- A template that is new to one session and known to another. The strict session that knows it
refuses it; the other sessions give the same sheet. -/
theorem development_only_relaxes_strict_box :
    let source : Text := "@scope app\n.box \x7b\n p[1px]\n\x7d"
    let rule : Text := ".box_jQrCpF\x7bpadding:1px\x7d"
    let sheet : Sheet :=
      { scope := some "app".toList, classes := .ofList [("box", "box_jQrCpF")], css := rule }
    let unseen : Session := {}
    let seen : Session :=
      { registry := { scopes := ["app"], classes := ["app:box"] }, pending := ["kept"] }
    (((unseen.inMode .strict).compileTemplate source).result = .ok sheet ∧
      ((unseen.inMode .development).compileTemplate source).session.pending = [rule] ∧
      ((unseen.inMode .development).compileTemplate source).session.diagnostics = []) ∧
    ((seen.inMode .strict).compileTemplate source).result = .error (.duplicateScope "app") ∧
    ((seen.inMode .development).compileTemplate source).result = .ok sheet ∧
      ∃ first more,
        ((seen.inMode .development).compileTemplate source).session.diagnostics = first :: more ∧
        first.message = (Error.duplicateScope "app").message := by
  intro source rule sheet unseen seen
  have hunseen : ((unseen.inMode .strict).compileTemplate source).result = .ok sheet := by
    decide +kernel
  have hqueued : ((unseen.inMode .strict).compileTemplate source).session.pending = [rule] := by
    decide +kernel
  have hstrict : ((seen.inMode .strict).compileTemplate source).result =
      .error (.duplicateScope "app") := by decide +kernel
  have hfresh : ((unseen.inMode .development).compileTemplate source).result = .ok sheet := by
    decide +kernel
  obtain ⟨-, -, -, hsame, -⟩ := development_only_relaxes_strict unseen source
  obtain ⟨hdev, -, -, -, hfirst⟩ := development_only_relaxes_strict seen source
  obtain ⟨-, hpending, hnone⟩ := hsame sheet hunseen
  have hseen := hdev.trans hfresh
  exact ⟨⟨hunseen, hpending.symm.trans hqueued, hnone⟩, hstrict, hseen,
    hfirst _ sheet hstrict rfl hseen⟩

end TerseCss.Session
