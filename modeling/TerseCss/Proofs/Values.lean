-- Values as they are written. No way of writing one makes a placeholder, and one that mentions no
-- local variable is a single text.
import Mathlib.Data.List.Infix
import TerseCss.Value.Reference

namespace TerseCss

theorem Piece.infix_of_localRef_mem {t name : Text} (h : .localRef name ∈ split t) :
    ("--&" : Text) <:+: t := by
  fun_induction split t with
  | case1 => cases h
  | case2 c cs p rest hreference ih =>
    rw [← source_append_of_reference? hreference]
    rcases List.mem_cons.mp h with rfl | h
    · exact ⟨[], name ++ rest, by simp [source]⟩
    · exact (ih h).trans (List.suffix_append _ _).isInfix
  | case3 c cs _ ih =>
    have hmem : .localRef name ∈ split cs := by
      unfold consChar at h
      split at h
      · rename_i hsplit
        rw [hsplit]
        rcases List.mem_cons.mp h with h | h
        · cases h
        · exact List.mem_cons_of_mem _ h
      · rcases List.mem_cons.mp h with h | h
        · cases h
        · exact h
    exact (ih hmem).trans (List.suffix_cons _ _).isInfix

namespace Value

/-! ## Placeholders -/

theorem mem_consText {x : Segment} {t : Text} {ss : List Segment} (h : x ∈ consText t ss) :
    x ∈ ss ∨ ∃ u, x = .text u := by
  unfold consText at h
  split at h
  · rcases List.mem_cons.mp h with rfl | h
    · exact Or.inr ⟨_, rfl⟩
    · exact Or.inl (List.mem_cons_of_mem _ h)
  · rcases List.mem_cons.mp h with rfl | h
    · exact Or.inr ⟨_, rfl⟩
    · exact Or.inl h

theorem runtimeRef_not_mem_segmentsAfter (before key : Text) (ps : List Piece) :
    .runtimeRef key ∉ segmentsAfter before ps := by
  induction ps generalizing before with
  | nil => simp [segmentsAfter]
  | cons p ps ih =>
    intro h
    cases p with
    | literal t =>
      rcases mem_consText h with h | ⟨u, h⟩
      · exact ih _ h
      · cases h
    | custom name =>
      rcases mem_consText h with h | ⟨u, h⟩
      · exact ih _ h
      · cases h
    | localRef name =>
      rcases List.mem_cons.mp h with h | h
      · cases h
      · exact ih _ h

/-- No way of writing a value makes a placeholder. -/
theorem runtimeRef_not_mem_ofRaw (raw key : Text) (important : Bool) :
    .runtimeRef key ∉ (ofRaw raw important).segments := by
  unfold ofRaw normalize
  have h := runtimeRef_not_mem_segmentsAfter [] key (Piece.split raw)
  split
  · simp
  · exact h

theorem isRuntime_ofRaw (raw : Text) (important : Bool) :
    (ofRaw raw important).isRuntime = false := by
  have h := fun key => runtimeRef_not_mem_ofRaw raw key important
  generalize ofRaw raw important = v at h
  unfold isRuntime
  split
  · rename_i key hsegments
    exact absurd (hsegments ▸ List.mem_singleton.mpr rfl) (h key)
  · rfl

/-! ## Local variables -/

theorem segmentsAfter_eq_text {ps : List Piece} (hne : ps ≠ [])
    (h : ∀ name, .localRef name ∉ ps) (before : Text) :
    ∃ t, segmentsAfter before ps = [.text t] := by
  induction ps generalizing before with
  | nil => exact absurd rfl hne
  | cons p ps ih =>
    -- The text of the piece joins the text of the pieces behind it, if there are any.
    have hjoin : ∀ (t before : Text), ∃ u, consText t (segmentsAfter before ps) = [.text u] := by
      intro t before
      by_cases hps : ps = []
      · subst hps
        exact ⟨t, rfl⟩
      · obtain ⟨u, hu⟩ := ih hps (fun name hname => h name (List.mem_cons_of_mem _ hname)) before
        rw [hu]
        exact ⟨t ++ u, rfl⟩
    cases p with
    | literal t => exact hjoin t _
    | custom name => exact hjoin _ _
    | localRef name => exact absurd List.mem_cons_self (h name)

theorem normalize_of_no_localRef {raw : Text} (h : ∀ name, .localRef name ∉ Piece.split raw) :
    ∃ t, normalize raw = [.text t] := by
  unfold normalize
  generalize Piece.split raw = ps at h ⊢
  by_cases hne : ps = []
  · subst hne
    exact ⟨[], rfl⟩
  · obtain ⟨t, ht⟩ := segmentsAfter_eq_text hne h []
    rw [ht]
    exact ⟨t, rfl⟩

theorem normalize_of_not_infix {raw : Text} (h : ¬("--&" : Text) <:+: raw) :
    ∃ t, normalize raw = [.text t] :=
  normalize_of_no_localRef fun _ hname => h (Piece.infix_of_localRef_mem hname)

theorem render_text (t : Text) (important : Bool) :
    ({ segments := [.text t], important } : Value).render =
      t ++ (if important then "!important" else [] : Text) := by
  have htext : [Segment.text t].flatMap Segment.render = t := List.append_nil t
  rw [render, htext]

theorem normalizeText?_of_text {raw t : Text} (h : normalize raw = [.text t]) :
    normalizeText? raw = some t := by
  have hraw : ofRaw raw false = { segments := [.text t], important := false } := by rw [ofRaw, h]
  have hlocal : ({ segments := [.text t], important := false } : Value).hasLocalRefs = false := rfl
  rw [normalizeText?, hraw, hlocal, render_text]
  simp

/-- A value without a local variable is one text. -/
theorem ofRaw_of_not_infix {raw : Text} (h : ¬("--&" : Text) <:+: raw) :
    ∃ t, normalizeText? raw = some t ∧
      ∀ important, ofRaw raw important = { segments := [.text t], important } := by
  obtain ⟨t, ht⟩ := normalize_of_not_infix h
  refine ⟨t, normalizeText?_of_text ht, ?_⟩
  intro important
  rw [ofRaw, ht]

end Value

end TerseCss
