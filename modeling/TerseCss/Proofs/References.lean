-- References in written values. There is one way to cut a value into literals and references from
-- the left, and only the references are rewritten: a literal stays as it is, and so does a
-- reference that a `var(` was opened for.
import Mathlib.Data.List.Chain
import Mathlib.Data.List.Infix
import TerseCss.Proofs.Texts
import TerseCss.Proofs.Values

namespace TerseCss

namespace Piece

/-! ## One reference -/

/-- A reference stands at the start of the text: two hyphens, with or without `&`, and behind them a
character of a name. -/
def Opens (t : Text) : Prop :=
  ∃ c rest, Text.isNameChar c ∧ (t = "--" ++ c :: rest ∨ t = "--&" ++ c :: rest)

/-- The name goes no further. -/
def EndsName (rest : Text) : Prop := ∀ c, rest.head? = some c → Text.isNameChar c = false

/-- The text begins with the reference, and `rest` follows it. -/
inductive Heads : Text → Piece → Text → Prop
  | custom {name rest : Text} (hname : Text.isName name) (hrest : EndsName rest) :
      Heads ("--" ++ name ++ rest) (.custom name) rest
  | localRef {name rest : Text} (hname : Text.isName name) (hrest : EndsName rest) :
      Heads ("--&" ++ name ++ rest) (.localRef name) rest

theorem endsName_dropWhile (t : Text) : EndsName (t.dropWhile Text.isNameChar) := by
  intro c hc
  have h := List.head?_dropWhile_not Text.isNameChar t
  rw [hc] at h
  simpa using h

theorem isName_takeWhile {t : Text} (h : t.takeWhile Text.isNameChar ≠ []) :
    Text.isName (t.takeWhile Text.isNameChar) := by
  simp [Text.isName, h]

/-- A name and what follows it can be told apart. -/
theorem span_name {name rest : Text} (hname : Text.isName name) (hrest : EndsName rest) :
    (name ++ rest).takeWhile Text.isNameChar = name ∧
      (name ++ rest).dropWhile Text.isNameChar = rest := by
  have hall : ∀ c ∈ name, Text.isNameChar c := fun c hc => Text.isNameChar_of_mem hname hc
  rw [List.takeWhile_append_of_pos hall, List.dropWhile_append_of_pos hall]
  cases rest with
  | nil => simp
  | cons c rest =>
    have hc := hrest c rfl
    simp [hc]

theorem heads_custom {t : Text} (h : t.takeWhile Text.isNameChar ≠ []) :
    Heads ("--" ++ t) (.custom (t.takeWhile Text.isNameChar)) (t.dropWhile Text.isNameChar) := by
  have hhead := Heads.custom (isName_takeWhile h) (endsName_dropWhile t)
  rwa [List.append_assoc, List.takeWhile_append_dropWhile] at hhead

theorem heads_localRef {t : Text} (h : t.takeWhile Text.isNameChar ≠ []) :
    Heads ("--&" ++ t) (.localRef (t.takeWhile Text.isNameChar)) (t.dropWhile Text.isNameChar) := by
  have hhead := Heads.localRef (isName_takeWhile h) (endsName_dropWhile t)
  rwa [List.append_assoc, List.takeWhile_append_dropWhile] at hhead

theorem heads_of_reference? {t rest : Text} {p : Piece} (h : reference? t = some (p, rest)) :
    Heads t p rest := by
  unfold reference? at h
  split at h
  · split at h
    · cases h
    · rename_i hname
      cases h
      exact heads_localRef hname
  · split at h
    · cases h
    · rename_i hname
      cases h
      exact heads_custom hname
  · cases h

theorem reference?_of_heads {t rest : Text} {p : Piece} (h : Heads t p rest) :
    reference? t = some (p, rest) := by
  cases h with
  | @custom name _ hname hrest =>
    obtain ⟨htake, hdrop⟩ := span_name hname hrest
    -- The name begins with a character of a name, which `&` is not.
    have hamp : ∀ more, name ++ rest ≠ '&' :: more := by
      intro more h
      obtain ⟨c, cs, rfl⟩ := List.exists_cons_of_ne_nil (Text.ne_nil_of_isName hname)
      have hc := Text.isNameChar_of_mem hname List.mem_cons_self
      rw [(List.cons.inj h).1] at hc
      cases hc
    have hopen : ("--" : Text) ++ name ++ rest = '-' :: '-' :: (name ++ rest) := by simp
    rw [hopen, reference?]
    · rw [htake, hdrop, if_neg (Text.ne_nil_of_isName hname)]
    · exact hamp
  | @localRef name _ hname hrest =>
    obtain ⟨htake, hdrop⟩ := span_name hname hrest
    have hopen : ("--&" : Text) ++ name ++ rest = '-' :: '-' :: '&' :: (name ++ rest) := by simp
    rw [hopen, reference?, htake, hdrop, if_neg (Text.ne_nil_of_isName hname)]

theorem Heads.opens {t rest : Text} {p : Piece} (h : Heads t p rest) : Opens t := by
  cases h with
  | @custom name _ hname hrest =>
    obtain ⟨c, cs, rfl⟩ := List.exists_cons_of_ne_nil (Text.ne_nil_of_isName hname)
    exact ⟨c, cs ++ rest, Text.isNameChar_of_mem hname List.mem_cons_self, Or.inl (by simp)⟩
  | @localRef name _ hname hrest =>
    obtain ⟨c, cs, rfl⟩ := List.exists_cons_of_ne_nil (Text.ne_nil_of_isName hname)
    exact ⟨c, cs ++ rest, Text.isNameChar_of_mem hname List.mem_cons_self, Or.inr (by simp)⟩

theorem Opens.heads {t : Text} (h : Opens t) : ∃ p rest, Heads t p rest := by
  obtain ⟨c, more, hc, rfl | rfl⟩ := h
  · exact ⟨_, _, heads_custom (t := c :: more) (by simp [hc])⟩
  · exact ⟨_, _, heads_localRef (t := c :: more) (by simp [hc])⟩

theorem reference?_eq_none_iff {t : Text} : reference? t = none ↔ ¬Opens t := by
  constructor
  · intro hnone hopens
    obtain ⟨p, rest, hhead⟩ := hopens.heads
    rw [reference?_of_heads hhead] at hnone
    cases hnone
  · intro hopens
    rw [Option.eq_none_iff_forall_ne_some]
    rintro ⟨p, rest⟩ h
    exact hopens (heads_of_reference? h).opens

/-! ## Cutting a text -/

/-- The pieces are the text, cut at its references from the left. A literal goes on up to the first
reference behind it or to the end. -/
inductive Cuts : Text → List Piece → Prop
  | nil : Cuts [] []
  | literal {t rest : Text} {ps : List Piece} (hne : t ≠ [])
      (hfree : ∀ u v, t = u ++ v → v ≠ [] → ¬Opens (v ++ rest)) (hend : rest = [] ∨ Opens rest)
      (hrest : Cuts rest ps) : Cuts (t ++ rest) (.literal t :: ps)
  | reference {t rest : Text} {p : Piece} {ps : List Piece} (hhead : Heads t p rest)
      (hrest : Cuts rest ps) : Cuts t (p :: ps)

theorem split_nil : split [] = [] := by
  rw [split]

theorem split_of_heads {t rest : Text} {p : Piece} (h : Heads t p rest) :
    split t = p :: split rest := by
  have href := reference?_of_heads h
  cases t with
  | nil => cases href
  | cons c cs =>
    rw [split]
    split
    · rename_i p' rest' h'
      rw [href] at h'
      cases h'
      rfl
    · rename_i h'
      rw [href] at h'
      cases h'

theorem split_of_not_opens {c : Char} {cs : Text} (h : ¬Opens (c :: cs)) :
    split (c :: cs) = consChar c (split cs) := by
  have href := reference?_eq_none_iff.mpr h
  rw [split]
  split
  · rename_i h'
    rw [href] at h'
    cases h'
  · rfl

/-- A reference is not a literal. -/
theorem Heads.ne_literal {t rest : Text} {p : Piece} (h : Heads t p rest) (u : Text) :
    p ≠ .literal u := by
  rintro rfl
  cases h

/-- Behind a literal that has ended, no other literal begins. -/
theorem head?_split_of_end {rest : Text} (h : rest = [] ∨ Opens rest) (t : Text) :
    (split rest).head? ≠ some (.literal t) := by
  rcases h with rfl | hopens
  · simp [split_nil]
  · obtain ⟨p, rest', hhead⟩ := hopens.heads
    rw [split_of_heads hhead]
    simpa using hhead.ne_literal t

theorem split_literal {t rest : Text} (hne : t ≠ [])
    (hfree : ∀ u v, t = u ++ v → v ≠ [] → ¬Opens (v ++ rest)) (hend : rest = [] ∨ Opens rest) :
    split (t ++ rest) = .literal t :: split rest := by
  induction t with
  | nil => exact absurd rfl hne
  | cons c t ih =>
    have hnot : ¬Opens (c :: (t ++ rest)) := hfree [] (c :: t) rfl hne
    rw [List.cons_append, split_of_not_opens hnot]
    by_cases ht : t = []
    · subst ht
      rw [List.nil_append]
      unfold consChar
      split
      · rename_i u ps hsplit
        exact absurd (by rw [hsplit]; rfl) (head?_split_of_end hend u)
      · rfl
    · rw [ih ht fun u v huv => hfree (c :: u) v (by rw [huv]; rfl)]
      rfl

/-- There is one way to cut a text. -/
theorem Cuts.eq_split {t : Text} {ps : List Piece} (h : Cuts t ps) : ps = split t := by
  induction h with
  | nil => exact split_nil.symm
  | literal hne hfree hend _ ih => rw [split_literal hne hfree hend, ih]
  | reference hhead _ ih => rw [split_of_heads hhead, ih]

/-- A character before which no reference opens goes to the literal behind it, or begins one. -/
theorem Cuts.cons {c : Char} {t : Text} {ps : List Piece} (hnot : ¬Opens (c :: t))
    (h : Cuts t ps) : Cuts (c :: t) (consChar c ps) := by
  have hone : ∀ u v, [c] = u ++ v → v ≠ [] → ¬Opens (v ++ t) := by
    intro u v huv hv
    have hlength := congrArg List.length huv
    cases u with
    | nil => rw [← List.nil_append v, ← huv]; exact hnot
    | cons d u =>
      cases v with
      | nil => exact absurd rfl hv
      | cons e v => simp at hlength
  cases h with
  | nil => exact Cuts.literal (t := [c]) (by simp) hone (Or.inl rfl) .nil
  | @literal u rest ps hne hfree hend hrest =>
    refine Cuts.literal (t := c :: u) (by simp) ?_ hend hrest
    intro x y hxy hy
    cases x with
    | nil =>
      rw [List.nil_append] at hxy
      rw [← hxy]
      exact hnot
    | cons d x => exact hfree x y (List.cons.inj hxy).2 hy
  | @reference _ rest p ps hhead hrest =>
    have hcons : consChar c (p :: ps) = .literal [c] :: p :: ps := by
      cases p with
      | literal u => exact absurd rfl (hhead.ne_literal u)
      | custom name => rfl
      | localRef name => rfl
    rw [hcons]
    exact Cuts.literal (t := [c]) (by simp) hone (Or.inr hhead.opens) (.reference hhead hrest)

theorem cuts_split (t : Text) : Cuts t (split t) := by
  fun_induction split t with
  | case1 => exact .nil
  | case2 c cs p rest href ih => exact .reference (heads_of_reference? href) ih
  | case3 c cs href ih => exact ih.cons (reference?_eq_none_iff.mp href)

theorem Cuts.source_eq {t : Text} {ps : List Piece} (h : Cuts t ps) :
    ps.flatMap source = t := by
  induction h with
  | nil => rfl
  | literal _ _ _ _ ih => rw [List.flatMap_cons, ih]; rfl
  | reference hhead _ ih =>
    rw [List.flatMap_cons, ih]
    cases hhead <;> rfl

/-- No reference stands inside a literal. -/
theorem Cuts.literal_free {t u : Text} {ps : List Piece} (h : Cuts t ps)
    (hu : .literal u ∈ ps) {c : Char} (hc : Text.isNameChar c) :
    ¬("--" ++ [c] : Text) <:+: u ∧ ¬("--&" ++ [c] : Text) <:+: u := by
  induction h with
  | nil => cases hu
  | @literal t rest ps hne hfree hend hrest ih =>
    rcases List.mem_cons.mp hu with hu | hu
    · cases hu
      refine ⟨?_, ?_⟩
      · rintro ⟨front, back, rfl⟩
        refine hfree front ("--" ++ [c] ++ back) (by simp) (by simp) ?_
        exact ⟨c, back ++ rest, hc, Or.inl (by simp)⟩
      · rintro ⟨front, back, rfl⟩
        refine hfree front ("--&" ++ [c] ++ back) (by simp) (by simp) ?_
        exact ⟨c, back ++ rest, hc, Or.inr (by simp)⟩
    · exact ih hu
  | reference hhead _ ih =>
    rcases List.mem_cons.mp hu with hu | hu
    · exact absurd hu.symm (hhead.ne_literal u)
    · exact ih hu

theorem Cuts.literal_ne_nil {t : Text} {ps : List Piece} (h : Cuts t ps) : .literal [] ∉ ps := by
  intro hmem
  induction h with
  | nil => cases hmem
  | literal hne _ _ _ ih =>
    rcases List.mem_cons.mp hmem with heq | hmem
    · cases heq
      exact hne rfl
    · exact ih hmem
  | reference hhead _ ih =>
    rcases List.mem_cons.mp hmem with heq | hmem
    · exact hhead.ne_literal [] heq.symm
    · exact ih hmem

/-- A text without two hyphens in a row is one literal. -/
theorem split_of_not_infix {t : Text} (hne : t ≠ []) (h : ¬("--" : Text) <:+: t) :
    split t = [.literal t] := by
  have hfree : ∀ u v, t = u ++ v → v ≠ [] → ¬Opens (v ++ []) := by
    rintro u v rfl _ ⟨c, rest, _, hopen⟩
    rw [List.append_nil] at hopen
    refine h (List.IsInfix.trans ?_ (List.suffix_append u v).isInfix)
    rcases hopen with rfl | rfl
    · exact ⟨[], c :: rest, rfl⟩
    · exact ⟨[], '&' :: c :: rest, rfl⟩
  have hcut := split_literal hne hfree (Or.inl rfl)
  rwa [List.append_nil, split_nil] at hcut

/-! ## Rewriting the pieces -/

/-- What is written for a piece that stands behind the text `before`. -/
def rewrite (before : Text) : Piece → Segment
  | .literal t => .text t
  | .custom name =>
    .text (if ("var(" : Text) <:+ Text.trimEnd before then "--" ++ name
      else "var(--" ++ name ++ ")")
  | .localRef name => .localRef name

/-- What is written for the pieces, each for itself. -/
def rewriteAll (before : Text) : List Piece → List Segment
  | [] => []
  | p :: ps => p.rewrite before :: rewriteAll (before ++ p.source) ps

theorem localRef_eq_rewrite_iff {name before : Text} {p : Piece} :
    .localRef name = p.rewrite before ↔ .localRef name = p := by
  cases p with
  | literal t => exact ⟨fun h => (nomatch h), fun h => (nomatch h)⟩
  | custom name' => exact ⟨fun h => (nomatch h), fun h => (nomatch h)⟩
  | localRef name' => simp only [rewrite, Segment.localRef.injEq, Piece.localRef.injEq]

theorem localRef_mem_rewriteAll {name before : Text} {ps : List Piece} :
    .localRef name ∈ rewriteAll before ps ↔ .localRef name ∈ ps := by
  induction ps generalizing before with
  | nil => simp [rewriteAll]
  | cons p ps ih =>
    rw [rewriteAll, List.mem_cons, List.mem_cons, ih, localRef_eq_rewrite_iff]

end Piece

/-! ## Joining texts -/

/-- The segment as the characters and the references that it is made of. -/
def Segment.atoms : Segment → List (Char ⊕ Segment)
  | .text t => t.map .inl
  | .localRef name => [.inr (.localRef name)]
  | .runtimeRef key => [.inr (.runtimeRef key)]

/-- The segments say the same as the parts, and no two texts are left side by side. -/
structure Joined (parts ss : List Segment) : Prop where
  same : ss.flatMap Segment.atoms = parts.flatMap Segment.atoms
  apart : ss.IsChain fun a b => ¬(a.isText ∧ b.isText)

theorem localRef_mem_iff_atoms {name : Text} {ss : List Segment} :
    .localRef name ∈ ss ↔ .inr (.localRef name) ∈ ss.flatMap Segment.atoms := by
  rw [List.mem_flatMap]
  constructor
  · intro h
    exact ⟨_, h, by simp [Segment.atoms]⟩
  · rintro ⟨s, hs, hatom⟩
    cases s with
    | text t => simp [Segment.atoms] at hatom
    | localRef name' =>
      simp only [Segment.atoms, List.mem_singleton, Sum.inr.injEq] at hatom
      rwa [hatom]
    | runtimeRef key => simp [Segment.atoms] at hatom

theorem Joined.consText {parts ss : List Segment} (h : Joined parts ss) (t : Text) :
    Joined (.text t :: parts) (Value.consText t ss) := by
  obtain ⟨hsame, hapart⟩ := h
  unfold Value.consText
  split
  · rename_i u ss
    refine ⟨?_, ?_⟩
    · rw [List.flatMap_cons, List.flatMap_cons, ← hsame, List.flatMap_cons, ← List.append_assoc]
      simp [Segment.atoms]
    · rw [List.isChain_cons] at hapart ⊢
      exact hapart
  · rename_i hnot
    refine ⟨?_, ?_⟩
    · rw [List.flatMap_cons, List.flatMap_cons, hsame]
    · refine hapart.cons ?_
      intro s hs htexts
      cases ss with
      | nil => cases hs
      | cons s' ss =>
        cases hs
        cases s with
        | text u => exact hnot u ss rfl
        | localRef name => cases htexts.2
        | runtimeRef key => cases htexts.2

theorem Joined.consLocalRef {parts ss : List Segment} (h : Joined parts ss) (name : Text) :
    Joined (.localRef name :: parts) (.localRef name :: ss) := by
  refine ⟨?_, ?_⟩
  · rw [List.flatMap_cons, List.flatMap_cons, h.same]
  · refine h.apart.cons ?_
    intro s _ htexts
    cases htexts.1

namespace Value

theorem rewrite_custom (before name : Text) :
    (Piece.custom name).rewrite before =
      .text (if opensVar before then "--" ++ name else "var(--" ++ name ++ ")") := by
  have hopens : opensVar before ↔ ("var(" : Text) <:+ Text.trimEnd before := by
    rw [opensVar, List.isSuffixOf_iff_suffix]
  by_cases h : ("var(" : Text) <:+ Text.trimEnd before
  · rw [if_pos (hopens.mpr h), Piece.rewrite, if_pos h]
  · rw [if_neg (mt hopens.mp h), Piece.rewrite, if_neg h]

theorem joined_segmentsAfter (before : Text) (ps : List Piece) :
    Joined (Piece.rewriteAll before ps) (segmentsAfter before ps) := by
  induction ps generalizing before with
  | nil => exact ⟨rfl, List.isChain_nil⟩
  | cons p ps ih =>
    cases p with
    | literal t => exact (ih _).consText t
    | custom name =>
      have hsource : before ++ (Piece.custom name).source = before ++ "--" ++ name := by
        rw [Piece.source, List.append_assoc]
      unfold Piece.rewriteAll segmentsAfter
      rw [hsource, rewrite_custom]
      exact (ih _).consText _
    | localRef name =>
      have hsource : before ++ (Piece.localRef name).source = before ++ "--&" ++ name := by
        rw [Piece.source, List.append_assoc]
      unfold Piece.rewriteAll segmentsAfter Piece.rewrite
      rw [hsource]
      exact (ih _).consLocalRef name

theorem text_nil_not_mem_consText {t : Text} {ss : List Segment} (ht : t ≠ [])
    (h : .text [] ∉ ss) : .text [] ∉ consText t ss := by
  intro hmem
  unfold consText at hmem
  split at hmem
  · rename_i u ss
    rcases List.mem_cons.mp hmem with heq | hmem
    · exact ht (List.append_eq_nil_iff.mp (Segment.text.inj heq).symm).1
    · exact h (List.mem_cons_of_mem _ hmem)
  · rcases List.mem_cons.mp hmem with heq | hmem
    · exact ht (Segment.text.inj heq).symm
    · exact h hmem

theorem text_nil_not_mem_segmentsAfter {ps : List Piece} (h : .literal [] ∉ ps) (before : Text) :
    .text [] ∉ segmentsAfter before ps := by
  induction ps generalizing before with
  | nil => simp [segmentsAfter]
  | cons p ps ih =>
    have hrest := ih fun hmem => h (List.mem_cons_of_mem _ hmem)
    cases p with
    | literal t =>
      refine text_nil_not_mem_consText ?_ (hrest _)
      rintro rfl
      exact h List.mem_cons_self
    | custom name =>
      refine text_nil_not_mem_consText ?_ (hrest _)
      split <;> simp
    | localRef name =>
      unfold segmentsAfter
      simp [hrest _]

/-! ## Written values -/

theorem normalize_nil : normalize [] = [.text []] := by
  rw [normalize, Piece.split_nil]
  rfl

theorem consText_ne_nil (t : Text) (ss : List Segment) : consText t ss ≠ [] := by
  unfold consText
  split <;> simp

theorem segmentsAfter_ne_nil {ps : List Piece} (h : ps ≠ []) (before : Text) :
    segmentsAfter before ps ≠ [] := by
  cases ps with
  | nil => exact absurd rfl h
  | cons p ps =>
    cases p with
    | literal t => exact consText_ne_nil _ _
    | custom name => exact consText_ne_nil _ _
    | localRef name => simp [segmentsAfter]

theorem normalize_of_ne_nil {raw : Text} (h : raw ≠ []) :
    normalize raw = segmentsAfter [] (Piece.split raw) := by
  have hne : Piece.split raw ≠ [] := by
    intro hnil
    have hsource := (Piece.cuts_split raw).source_eq
    rw [hnil] at hsource
    exact h hsource.symm
  unfold normalize
  split
  · rename_i hnil
    exact absurd hnil (segmentsAfter_ne_nil hne [])
  · rfl

theorem joined_normalize (raw : Text) :
    Joined (Piece.rewriteAll [] (Piece.split raw)) (normalize raw) := by
  by_cases hraw : raw = []
  · subst hraw
    rw [normalize_nil, Piece.split_nil]
    exact ⟨rfl, List.isChain_singleton _⟩
  · rw [normalize_of_ne_nil hraw]
    exact joined_segmentsAfter [] _

/-- The one text that says nothing is the value that says nothing. -/
theorem eq_nil_of_text_nil_mem {raw : Text} (h : .text [] ∈ normalize raw) : raw = [] := by
  by_contra hraw
  rw [normalize_of_ne_nil hraw] at h
  exact text_nil_not_mem_segmentsAfter (Piece.cuts_split raw).literal_ne_nil [] h

theorem localRef_mem_normalize {raw name : Text} :
    .localRef name ∈ normalize raw ↔ .localRef name ∈ Piece.split raw := by
  rw [localRef_mem_iff_atoms, (joined_normalize raw).same, ← localRef_mem_iff_atoms,
    Piece.localRef_mem_rewriteAll]

theorem normalizeText?_eq_none_iff {raw : Text} :
    normalizeText? raw = none ↔ ∃ name, .localRef name ∈ Piece.split raw := by
  constructor
  · intro hnone
    by_contra hlocal
    obtain ⟨t, ht⟩ := normalize_of_no_localRef fun name hname => hlocal ⟨name, hname⟩
    rw [normalizeText?_of_text ht] at hnone
    cases hnone
  · rintro ⟨name, hname⟩
    have hrefs : name ∈ (ofRaw raw false).localRefs :=
      List.mem_filterMap.mpr ⟨_, localRef_mem_normalize.mpr hname, rfl⟩
    have hlocal : (ofRaw raw false).hasLocalRefs := by
      simp [hasLocalRefs, List.ne_nil_of_mem hrefs]
    rw [normalizeText?, if_pos hlocal]

theorem normalizeText?_eq_some_iff {raw t : Text} :
    normalizeText? raw = some t ↔ normalize raw = [.text t] := by
  refine ⟨?_, normalizeText?_of_text⟩
  intro hsome
  have hlocal : ∀ name, .localRef name ∉ Piece.split raw := by
    intro name hname
    rw [normalizeText?_eq_none_iff.mpr ⟨name, hname⟩] at hsome
    cases hsome
  obtain ⟨u, hu⟩ := normalize_of_no_localRef hlocal
  rw [normalizeText?_of_text hu] at hsome
  cases hsome
  exact hu

theorem normalize_of_no_hyphens {raw : Text} (h : ¬("--" : Text) <:+: raw) :
    normalize raw = [.text raw] := by
  by_cases hraw : raw = []
  · subst hraw
    exact normalize_nil
  · rw [normalize_of_ne_nil hraw, Piece.split_of_not_infix hraw h]
    rfl

/-- Only the references of a value are rewritten. The value is cut into pieces in exactly one way,
from the left, and no literal holds a reference. What stands for the pieces is written in their
order, with the texts that come to stand side by side joined. -/
theorem only_references_are_rewritten (raw : Text) :
    ∃ ps, Piece.Cuts raw ps ∧ (∀ qs, Piece.Cuts raw qs → qs = ps) ∧
      ps.flatMap Piece.source = raw ∧
      (∀ t, .literal t ∈ ps → ∀ c, Text.isNameChar c →
        ¬("--" ++ [c] : Text) <:+: t ∧ ¬("--&" ++ [c] : Text) <:+: t) ∧
      Joined (Piece.rewriteAll [] ps) (normalize raw) ∧
      (.text [] ∈ normalize raw ↔ raw = []) ∧ (raw = [] → normalize raw = [.text []]) ∧
      (∀ key, .runtimeRef key ∉ normalize raw) ∧
      (normalizeText? raw = none ↔ ∃ name, .localRef name ∈ ps) ∧
      (∀ t, normalizeText? raw = some t ↔ normalize raw = [.text t]) ∧
      (¬("--" : Text) <:+: raw → normalize raw = [.text raw]) := by
  have hcuts := Piece.cuts_split raw
  have hnil : raw = [] → normalize raw = [.text []] := by
    rintro rfl
    exact normalize_nil
  refine ⟨Piece.split raw, hcuts, fun qs hqs => hqs.eq_split, hcuts.source_eq,
    fun t ht c hc => hcuts.literal_free ht hc, joined_normalize raw, ?_, hnil,
    fun key => runtimeRef_not_mem_ofRaw raw key false, normalizeText?_eq_none_iff,
    fun t => normalizeText?_eq_some_iff, normalize_of_no_hyphens⟩
  constructor
  · exact eq_nil_of_text_nil_mem
  · intro hraw
    rw [hnil hraw]
    exact List.mem_singleton.mpr rfl

example : normalize "--a -- var( --b)--&c" =
    [.text "var(--a) -- var( --b)", .localRef "c"] := by decide +kernel

end Value

end TerseCss
