-- Lists of tokens. A text is taken apart at its blanks outside all brackets, and what is joined by
-- such blanks comes apart into the same tokens again. Brackets need not match: a token that leaves
-- one open takes in all that follows, so only the last one can, and no blank stands behind it.
import Mathlib.Data.List.Infix
import TerseCss.Proofs.Texts
import TerseCss.Text.Bracket

namespace TerseCss.Text

variable {c : Char} {d : Nat} {t u rest lead gap front : Text} {parts : List (Text × Text)}

/-! ## Bracket depth -/

/-- The characters that change the depth. -/
def brackets : Text := ['[', ']', '(', ')']

theorem foldl_depthAfter {t : Text} (h : ∀ c ∈ t, c ∉ brackets) (depth : Nat) :
    t.foldl depthAfter depth = depth := by
  induction t with
  | nil => rfl
  | cons c cs ih =>
    have hc : depthAfter depth c = depth := by
      have hnot := h c List.mem_cons_self
      simp only [brackets, List.mem_cons, not_or] at hnot
      simp [depthAfter, hnot]
    rw [List.foldl_cons, hc, ih fun d hd => h d (List.mem_cons_of_mem _ hd)]

theorem not_mem_brackets {c : Char} (h : isBlank c) : c ∉ brackets := by
  intro hc
  have hall : ∀ c ∈ brackets, isBlank c = false := forall_of_all (by decide)
  rw [hall c hc] at h
  cases h

theorem foldl_depthAfter_of_blank (h : ∀ c ∈ gap, isBlank c) (d : Nat) :
    gap.foldl depthAfter d = d :=
  foldl_depthAfter (fun c hc => not_mem_brackets (h c hc)) d

/-! ## One token -/

/-- No blank of the text stands outside all brackets, where `d` are open in front of the text. -/
def Tight (d : Nat) (t : Text) : Prop :=
  ∀ front c back, t = front ++ c :: back → front.foldl depthAfter d = 0 → isBlank c = false

theorem tight_nil (d : Nat) : Tight d [] := by
  intro front c back h
  simp at h

theorem tight_cons :
    Tight d (c :: t) ↔ ¬(d = 0 ∧ isBlank c) ∧ Tight (depthAfter d c) t := by
  constructor
  · intro h
    refine ⟨?_, ?_⟩
    · rintro ⟨rfl, hc⟩
      rw [h [] c t rfl rfl] at hc
      cases hc
    · rintro front e back rfl hdepth
      exact h (c :: front) e back rfl hdepth
  · rintro ⟨hc, ht⟩ front e back h hdepth
    cases front with
    | nil =>
      obtain ⟨rfl, -⟩ := List.cons.inj h
      exact Bool.eq_false_iff.mpr fun hblank => hc ⟨hdepth, hblank⟩
    | cons x front =>
      obtain ⟨rfl, rfl⟩ := List.cons.inj h
      exact ht front e back rfl hdepth

/-- The token is tight, and what follows it begins with a blank outside all brackets. -/
theorem spanToken_eq_iff :
    spanToken d t = (u, rest) ↔ t = u ++ rest ∧ Tight d u ∧
      ∀ c, rest.head? = some c → isBlank c ∧ u.foldl depthAfter d = 0 := by
  induction t generalizing d u with
  | nil =>
    constructor
    · intro h
      cases h
      exact ⟨rfl, tight_nil d, by simp⟩
    · rintro ⟨h, -, -⟩
      obtain ⟨rfl, rfl⟩ := List.nil_eq_append_iff.mp h
      rfl
  | cons c t ih =>
    unfold spanToken
    by_cases hends : d = 0 ∧ isBlank c
    · rw [if_pos hends]
      constructor
      · intro h
        cases h
        refine ⟨rfl, tight_nil d, ?_⟩
        intro e he
        cases he
        exact hends.symm
      · rintro ⟨h, htight, -⟩
        cases u with
        | nil => rw [h]; rfl
        | cons e u =>
          obtain ⟨rfl, -⟩ := List.cons.inj h
          exact absurd hends (tight_cons.mp htight).1
    · rw [if_neg hends]
      constructor
      · intro h
        cases h
        obtain ⟨ht, htight, hrest⟩ := ih.mp rfl
        exact ⟨by rw [List.cons_append, ← ht], tight_cons.mpr ⟨hends, htight⟩, hrest⟩
      · rintro ⟨h, htight, hrest⟩
        cases u with
        | nil =>
          -- Nothing would be cut off before a character that the token takes in.
          subst h
          exact absurd (hrest c rfl).symm hends
        | cons e u =>
          obtain ⟨rfl, rfl⟩ := List.cons.inj h
          have hspan := ih.mpr ⟨rfl, (tight_cons.mp htight).2, hrest⟩
          simp only [hspan]

instance (d : Nat) (t : Text) : Decidable (Tight d t) :=
  decidable_of_iff (spanToken d t = (t, [])) <| by
    rw [spanToken_eq_iff]
    simp

/-! ## All tokens -/

theorem tokens_nil : tokens [] = [] := by
  unfold tokens
  rfl

theorem tokens_of_blank (h : isBlank c) (t : Text) : tokens (c :: t) = tokens t := by
  conv => lhs; unfold tokens
  exact if_pos h

theorem tokens_append_left (hgap : ∀ c ∈ gap, isBlank c) (t : Text) :
    tokens (gap ++ t) = tokens t := by
  induction gap with
  | nil => rfl
  | cons c gap ih =>
    rw [List.cons_append, tokens_of_blank (hgap c List.mem_cons_self)]
    exact ih fun e he => hgap e (List.mem_cons_of_mem _ he)

/-- A token ends with the text, or at a blank if it leaves no bracket open. -/
theorem tokens_append (hne : u ≠ []) (htight : Tight 0 u)
    (hrest : ∀ c, rest.head? = some c → isBlank c ∧ u.foldl depthAfter 0 = 0) :
    tokens (u ++ rest) = u :: tokens rest := by
  obtain ⟨c, u, rfl⟩ := List.exists_cons_of_ne_nil hne
  obtain ⟨hc, hu⟩ := tight_cons.mp htight
  have hspan : spanToken (depthAfter 0 c) (u ++ rest) = (u, rest) :=
    spanToken_eq_iff.mpr ⟨rfl, hu, hrest⟩
  rw [List.cons_append]
  conv => lhs; unfold tokens
  rw [if_neg fun hblank => hc ⟨rfl, hblank⟩]
  simp only [hspan]

theorem tokens_of_tight (hne : u ≠ []) (htight : Tight 0 u) : tokens u = [u] := by
  have h : tokens (u ++ []) = u :: tokens [] := tokens_append hne htight (by simp)
  rwa [List.append_nil, tokens_nil] at h

/-! ## Tokens with gaps -/

/-- The tokens, each with the gap behind it, and the first gap in front of them all. -/
def spread (lead : Text) (parts : List (Text × Text)) : Text :=
  lead ++ parts.flatMap fun p => p.1 ++ p.2

/-- Blanks set tight tokens apart, none of which but the last leaves a bracket open. -/
structure Separated (lead : Text) (parts : List (Text × Text)) : Prop where
  lead : ∀ c ∈ lead, isBlank c
  gaps : ∀ p ∈ parts, ∀ c ∈ p.2, isBlank c
  tokens : ∀ p ∈ parts, p.1 ≠ [] ∧ Tight 0 p.1
  between : ∀ p ∈ parts.dropLast, p.2 ≠ [] ∧ p.1.foldl depthAfter 0 = 0

/-- The last token leaves no bracket open if there are blanks behind it. -/
def EndsShut (parts : List (Text × Text)) : Prop :=
  ∀ p, parts.getLast? = some p → p.2 ≠ [] → p.1.foldl depthAfter 0 = 0

theorem spread_cons (lead u gap : Text) (parts : List (Text × Text)) :
    spread lead ((u, gap) :: parts) = lead ++ (u ++ spread gap parts) := by
  simp [spread]

theorem separated_nil (h : ∀ c ∈ lead, isBlank c) : Separated lead [] := by
  refine ⟨h, ?_, ?_, ?_⟩ <;> simp

/-- The gap behind a token is the first gap of the tokens that follow. -/
theorem separated_cons :
    Separated lead ((u, gap) :: parts) ↔ (∀ c ∈ lead, isBlank c) ∧ u ≠ [] ∧ Tight 0 u ∧
      (parts ≠ [] → gap ≠ [] ∧ u.foldl depthAfter 0 = 0) ∧ Separated gap parts := by
  cases parts with
  | nil =>
    constructor
    · intro h
      obtain ⟨hne, htight⟩ := h.tokens _ List.mem_cons_self
      exact ⟨h.lead, hne, htight, fun hnone => absurd rfl hnone,
        separated_nil (h.gaps _ List.mem_cons_self)⟩
    · rintro ⟨hlead, hne, htight, -, hrest⟩
      refine ⟨hlead, ?_, ?_, ?_⟩
      · simpa using hrest.lead
      · simpa using ⟨hne, htight⟩
      · simp
  | cons p parts =>
    constructor
    · intro h
      obtain ⟨hne, htight⟩ := h.tokens _ List.mem_cons_self
      refine ⟨h.lead, hne, htight, fun _ => h.between _ List.mem_cons_self, ?_⟩
      exact ⟨h.gaps _ List.mem_cons_self, fun q hq => h.gaps q (List.mem_cons_of_mem _ hq),
        fun q hq => h.tokens q (List.mem_cons_of_mem _ hq),
        fun q hq => h.between q (List.mem_cons_of_mem _ hq)⟩
    · rintro ⟨hlead, hne, htight, hfirst, hrest⟩
      refine ⟨hlead, ?_, ?_, ?_⟩
      · exact List.forall_mem_cons.mpr ⟨hrest.lead, hrest.gaps⟩
      · exact List.forall_mem_cons.mpr ⟨⟨hne, htight⟩, hrest.tokens⟩
      · rw [List.dropLast_cons_cons]
        exact List.forall_mem_cons.mpr ⟨hfirst (by simp), hrest.between⟩

theorem endsShut_cons :
    EndsShut ((u, gap) :: parts) ↔
      (parts = [] → gap ≠ [] → u.foldl depthAfter 0 = 0) ∧ EndsShut parts := by
  cases parts with
  | nil => simp [EndsShut]
  | cons p parts => simp [EndsShut]

/-- What follows a token begins with a blank, and then the token leaves no bracket open. -/
theorem head?_spread (h : Separated lead ((u, gap) :: parts)) (hends : EndsShut ((u, gap) :: parts))
    (hc : (spread gap parts).head? = some c) : isBlank c ∧ u.foldl depthAfter 0 = 0 := by
  obtain ⟨-, -, -, hfirst, hrest⟩ := separated_cons.mp h
  cases gap with
  | nil =>
    cases parts with
    | nil => cases hc
    | cons p parts => exact absurd rfl (hfirst (by simp)).1
  | cons e gap =>
    cases hc
    refine ⟨hrest.lead c List.mem_cons_self, ?_⟩
    by_cases hlast : parts = []
    · exact (endsShut_cons.mp hends).1 hlast (by simp)
    · exact (hfirst hlast).2

theorem tokens_spread (h : Separated lead parts) (hends : EndsShut parts) :
    tokens (spread lead parts) = parts.map Prod.fst := by
  induction parts generalizing lead with
  | nil =>
    rw [spread, List.flatMap_nil, tokens_append_left h.lead, tokens_nil, List.map_nil]
  | cons p parts ih =>
    obtain ⟨u, gap⟩ := p
    obtain ⟨hlead, hne, htight, -, hrest⟩ := separated_cons.mp h
    rw [spread_cons, tokens_append_left hlead,
      tokens_append hne htight fun c => head?_spread h hends,
      ih hrest (endsShut_cons.mp hends).2, List.map_cons]

/-- No token begins with a blank, so a blank in front of the first one stands in a gap. -/
theorem lead_ne_nil (h : Separated lead parts) (hparts : parts ≠ [])
    (hblank : ∀ c, (spread lead parts).head? = some c → isBlank c) : lead ≠ [] := by
  rintro rfl
  obtain ⟨⟨u, gap⟩, parts, rfl⟩ := List.exists_cons_of_ne_nil hparts
  obtain ⟨-, hne, htight, -⟩ := separated_cons.mp h
  obtain ⟨c, u, rfl⟩ := List.exists_cons_of_ne_nil hne
  exact (tight_cons.mp htight).1 ⟨rfl, hblank c rfl⟩

/-- Every text is its tokens with gaps. -/
theorem exists_spread (t : Text) : ∃ lead parts, Separated lead parts ∧ EndsShut parts ∧
    t = spread lead parts ∧ tokens t = parts.map Prod.fst := by
  fun_induction tokens t with
  | case1 => exact ⟨[], [], separated_nil (by simp), by simp [EndsShut], rfl, rfl⟩
  | case2 c cs hblank ih =>
    obtain ⟨lead, parts, h, hends, hcs, htokens⟩ := ih
    refine ⟨c :: lead, parts, ⟨?_, h.gaps, h.tokens, h.between⟩, hends, ?_, htokens⟩
    · exact List.forall_mem_cons.mpr ⟨hblank, h.lead⟩
    · rw [hcs]
      rfl
  | case3 c cs hblank r ih =>
    obtain ⟨gap, parts, h, hends, hrest, htokens⟩ := ih
    obtain ⟨hcs, htight, hafter⟩ := spanToken_eq_iff.mp (rfl : spanToken (depthAfter 0 c) cs = r)
    rw [hrest] at hafter
    have hshut : gap ≠ [] → (c :: r.1).foldl depthAfter 0 = 0 := by
      intro hgap
      obtain ⟨e, gap, rfl⟩ := List.exists_cons_of_ne_nil hgap
      exact (hafter e rfl).2
    have hfirst : parts ≠ [] → gap ≠ [] := fun hparts =>
      lead_ne_nil h hparts fun e he => (hafter e he).1
    refine ⟨[], (c :: r.1, gap) :: parts, ?_, ?_, ?_, ?_⟩
    · refine separated_cons.mpr ⟨by simp, by simp, tight_cons.mpr ⟨fun hc => hblank hc.2, htight⟩,
        fun hparts => ⟨hfirst hparts, hshut (hfirst hparts)⟩, h⟩
    · exact endsShut_cons.mpr ⟨fun _ => hshut, hends⟩
    · rw [spread_cons, ← hrest, List.nil_append, List.cons_append, ← hcs]
    · rw [htokens, List.map_cons]

theorem tight_of_mem_tokens (h : u ∈ tokens t) : u ≠ [] ∧ Tight 0 u := by
  obtain ⟨lead, parts, hparts, -, -, htokens⟩ := exists_spread t
  rw [htokens] at h
  obtain ⟨p, hp, rfl⟩ := List.mem_map.mp h
  exact hparts.tokens p hp

/-- Each token of a list is a list of one token. -/
theorem tokens_of_mem (h : u ∈ tokens t) : tokens u = [u] :=
  tokens_of_tight (tight_of_mem_tokens h).1 (tight_of_mem_tokens h).2

/-! ## What the tokens cover -/

/-- The text without its blanks outside all brackets, where `front` stands before it. Each character
is looked at together with the text in front of it. -/
def inner (front t : Text) : Text :=
  ((t.zip t.inits).filter fun e => ¬(isBlank e.1 ∧ (front ++ e.2).foldl depthAfter 0 = 0)).map
    Prod.fst

theorem inner_cons (front : Text) (c : Char) (t : Text) :
    inner front (c :: t) =
      if isBlank c ∧ front.foldl depthAfter 0 = 0 then inner (front ++ [c]) t
      else c :: inner (front ++ [c]) t := by
  have htail : ((t.zip (t.inits.map (c :: ·))).filter fun e =>
      ¬(isBlank e.1 ∧ (front ++ e.2).foldl depthAfter 0 = 0)).map Prod.fst =
      inner (front ++ [c]) t := by
    rw [List.zip_map_right, List.filter_map, List.map_map]
    simp only [inner, List.append_assoc, List.singleton_append]
    rfl
  rw [← htail, inner, List.inits_cons, List.zip_cons_cons, List.filter_cons]
  by_cases h : isBlank c ∧ front.foldl depthAfter 0 = 0
  · simp [h]
  · simp [h]

theorem inner_append (front a b : Text) :
    inner front (a ++ b) = inner front a ++ inner (front ++ a) b := by
  induction a generalizing front with
  | nil =>
    rw [List.append_nil]
    rfl
  | cons c a ih =>
    rw [List.cons_append, inner_cons, inner_cons, ih, List.append_assoc, List.singleton_append]
    split <;> rfl

theorem inner_of_blank (hgap : ∀ c ∈ gap, isBlank c) (hfront : front.foldl depthAfter 0 = 0) :
    inner front gap = [] := by
  induction gap generalizing front with
  | nil => rfl
  | cons c gap ih =>
    rw [List.forall_mem_cons] at hgap
    have hstep : (front ++ [c]).foldl depthAfter 0 = 0 := by
      rw [List.foldl_append, hfront]
      exact foldl_depthAfter_of_blank (List.forall_mem_singleton.mpr hgap.1) 0
    rw [inner_cons, if_pos ⟨hgap.1, hfront⟩, ih hgap.2 hstep]

theorem inner_of_tight (h : Tight (front.foldl depthAfter 0) u) : inner front u = u := by
  induction u generalizing front with
  | nil => rfl
  | cons c u ih =>
    obtain ⟨hc, hu⟩ := tight_cons.mp h
    have hstep : (front ++ [c]).foldl depthAfter 0 = depthAfter (front.foldl depthAfter 0) c := by
      rw [List.foldl_append]
      rfl
    rw [inner_cons, if_neg fun hblank => hc hblank.symm, ih (hstep ▸ hu)]

/-- The tokens have every character but the blanks outside all brackets. -/
theorem inner_spread (h : Separated lead parts) (hends : EndsShut parts)
    (hfront : front.foldl depthAfter 0 = 0) :
    inner front (spread lead parts) = (parts.map Prod.fst).flatten := by
  induction parts generalizing lead front with
  | nil =>
    rw [spread, List.flatMap_nil, List.append_nil, inner_of_blank h.lead hfront]
    rfl
  | cons p parts ih =>
    obtain ⟨u, gap⟩ := p
    obtain ⟨hlead, -, htight, -, hrest⟩ := separated_cons.mp h
    have hshut := (endsShut_cons.mp hends).2
    have hopen : (front ++ lead).foldl depthAfter 0 = 0 := by
      rw [List.foldl_append, hfront, foldl_depthAfter_of_blank hlead]
    have htoken : inner (front ++ lead) u = u := by
      apply inner_of_tight
      rw [hopen]
      exact htight
    have hnext : inner (front ++ lead ++ u) (spread gap parts) = (parts.map Prod.fst).flatten := by
      cases hfollows : spread gap parts with
      | nil =>
        -- A bracket may still be open here, but then no token follows.
        rw [← tokens_spread hrest hshut, hfollows, tokens_nil]
        rfl
      | cons c rest =>
        rw [← hfollows]
        refine ih hrest hshut ?_
        rw [List.foldl_append, hopen]
        exact (head?_spread (c := c) h hends (by rw [hfollows]; rfl)).2
    rw [spread_cons, inner_append, inner_of_blank hlead hfront, inner_append, htoken, hnext]
    rfl

/-! ## The law -/

/-- Taking a text apart and joining its tokens undo each other. A text is its tokens, in order and
with gaps of blanks; they have all of it but the blanks outside all brackets, each of them is the
only token of itself, and all but the last leave no bracket open. Tokens of this kind that are set
apart by blanks come out again, whatever blanks stand around them, except that none may follow a
last token that leaves a bracket open. -/
theorem tokens_come_apart_as_they_are_joined :
    (∀ t : Text,
      (∃ lead parts, Separated lead parts ∧ EndsShut parts ∧ t = spread lead parts ∧
        tokens t = parts.map Prod.fst) ∧
      (tokens t).flatten = inner [] t ∧
      (∀ u ∈ tokens t, u ≠ [] ∧ Tight 0 u ∧ tokens u = [u]) ∧
      ∀ u ∈ (tokens t).dropLast, u.foldl depthAfter 0 = 0) ∧
    ∀ lead parts, Separated lead parts → EndsShut parts →
      tokens (spread lead parts) = parts.map Prod.fst := by
  refine ⟨?_, fun lead parts => tokens_spread⟩
  intro t
  obtain ⟨lead, parts, h, hends, ht, htokens⟩ := exists_spread t
  refine ⟨⟨lead, parts, h, hends, ht, htokens⟩, ?_, ?_, ?_⟩
  · rw [htokens, ht, inner_spread h hends rfl]
  · intro u hu
    obtain ⟨hne, htight⟩ := tight_of_mem_tokens hu
    exact ⟨hne, htight, tokens_of_mem hu⟩
  · intro u hu
    rw [htokens, ← List.map_dropLast] at hu
    obtain ⟨p, hp, rfl⟩ := List.mem_map.mp hu
    exact (h.between p hp).2

/-- The first token closes a bracket that is not open, and the last one leaves a bracket open and
has a blank in it. -/
theorem tokens_come_apart_as_they_are_joined_around_stray_brackets :
    let parts : List (Text × Text) := [("a]", " \t"), ("b[(x y)", [])]
    Separated " " parts ∧ EndsShut parts ∧ tokens (spread " " parts) = ["a]", "b[(x y)"] ∧
      inner [] (spread " " parts) = "a]b[(x y)" ∧ tokens "b[(x y)" = ["b[(x y)"] := by
  intro parts
  have hparts : Separated " " parts :=
    separated_cons.mpr ⟨forall_of_all (by decide), by decide, by decide, fun _ => by decide,
      separated_cons.mpr ⟨forall_of_all (by decide), by decide, by decide, by simp,
        separated_nil (by simp)⟩⟩
  have hends : EndsShut parts := by simp [EndsShut, parts]
  obtain ⟨hapart, hjoined⟩ := tokens_come_apart_as_they_are_joined
  obtain ⟨-, hinner, htokens, -⟩ := hapart (spread " " parts)
  have htaken : tokens (spread " " parts) = ["a]", "b[(x y)"] := hjoined " " parts hparts hends
  rw [htaken] at hinner htokens
  exact ⟨hparts, hends, htaken, hinner.symm, (htokens "b[(x y)" (by simp)).2.2⟩

/-- Blanks belong to the token in front of them if it leaves a bracket open. -/
theorem an_open_bracket_takes_in_the_blanks_behind_it :
    ¬∀ lead parts, Separated lead parts → tokens (spread lead parts) = parts.map Prod.fst := by
  intro h
  have hparts : Separated [] [("a[", " ")] :=
    separated_cons.mpr ⟨by simp, by decide, by decide, by simp,
      separated_nil (forall_of_all (by decide))⟩
  have htokens : tokens (spread [] [("a[", " ")]) = ["a[ "] :=
    tokens_of_tight (by decide) (by decide)
  have hwrong := htokens.symm.trans (h [] [("a[", " ")] hparts)
  revert hwrong
  decide

end TerseCss.Text
