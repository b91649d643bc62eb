-- Texts: the characters of names, trimmed texts, and words.
import Mathlib.Data.List.Infix
import Mathlib.Data.List.TakeWhile
import TerseCss.Text.Blank

namespace TerseCss.Text

/-! ## Names -/

theorem ne_of_isNameChar {c d : Char} (hc : isNameChar c) (hd : isNameChar d = false) : c ≠ d := by
  rintro rfl
  rw [hc] at hd
  cases hd

/-- The blanks are few enough to go through them. -/
theorem isBlank_of_isNameChar {c : Char} (h : isNameChar c) : isBlank c = false := by
  have hnames : ∀ n ∈ [9, 10, 11, 12, 13, 0x20, 0x85, 0xA0, 0x1680, 0x2000, 0x2001, 0x2002, 0x2003,
      0x2004, 0x2005, 0x2006, 0x2007, 0x2008, 0x2009, 0x200A, 0x2028, 0x2029, 0x202F, 0x205F,
      0x3000], isNameChar (Char.ofNat n) = false := by decide
  rw [← Bool.not_eq_true]
  intro hblank
  have hname := hnames c.toNat (by
    simp only [isBlank, Bool.or_eq_true, Bool.and_eq_true, decide_eq_true_eq, beq_iff_eq] at hblank
    simp only [List.mem_cons]
    omega)
  rw [Char.ofNat_toNat, h] at hname
  cases hname

theorem isNameChar_of_mem {name : Text} (h : isName name) {c : Char} (hc : c ∈ name) :
    isNameChar c := by
  simp only [isName, Bool.and_eq_true, List.all_eq_true] at h
  exact h.2 c hc

theorem isName_iff {t : Text} :
    isName t ↔ t ≠ [] ∧ ∀ c ∈ t, c.isAlphanum ∨ c = '-' ∨ c = '_' := by
  simp [isName, isNameChar, or_assoc]

theorem not_mem_of_isName {name : Text} (h : isName name) {c : Char}
    (hc : isNameChar c = false) : c ∉ name :=
  fun hmem => ne_of_isNameChar (isNameChar_of_mem h hmem) hc rfl

theorem ne_nil_of_isName {name : Text} (h : isName name) : name ≠ [] := by
  rintro rfl
  cases h

/-! ## Cutting -/

/-- What can be tested of a character holds of all in a text if the test goes through the text. -/
theorem forall_of_all {t : Text} {P : Char → Prop} [DecidablePred P] (h : t.all fun c => P c) :
    ∀ c ∈ t, P c := by
  simpa using h

theorem splitAtFirst?_eq_none_iff {p : Char → Bool} {t : Text} :
    splitAtFirst? p t = none ↔ ∀ c ∈ t, p c = false := by
  induction t with
  | nil => simp [splitAtFirst?]
  | cons c cs ih =>
    unfold splitAtFirst?
    cases hc : p c with
    | true => simp [hc]
    | false => simp [hc, ih]

theorem splitAtFirst?_beq_iff {c : Char} {t before after : Text} :
    splitAtFirst? (· == c) t = some (before, after) ↔ t = before ++ c :: after ∧ c ∉ before := by
  rw [splitAtFirst?_eq_some_iff]
  constructor
  · rintro ⟨d, hd, hbefore, rfl⟩
    obtain rfl := beq_iff_eq.mp hd
    refine ⟨rfl, fun hmem => ?_⟩
    simpa using hbefore d hmem
  · rintro ⟨rfl, hbefore⟩
    refine ⟨c, beq_self_eq_true c, ?_, rfl⟩
    intro d hd
    refine beq_eq_false_iff_ne.mpr ?_
    rintro rfl
    exact hbefore hd

/-- The last place of a character cuts a text in one way only. -/
theorem append_cons_inj_of_not_mem {c : Char} {a b x y : Text} (hx : c ∉ x) (hy : c ∉ y) :
    a ++ c :: x = b ++ c :: y ↔ a = b ∧ x = y := by
  constructor
  · intro h
    rcases List.append_eq_append_iff.mp h with ⟨mid, rfl, hmid⟩ | ⟨mid, rfl, hmid⟩
    · cases mid with
      | nil => simpa using hmid
      | cons d mid =>
        obtain ⟨rfl, rfl⟩ := List.cons.inj hmid
        simp at hx
    · cases mid with
      | nil => simpa using hmid.symm
      | cons d mid =>
        obtain ⟨rfl, rfl⟩ := List.cons.inj hmid
        simp at hy
  · rintro ⟨rfl, rfl⟩
    rfl

/-! ## Trimmed texts -/

/-- The text has no blank at either end. -/
def Trimmed (t : Text) : Prop :=
  (∀ c, t.head? = some c → isBlank c = false) ∧ ∀ c, t.getLast? = some c → isBlank c = false

instance (t : Text) : Decidable t.Trimmed :=
  decidable_of_iff (t.head?.all (!isBlank ·) ∧ t.getLast?.all (!isBlank ·)) <| by
    simp [Trimmed, Option.all_eq_true]

theorem isBlank_of_head?_dropWhile {t : Text} {c : Char}
    (h : (t.dropWhile isBlank).head? = some c) : isBlank c = false := by
  have hnot := List.head?_dropWhile_not isBlank t
  rw [h] at hnot
  simpa using hnot

theorem trimStart_isSuffix (t : Text) : trimStart t <:+ t := List.dropWhile_suffix _

theorem trimEnd_isPrefix (t : Text) : trimEnd t <+: t := by
  have h : t.reverse.dropWhile isBlank <:+ t.reverse := List.dropWhile_suffix _
  simpa [trimEnd] using List.reverse_prefix.mpr h

theorem trim_isInfix (t : Text) : trim t <:+: t :=
  (trimEnd_isPrefix _).isInfix.trans (trimStart_isSuffix t).isInfix

theorem trimmed_trim (t : Text) : Trimmed (trim t) := by
  refine ⟨?_, ?_⟩
  · -- Cutting at the end leaves the first character, unless it leaves nothing.
    intro c hc
    have hprefix : trim t <+: trimStart t := trimEnd_isPrefix _
    obtain ⟨rest, hrest⟩ := hprefix
    have hhead : (trimStart t).head? = some c := by
      rw [← hrest, List.head?_append, hc]
      rfl
    exact isBlank_of_head?_dropWhile hhead
  · intro c hc
    rw [trim, trimEnd, List.getLast?_reverse] at hc
    exact isBlank_of_head?_dropWhile hc

theorem trimEnd_append {gap : Text} (hgap : ∀ c ∈ gap, isBlank c) (t : Text) :
    trimEnd (t ++ gap) = trimEnd t := by
  have hblank : ∀ c ∈ gap.reverse, isBlank c := fun c hc => hgap c (List.mem_reverse.mp hc)
  rw [trimEnd, List.reverse_append, List.dropWhile_append_of_pos hblank]
  rfl

theorem trimStart_of_opens {t : Text} (h : t.head?.map isBlank = some false) :
    trimStart t = t := by
  cases t with
  | nil => cases h
  | cons c cs =>
    have hc : isBlank c = false := by simpa using h
    simp [trimStart, hc]

theorem trim_append {t gap : Text} (h : t.head?.map isBlank = some false)
    (hgap : ∀ c ∈ gap, isBlank c) : trim (t ++ gap) = trim t := by
  have hopens : (t ++ gap).head?.map isBlank = some false := by
    cases t with
    | nil => cases h
    | cons c cs => exact h
  rw [trim, trim, trimStart_of_opens h, trimStart_of_opens hopens, trimEnd_append hgap]

theorem trim_of_trimmed {t : Text} (h : t.Trimmed) : trim t = t := by
  have hstart : trimStart t = t := by
    cases t with
    | nil => rfl
    | cons c cs => exact trimStart_of_opens (by simp [h.1 c rfl])
  rw [trim, hstart]
  cases ht : t.reverse with
  | nil => rw [List.reverse_eq_nil_iff.mp ht]; rfl
  | cons c cs =>
    have hlast : t.getLast? = some c := by rw [← List.head?_reverse, ht]; rfl
    rw [trimEnd, ht, List.dropWhile_cons_of_neg (by simp [h.2 c hlast]), ← ht, List.reverse_reverse]

/-- Trimming takes nothing but blanks away. -/
theorem exists_trim (t : Text) : ∃ front back : Text, t = front ++ trim t ++ back ∧
    (∀ c ∈ front, isBlank c) ∧ ∀ c ∈ back, isBlank c := by
  have hblank : ∀ (u : Text), ∀ c ∈ u.takeWhile isBlank, isBlank c := fun u c hc =>
    List.all_eq_true.mp List.all_takeWhile c hc
  refine ⟨t.takeWhile isBlank, ((trimStart t).reverse.takeWhile isBlank).reverse, ?_, hblank t,
    fun c hc => hblank _ c (List.mem_reverse.mp hc)⟩
  rw [List.append_assoc, trim, trimEnd, ← List.reverse_append, List.takeWhile_append_dropWhile,
    List.reverse_reverse, trimStart, List.takeWhile_append_dropWhile]

/-! ## Words -/

variable {sep : Char → Bool}

theorem words_cons_of_sep {c : Char} (hc : sep c) (t : Text) :
    words sep (c :: t) = words sep t := by
  rw [words, if_pos hc]

theorem words_cons_of_not_sep {c : Char} (hc : sep c = false) (t : Text) :
    words sep (c :: t) = (c :: t.takeWhile (!sep ·)) :: words sep (t.dropWhile (!sep ·)) := by
  rw [words, if_neg (by simp [hc])]

theorem words_append_left {gap : Text} (hgap : ∀ c ∈ gap, sep c) (t : Text) :
    words sep (gap ++ t) = words sep t := by
  induction gap with
  | nil => rfl
  | cons c gap ih =>
    rw [List.cons_append, words_cons_of_sep (hgap c List.mem_cons_self)]
    exact ih fun d hd => hgap d (List.mem_cons_of_mem _ hd)

theorem words_append_right (t : Text) {gap : Text} (hgap : ∀ c ∈ gap, sep c) :
    words sep (t ++ gap) = words sep t := by
  -- No word goes on into the gap.
  have hcut : ∀ u : Text, (u ++ gap).takeWhile (!sep ·) = u.takeWhile (!sep ·) ∧
      (u ++ gap).dropWhile (!sep ·) = u.dropWhile (!sep ·) ++ gap := by
    intro u
    induction u with
    | nil =>
      cases gap with
      | nil => exact ⟨rfl, rfl⟩
      | cons c gap => simp [hgap c List.mem_cons_self]
    | cons c u ih => cases hc : sep c <;> simp [hc, ih]
  fun_induction words sep t with
  | case1 =>
    have h := words_append_left hgap []
    rwa [List.append_nil, words] at h
  | case2 c cs hc ih => rw [List.cons_append, words_cons_of_sep hc, ih]
  | case3 c cs hc ih =>
    rw [List.cons_append, words_cons_of_not_sep (by simpa using hc), (hcut cs).1, (hcut cs).2, ih]

theorem words_trim (t : Text) : words isBlank (trim t) = words isBlank t := by
  obtain ⟨front, back, ht, hfront, hback⟩ := exists_trim t
  calc words isBlank (trim t)
      = words isBlank (front ++ trim t) := (words_append_left hfront _).symm
    _ = words isBlank (front ++ trim t ++ back) := (words_append_right _ hback).symm
    _ = words isBlank t := by rw [← ht]

/-- A word that is set apart is the first of the words. -/
theorem words_word_cons {w : Text} (hne : w ≠ []) (hw : ∀ c ∈ w, sep c = false) {c : Char}
    (hc : sep c) (rest : Text) : words sep (w ++ c :: rest) = w :: words sep rest := by
  obtain ⟨d, w, rfl⟩ := List.exists_cons_of_ne_nil hne
  have hword : ∀ x ∈ w, (!sep x) = true := fun x hx => by simp [hw x (List.mem_cons_of_mem _ hx)]
  rw [List.cons_append, words_cons_of_not_sep (hw d List.mem_cons_self),
    List.takeWhile_append_of_pos hword, List.dropWhile_append_of_pos hword]
  simp [hc, words_cons_of_sep hc]

theorem words_word {w : Text} (hne : w ≠ []) (hw : ∀ c ∈ w, sep c = false) :
    words sep w = [w] := by
  obtain ⟨d, w, rfl⟩ := List.exists_cons_of_ne_nil hne
  have hword : ∀ x ∈ w, (!sep x) = true := fun x hx => by simp [hw x (List.mem_cons_of_mem _ hx)]
  rw [words_cons_of_not_sep (hw d List.mem_cons_self), List.takeWhile_eq_self_iff.mpr hword,
    List.dropWhile_eq_nil_iff.mpr hword, words]

theorem join_singleton (s a : Text) : join s [a] = a := by
  simp [join]

theorem join_cons_cons (s a b : Text) (ts : List Text) :
    join s (a :: b :: ts) = a ++ s ++ join s (b :: ts) := by
  simp [join]

theorem join_append (s : Text) {ts us : List Text} (hts : ts ≠ []) (hus : us ≠ []) :
    join s (ts ++ us) = join s ts ++ s ++ join s us := by
  induction ts with
  | nil => exact absurd rfl hts
  | cons t ts ih =>
    cases ts with
    | nil =>
      obtain ⟨u, us, rfl⟩ := List.exists_cons_of_ne_nil hus
      rw [List.singleton_append, join_cons_cons, join_singleton]
    | cons t' ts =>
      have hrest := ih (by simp)
      rw [List.cons_append] at hrest
      rw [List.cons_append, List.cons_append, join_cons_cons, hrest, join_cons_cons]
      simp

/-- Joined texts that are joined again are all joined at once. -/
theorem join_map_join {α : Type} (s : Text) {f : α → List Text} (hf : ∀ a, f a ≠ [])
    (as : List α) : join s (as.map fun a => join s (f a)) = join s (as.flatMap f) := by
  induction as with
  | nil => rfl
  | cons a as ih =>
    cases as with
    | nil => simp [join_singleton]
    | cons b bs =>
      have hrest : (b :: bs).flatMap f ≠ [] := by simp [hf]
      rw [List.map_cons] at ih
      rw [List.map_cons, List.map_cons, join_cons_cons, ih, ← join_append s (hf a) hrest]
      rfl

/-- Words that are joined by a blank can be told apart again. -/
theorem words_join {ws : List Text} (hne : ∀ w ∈ ws, w ≠ [])
    (hws : ∀ w ∈ ws, ∀ c ∈ w, isBlank c = false) : words isBlank (join " " ws) = ws := by
  induction ws with
  | nil =>
    change words isBlank [] = []
    rw [words]
  | cons w ws ih =>
    have hword := hws w List.mem_cons_self
    cases ws with
    | nil =>
      rw [join_singleton, words_word (hne w List.mem_cons_self) hword]
    | cons w' ws =>
      have hrest := ih (fun v hv => hne v (List.mem_cons_of_mem _ hv))
        (fun v hv => hws v (List.mem_cons_of_mem _ hv))
      have hblank : isBlank ' ' := by decide
      have hjoin : join " " (w :: w' :: ws) = w ++ ' ' :: join " " (w' :: ws) := by
        rw [join_cons_cons, List.append_assoc]
        rfl
      rw [hjoin, words_word_cons (hne w List.mem_cons_self) hword hblank, hrest]

end TerseCss.Text
