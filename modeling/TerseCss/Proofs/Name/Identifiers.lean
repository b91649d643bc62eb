-- Identifiers: numbers that are written with letters can be read back, so different numbers are
-- written differently. Letters are the identifier of their value unless a zero leads them.
import Mathlib.Algebra.Group.Nat.Defs
import Mathlib.Data.List.Basic
import Mathlib.Data.List.Induction
import TerseCss.Name
import TerseCss.Proofs.Texts

namespace TerseCss.Name

/-! ## Letters -/

/-- The small letters of ASCII, and then the capitals. -/
theorem alphabet_eq : alphabet = (List.range' 97 26 ++ List.range' 65 26).map Char.ofNat := by
  decide

theorem digit_letter {d : Nat} (h : d < 52) : digit (letter d) = d := by
  have hall : ∀ d ∈ List.range 52, digit (letter d) = d := by
    simp only [digit, letter, alphabet_eq]
    decide
  exact hall d (List.mem_range.mpr h)

theorem letter_mem (d : Nat) : letter d ∈ alphabet := by
  unfold letter
  rw [List.getD_eq_getElem?_getD]
  cases h : alphabet[d]? with
  | none =>
    rw [alphabet_eq]
    exact List.mem_map_of_mem (f := Char.ofNat) (by simp : 97 ∈ _)
  | some c => exact List.mem_of_getElem? h

theorem length_alphabet : alphabet.length = 52 := by
  simp [alphabet_eq]

theorem letter_small {d : Nat} (h : d < 26) : letter d = Char.ofNat ('a'.toNat + d) := by
  simp [letter, alphabet_eq, List.getElem?_append, h]

theorem letter_capital {d : Nat} (h : d < 26) : letter (26 + d) = Char.ofNat ('A'.toNat + d) := by
  have hsecond : ¬26 + d < 26 := by omega
  simp [letter, alphabet_eq, List.getElem?_append, h, hsecond]

theorem isAlpha_iff {c : Char} :
    c.isAlpha ↔ c.toNat ∈ List.range' 97 26 ++ List.range' 65 26 := by
  have hcode : c.isAlpha ↔ (65 ≤ c.toNat ∧ c.toNat ≤ 90) ∨ (97 ≤ c.toNat ∧ c.toNat ≤ 122) := by
    change (decide (c.val ≥ 'A'.val ∧ c.val ≤ 'Z'.val) ||
      decide (c.val ≥ 'a'.val) && decide (c.val ≤ 'z'.val)) ↔ _
    simp only [Bool.or_eq_true, Bool.and_eq_true, decide_eq_true_eq, ge_iff_le,
      UInt32.le_iff_toNat_le]
    rfl
  rw [hcode, List.mem_append, List.mem_range'_1, List.mem_range'_1]
  omega

theorem mem_alphabet_iff {c : Char} : c ∈ alphabet ↔ c.isAlpha := by
  rw [alphabet_eq, isAlpha_iff, List.mem_map]
  constructor
  · rintro ⟨n, hn, rfl⟩
    have hvalid : n.isValidChar := by
      rw [List.mem_append, List.mem_range'_1, List.mem_range'_1] at hn
      unfold Nat.isValidChar
      omega
    have hcode : (Char.ofNat n).toNat = n := by
      rw [Char.ofNat, dif_pos hvalid]
      rfl
    rwa [hcode]
  · intro hc
    exact ⟨c.toNat, hc, Char.ofNat_toNat c⟩

theorem digit_lt {c : Char} (h : c ∈ alphabet) : digit c < 52 :=
  length_alphabet ▸ List.idxOf_lt_length_iff.mpr h

theorem letter_digit {c : Char} (h : c ∈ alphabet) : letter (digit c) = c := by
  have hlt : alphabet.idxOf c < alphabet.length := List.idxOf_lt_length_iff.mpr h
  rw [letter, digit, List.getD_eq_getElem?_getD, List.getElem?_eq_getElem hlt, List.getElem_idxOf,
    Option.getD_some]

theorem mem_identifier {n : Nat} {c : Char} (h : c ∈ identifier n) : c ∈ alphabet := by
  fun_induction identifier n with
  | case1 n hn =>
    rw [List.mem_singleton.mp h]
    exact letter_mem n
  | case2 n hn ih =>
    rcases List.mem_append.mp h with h | h
    · exact ih h
    · rw [List.mem_singleton.mp h]
      exact letter_mem (n % 52)

/-! ## Reading back -/

theorem valueOf_append_singleton (t : Text) (c : Char) :
    valueOf (t ++ [c]) = 52 * valueOf t + digit c := by
  simp [valueOf]

theorem valueOf_identifier (n : Nat) : valueOf (identifier n) = n := by
  fun_induction identifier n with
  | case1 n hn =>
    change 52 * 0 + digit (letter n) = n
    rw [digit_letter hn]
    omega
  | case2 n hn ih =>
    rw [valueOf_append_singleton, ih, digit_letter (Nat.mod_lt n (by omega))]
    omega

theorem identifier_injective : Function.Injective identifier :=
  Function.LeftInverse.injective valueOf_identifier

/-! ## Numerals -/

/-- One letter at least, letters only, and a zero in front only where it stands alone. -/
structure Numeral (t : Text) : Prop where
  ne_nil : t ≠ []
  letters : ∀ c ∈ t, c.isAlpha
  lead : t.head? = some 'a' → t = ['a']

theorem identifier_ne_nil (n : Nat) : identifier n ≠ [] := by
  unfold identifier
  split <;> simp

theorem identifier_zero : identifier 0 = ['a'] := by
  rw [identifier, if_pos (by omega), letter_small (by omega)]
  rfl

theorem identifier_of_head? {n : Nat} (h : (identifier n).head? = some 'a') :
    identifier n = ['a'] := by
  fun_induction identifier n with
  | case1 n hn => simpa using h
  | case2 n hn ih =>
    -- A zero in front of the quotient is the whole quotient, but the quotient is not zero.
    rw [List.head?_append_of_ne_nil _ (identifier_ne_nil _)] at h
    have hzero : n / 52 = 0 := identifier_injective ((ih h).trans identifier_zero.symm)
    omega

theorem numeral_identifier (n : Nat) : Numeral (identifier n) := by
  refine ⟨identifier_ne_nil n, ?_, identifier_of_head?⟩
  intro c hc
  exact mem_alphabet_iff.mp (mem_identifier hc)

theorem identifier_valueOf {t : Text} (h : Numeral t) : identifier (valueOf t) = t := by
  induction t using List.reverseRecOn with
  | nil => exact absurd rfl h.ne_nil
  | append_singleton t c ih =>
    have hc : c ∈ alphabet := mem_alphabet_iff.mpr (h.letters c (by simp))
    have hlt := digit_lt hc
    rw [valueOf_append_singleton]
    by_cases hfirst : t = []
    · subst hfirst
      change identifier (52 * 0 + digit c) = [c]
      rw [Nat.mul_zero, Nat.zero_add, identifier, if_pos hlt, letter_digit hc]
    -- Further digits follow the front, so that it does not begin with a zero at all.
    have hhead : t.head? ≠ some 'a' := by
      intro ha
      rw [← List.head?_append_of_ne_nil t hfirst] at ha
      simpa [hfirst] using congrArg List.length (h.lead ha)
    have hfront : identifier (valueOf t) = t := by
      refine ih ⟨hfirst, ?_, fun ha => absurd ha hhead⟩
      intro d hd
      exact h.letters d (List.mem_append_left _ hd)
    have hpos : valueOf t ≠ 0 := by
      intro hzero
      rw [hzero, identifier_zero] at hfront
      exact hhead (by rw [← hfront]; rfl)
    have hdiv : (52 * valueOf t + digit c) / 52 = valueOf t := by omega
    have hmod : (52 * valueOf t + digit c) % 52 = digit c := by omega
    rw [identifier, if_neg (by omega), hdiv, hmod, hfront, letter_digit hc]

theorem length_identifier_le {n k : Nat} (h : n < 52 ^ (k + 1)) :
    (identifier n).length ≤ k + 1 := by
  fun_induction identifier n generalizing k with
  | case1 n hn => simp
  | case2 n hn ih =>
    cases k with
    | zero => omega
    | succ k =>
      rw [Nat.pow_succ] at h
      have hrest := ih (Nat.div_lt_of_lt_mul (Nat.mul_comm 52 _ ▸ h))
      rw [List.length_append, List.length_singleton]
      omega

/-! ## The law -/

/-- Identifiers are canonical numerals. Every number of 32 bits is written with one to six letters,
without a zero in front of other digits, and can be read back. So no two are written alike, and each
numeral below the bound is the identifier of its value. -/
theorem identifiers_are_canonical_numerals :
    (∀ d < 26, digit (Char.ofNat ('a'.toNat + d)) = d ∧
      digit (Char.ofNat ('A'.toNat + d)) = 26 + d) ∧
    (∀ code : UInt32, Numeral (identifier code.toNat) ∧ (identifier code.toNat).length ≤ 6 ∧
      valueOf (identifier code.toNat) = code.toNat) ∧
    (Function.Injective fun code : UInt32 => identifier code.toNat) ∧
    ∀ t : Text, Numeral t → valueOf t < 2 ^ 32 →
      ∃ code : UInt32, code.toNat = valueOf t ∧ identifier code.toNat = t := by
  refine ⟨?_, ?_, ?_, ?_⟩
  · intro d hd
    rw [← letter_small hd, ← letter_capital hd]
    exact ⟨digit_letter (by omega), digit_letter (by omega)⟩
  · intro code
    have hbound : code.toNat < 52 ^ (5 + 1) := by
      have := code.toNat_lt
      omega
    exact ⟨numeral_identifier _, length_identifier_le hbound, valueOf_identifier _⟩
  · intro code code' h
    exact UInt32.toNat_inj.mp (identifier_injective h)
  · intro t ht hvalue
    have hcode : (UInt32.ofNat (valueOf t)).toNat = valueOf t := UInt32.toNat_ofNat_of_lt' hvalue
    exact ⟨UInt32.ofNat (valueOf t), hcode, by rw [hcode, identifier_valueOf ht]⟩

/-- The last number of 32 bits has six letters. -/
theorem identifiers_are_canonical_numerals_to_the_last :
    digit 'Z' = 51 ∧ Numeral "lpvJyV" ∧ valueOf "lpvJyV" = 2 ^ 32 - 1 ∧
      ∃ code : UInt32, code.toNat = 2 ^ 32 - 1 ∧ identifier code.toNat = "lpvJyV" := by
  obtain ⟨hdigits, -, -, hall⟩ := identifiers_are_canonical_numerals
  have ht : Numeral "lpvJyV" := ⟨by decide, Text.forall_of_all (by decide), by decide⟩
  have hvalue : valueOf "lpvJyV" = 2 ^ 32 - 1 := by decide
  obtain ⟨code, hcode, hwritten⟩ := hall "lpvJyV" ht (by omega)
  exact ⟨(hdigits 25 (by decide)).2, ht, hvalue, code, hcode.trans hvalue, hwritten⟩

end TerseCss.Name
