-- The hash of a text. It is a chain of steps that can each be taken back, so what a text begins
-- with is hashed on top of what it ends with, no two seeds meet, and a single unit is never lost.
import Mathlib.Data.List.Zip
import Mathlib.Logic.Function.Basic
import TerseCss.Name

namespace TerseCss.Name

/-! ## One step -/

/-- Takes a step back. The factor is the inverse of 33 on 32 bits. -/
def unmix (unit h : UInt32) : UInt32 := (h ^^^ unit) * 1041204193

theorem unmix_mix (unit h : UInt32) : unmix unit (mix unit h) = h := by
  have hone : (33 * 1041204193 : UInt32) = 1 := by decide
  unfold unmix mix
  rw [UInt32.xor_assoc, UInt32.xor_self, UInt32.xor_zero, UInt32.mul_assoc, hone, UInt32.mul_one]

theorem mix_unmix (unit h : UInt32) : mix unit (unmix unit h) = h := by
  have hone : (1041204193 * 33 : UInt32) = 1 := by decide
  unfold unmix mix
  rw [UInt32.mul_assoc, hone, UInt32.mul_one, UInt32.xor_assoc, UInt32.xor_self, UInt32.xor_zero]

theorem bijective_mix (unit : UInt32) : Function.Bijective (mix unit) :=
  Function.bijective_iff_has_inverse.mpr ⟨unmix unit, unmix_mix unit, mix_unmix unit⟩

theorem mix_inj_left {u v h : UInt32} : mix u h = mix v h ↔ u = v := by
  unfold mix
  exact UInt32.xor_right_inj _

/-! ## A row of steps -/

theorem bijective_foldr_mix (us : List UInt32) :
    Function.Bijective fun seed => us.foldr mix seed := by
  induction us with
  | nil => exact Function.bijective_id
  | cons u us ih => exact (bijective_mix u).comp ih

/-- Two rows of units are equally long and differ at exactly one place. -/
def DifferOnce (us vs : List UInt32) : Prop :=
  us.length = vs.length ∧ (us.zip vs).countP (fun e => e.1 ≠ e.2) = 1

instance (us vs : List UInt32) : Decidable (DifferOnce us vs) :=
  inferInstanceAs (Decidable (_ ∧ _))

theorem eq_of_countP_ne_zip {us vs : List UInt32} (hlength : us.length = vs.length)
    (h : (us.zip vs).countP (fun e => e.1 ≠ e.2) = 0) : us = vs := by
  induction us generalizing vs with
  | nil => exact (List.length_eq_zero_iff.mp hlength.symm).symm
  | cons u us ih =>
    cases vs with
    | nil => simp at hlength
    | cons v vs =>
      rw [List.zip_cons_cons, List.countP_cons] at h
      by_cases huv : u = v
      · rw [huv, ih (by simpa using hlength) (by omega)]
      · simp [huv] at h

/-- Before and behind the place where they differ the rows are the same. -/
theorem DifferOnce.split {us vs : List UInt32} (h : DifferOnce us vs) :
    ∃ front u v back, us = front ++ u :: back ∧ vs = front ++ v :: back ∧ u ≠ v := by
  obtain ⟨hlength, hcount⟩ := h
  induction us generalizing vs with
  | nil => simp at hcount
  | cons u us ih =>
    cases vs with
    | nil => simp at hlength
    | cons v vs =>
      have hrest : us.length = vs.length := by simpa using hlength
      rw [List.zip_cons_cons, List.countP_cons] at hcount
      by_cases huv : u = v
      · obtain ⟨front, x, y, back, rfl, rfl, hxy⟩ := ih hrest (by simpa [huv] using hcount)
        exact ⟨u :: front, x, y, back, rfl, by rw [huv]; rfl, hxy⟩
      · have hsame : us = vs := eq_of_countP_ne_zip hrest (by simpa [huv] using hcount)
        exact ⟨[], u, v, us, rfl, by rw [hsame]; rfl, huv⟩

/-! ## Texts -/

theorem utf16_append (a b : Text) : utf16 (a ++ b) = utf16 a ++ utf16 b := by
  simp [utf16]

theorem hash_append (seed : UInt32) (a b : Text) : hash seed (a ++ b) = hash (hash seed b) a := by
  simp [hash, utf16_append]

theorem bijective_hash (t : Text) : Function.Bijective fun seed => hash seed t :=
  bijective_foldr_mix (utf16 t)

theorem hash_ne_of_differOnce {a b : Text} (h : DifferOnce (utf16 a) (utf16 b)) (seed : UInt32) :
    hash seed a ≠ hash seed b := by
  obtain ⟨front, u, v, back, ha, hb, huv⟩ := h.split
  unfold hash
  rw [ha, hb, List.foldr_append, List.foldr_append, List.foldr_cons, List.foldr_cons]
  intro heq
  exact huv (mix_inj_left.mp ((bijective_foldr_mix front).injective heq))

/-- The unit is not lost either if more text stands around it. -/
theorem hash_around_ne {a b : Text} (h : DifferOnce (utf16 a) (utf16 b)) (seed : UInt32)
    (front back : Text) : hash seed (front ++ a ++ back) ≠ hash seed (front ++ b ++ back) := by
  rw [List.append_assoc, List.append_assoc, hash_append, hash_append seed front, hash_append seed a,
    hash_append seed b]
  intro heq
  exact hash_ne_of_differOnce h _ ((bijective_hash front).injective heq)

/-- Hashing loses neither the seed nor a single unit. A text is hashed on top of the hash of what
follows it; the hash of a text is a bijection of the seeds; and texts that differ in one unit have
different hashes from every seed, so scopes or classes that differ in one unit are set apart. -/
theorem hashing_loses_no_seed_and_no_unit :
    (∀ (seed : UInt32) (a b : Text), hash seed (a ++ b) = hash (hash seed b) a) ∧
    (∀ t : Text, Function.Bijective fun seed => hash seed t) ∧
    (∀ (seed : UInt32) (a b : Text), DifferOnce (utf16 a) (utf16 b) → hash seed a ≠ hash seed b) ∧
    (∀ (seed : UInt32) (scope scope' cls : Text), DifferOnce (utf16 scope) (utf16 scope') →
      hash seed (qualified scope cls) ≠ hash seed (qualified scope' cls)) ∧
    ∀ (seed : UInt32) (scope cls cls' : Text), DifferOnce (utf16 cls) (utf16 cls') →
      hash seed (qualified scope cls) ≠ hash seed (qualified scope cls') := by
  refine ⟨hash_append, bijective_hash, fun seed a b h => hash_ne_of_differOnce h seed, ?_, ?_⟩
  · intro seed scope scope' cls h
    have hne := hash_around_ne h seed [] (":" ++ cls)
    simpa [qualified] using hne
  · intro seed scope cls cls' h
    have hne := hash_around_ne h seed (scope ++ ":") []
    simpa [qualified] using hne

/-- The two faces are surrogate pairs with the same first unit. -/
theorem hashing_loses_no_seed_and_no_unit_of_a_pair :
    DifferOnce (utf16 "a😀b") (utf16 "a😁b") ∧ hash 7 "a😀b" ≠ hash 7 "a😁b" := by
  have h : DifferOnce (utf16 "a😀b") (utf16 "a😁b") := by decide
  exact ⟨h, hashing_loses_no_seed_and_no_unit.2.2.1 7 _ _ h⟩

end TerseCss.Name
