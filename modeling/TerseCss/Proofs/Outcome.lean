-- What the results of a computation that may fail have to do with the results of its parts. The
-- laws here carry a fact about errors from the parts to the whole, and a likeness of two
-- computations as well, also where they may stop halfway.
import Mathlib.Control.Monad.Basic
import Mathlib.Data.List.Forall2
import TerseCss.Attempt

namespace TerseCss

variable {α β : Type} {P : Error → Prop}

/-! ## Two computations in a row -/

theorem bind_eq_ok_iff {x : Except Error α} {f : α → Except Error β} {b : β} :
    x >>= f = .ok b ↔ ∃ a, x = .ok a ∧ f a = .ok b := by
  cases x with
  | error e =>
    constructor
    · intro h
      cases h
    · rintro ⟨a, ha, _⟩
      cases ha
  | ok a =>
    constructor
    · intro h
      exact ⟨a, rfl, h⟩
    · rintro ⟨a', ha, hb⟩
      cases ha
      exact hb

theorem bind_eq_error_iff {x : Except Error α} {f : α → Except Error β} {e : Error} :
    x >>= f = .error e ↔ x = .error e ∨ ∃ a, x = .ok a ∧ f a = .error e := by
  cases x with
  | error e' =>
    have hbind : (Except.error e' >>= f : Except Error β) = .error e' := rfl
    simp [hbind]
  | ok a =>
    have hbind : (Except.ok a >>= f : Except Error β) = f a := rfl
    simp [hbind]

theorem map_eq_ok_iff {x : Except Error α} {f : α → β} {b : β} :
    x.map f = .ok b ↔ ∃ a, x = .ok a ∧ f a = b := by
  cases x with
  | error e => simp [Except.map]
  | ok a => simp [Except.map]

theorem map_eq_error_iff {x : Except Error α} {f : α → β} {e : Error} :
    x.map f = .error e ↔ x = .error e := by
  cases x with
  | error e => simp [Except.map]
  | ok a => simp [Except.map]

theorem exists_ok_of_mapM {f : α → Except Error β} {as : List α} {bs : List β}
    (h : as.mapM f = .ok bs) : ∀ a ∈ as, ∃ b, f a = .ok b := by
  induction as generalizing bs with
  | nil => simp
  | cons a as ih =>
    rw [List.mapM_cons, bind_eq_ok_iff] at h
    obtain ⟨b, hb, hrest⟩ := h
    obtain ⟨bs', hbs, -⟩ := bind_eq_ok_iff.mp hrest
    intro a' ha'
    rcases List.mem_cons.mp ha' with rfl | ha'
    · exact ⟨b, hb⟩
    · exact ih hbs a' ha'

theorem exists_mem_of_mapM {f : α → Except Error β} {as : List α} {bs : List β}
    (h : as.mapM f = .ok bs) : ∀ b ∈ bs, ∃ a ∈ as, f a = .ok b := by
  induction as generalizing bs with
  | nil =>
    cases h
    simp
  | cons a as ih =>
    rw [List.mapM_cons, bind_eq_ok_iff] at h
    obtain ⟨b, hb, hrest⟩ := h
    obtain ⟨bs', hbs, h⟩ := bind_eq_ok_iff.mp hrest
    cases h
    intro b' hb'
    rcases List.mem_cons.mp hb' with rfl | hb'
    · exact ⟨a, List.mem_cons_self, hb⟩
    · obtain ⟨a', ha', hf⟩ := ih hbs b' hb'
      exact ⟨a', List.mem_cons_of_mem a ha', hf⟩

/-- If a step that succeeds carries a fact on to the longer history, a run that succeeds carries it
through. -/
theorem foldlM_history {P : List α → β → Prop} {f : β → α → Except Error β}
    (hstep : ∀ done a b b', P done b → f b a = .ok b' → P (done ++ [a]) b')
    (as done : List α) {b b' : β} (hb : P done b) (h : as.foldlM f b = .ok b') :
    P (done ++ as) b' := by
  induction as generalizing done b with
  | nil =>
    cases h
    rw [List.append_nil]
    exact hb
  | cons a as ih =>
    rw [List.foldlM_cons] at h
    obtain ⟨b₁, hfirst, hrest⟩ := bind_eq_ok_iff.mp h
    simpa using ih (done ++ [a]) (hstep done a b b₁ hb hfirst) hrest

/-! ## Facts about every error -/

/-- If the computation fails, its error is one of `P`. -/
def ErrorsIn (P : Error → Prop) (x : Except Error α) : Prop := ∀ e, x = .error e → P e

@[simp]
theorem errorsIn_ok (a : α) : ErrorsIn P (.ok a : Except Error α) := by
  intro e h
  cases h

@[simp]
theorem errorsIn_pure (a : α) : ErrorsIn P (pure a : Except Error α) := errorsIn_ok a

@[simp]
theorem errorsIn_error {e : Error} : ErrorsIn P (.error e : Except Error α) ↔ P e := by
  constructor
  · intro h
    exact h e rfl
  · intro h e' he
    cases he
    exact h

theorem errorsIn_bind {x : Except Error α} {f : α → Except Error β} (hx : ErrorsIn P x)
    (hf : ∀ a, x = .ok a → ErrorsIn P (f a)) : ErrorsIn P (x >>= f) := by
  cases x with
  | error e =>
    intro e' he
    cases he
    exact hx e rfl
  | ok a => exact hf a rfl

theorem errorsIn_map {x : Except Error α} {f : α → β} (hx : ErrorsIn P x) :
    ErrorsIn P (x.map f) := by
  cases x with
  | error e =>
    intro e' he
    cases he
    exact hx e rfl
  | ok a => exact errorsIn_ok (f a)

theorem errorsIn_mono {Q : Error → Prop} {x : Except Error α} (hx : ErrorsIn P x)
    (h : ∀ e, P e → Q e) : ErrorsIn Q x :=
  fun e he => h e (hx e he)

theorem errorsIn_foldlM {f : β → α → Except Error β} {as : List α}
    (hf : ∀ b, ∀ a ∈ as, ErrorsIn P (f b a)) (b : β) : ErrorsIn P (as.foldlM f b) := by
  induction as generalizing b with
  | nil => exact errorsIn_pure b
  | cons a as ih =>
    rw [List.foldlM_cons]
    exact errorsIn_bind (hf b a List.mem_cons_self) fun b' _ =>
      ih (fun b a ha => hf b a (List.mem_cons_of_mem _ ha)) b'

theorem errorsIn_mapM {f : α → Except Error β} {as : List α} (hf : ∀ a ∈ as, ErrorsIn P (f a)) :
    ErrorsIn P (as.mapM f) := by
  induction as with
  | nil => exact errorsIn_pure []
  | cons a as ih =>
    rw [List.mapM_cons]
    exact errorsIn_bind (hf a List.mem_cons_self) fun b _ =>
      errorsIn_bind (ih fun a ha => hf a (List.mem_cons_of_mem _ ha)) fun bs _ => errorsIn_pure _

/-! ## Two computations side by side -/

/-- Both computations succeed with values that `R` relates, or both fail with errors that `E`
relates. -/
inductive Agree (E : Error → Error → Prop) (R : α → β → Prop) :
    Except Error α → Except Error β → Prop
  | ok {a : α} {b : β} (h : R a b) : Agree E R (.ok a) (.ok b)
  | error {e e' : Error} (h : E e e') : Agree E R (.error e) (.error e')

section Agree

variable {α' β' : Type} {E : Error → Error → Prop} {R : α → α' → Prop} {S : β → β' → Prop}

theorem agree_refl (hE : ∀ e, E e e) (x : Except Error α) : Agree E Eq x x := by
  cases x with
  | error e => exact .error (hE e)
  | ok a => exact .ok rfl

theorem Agree.bind {x : Except Error α} {x' : Except Error α'} {f : α → Except Error β}
    {f' : α' → Except Error β'} (hx : Agree E R x x')
    (hf : ∀ a a', R a a' → Agree E S (f a) (f' a')) : Agree E S (x >>= f) (x' >>= f') := by
  cases hx with
  | ok h => exact hf _ _ h
  | error h => exact .error h

theorem Agree.ite {c : Prop} [Decidable c] {x y : Except Error α} {x' y' : Except Error α'}
    (hpos : c → Agree E R x x') (hneg : ¬c → Agree E R y y') :
    Agree E R (if c then x else y) (if c then x' else y') := by
  split
  · exact hpos ‹_›
  · exact hneg ‹_›

theorem Agree.map {x : Except Error α} {x' : Except Error α'} {f : α → β} {f' : α' → β'}
    (hx : Agree E R x x') (hf : ∀ a a', R a a' → S (f a) (f' a')) :
    Agree E S (x.map f) (x'.map f') := by
  cases hx with
  | ok h => exact .ok (hf _ _ h)
  | error h => exact .error h

theorem Agree.foldlM {f : β → α → Except Error β} {f' : β' → α' → Except Error β'}
    {as : List α} {as' : List α'} {b : β} {b' : β'} (has : List.Forall₂ R as as') (hb : S b b')
    (hstep : ∀ b b' a a', S b b' → R a a' → Agree E S (f b a) (f' b' a')) :
    Agree E S (as.foldlM f b) (as'.foldlM f' b') := by
  induction has generalizing b b' with
  | nil => exact .ok hb
  | cons ha _ ih =>
    rw [List.foldlM_cons, List.foldlM_cons]
    exact (hstep _ _ _ _ hb ha).bind fun _ _ h => ih h

end Agree

/-! ## Work that stops halfway -/

namespace Attempt

variable {σ : Type}

/-- If an error stops the work, it is one of `P`. -/
def StopsIn (P : Error → Prop) (a : Attempt σ) : Prop := ∀ e, a.error? = some e → P e

@[simp]
theorem stopsIn_done (s : σ) : StopsIn P { state := s } := by
  intro e h
  cases h

@[simp]
theorem stopsIn_stop {s : σ} {e : Error} : StopsIn P (stop s e) ↔ P e := by
  simp [StopsIn, stop]

theorem stopsIn_ofExcept {s : σ} {x : Except Error σ} (hx : ErrorsIn P x) :
    StopsIn P (ofExcept s x) := by
  cases x with
  | error e => exact stopsIn_stop.mpr (hx e rfl)
  | ok s' => exact stopsIn_done s'

theorem stopsIn_forEach {step : α → σ → Attempt σ} {xs : List α}
    (hstep : ∀ x ∈ xs, ∀ s, StopsIn P (step x s)) (s : σ) : StopsIn P (forEach step xs s) := by
  induction xs generalizing s with
  | nil => exact stopsIn_done s
  | cons x xs ih =>
    unfold forEach
    dsimp only
    split
    · exact ih (fun x hx => hstep x (List.mem_cons_of_mem _ hx)) _
    · exact hstep x List.mem_cons_self s

theorem errorsIn_toExcept {a : Attempt σ} (ha : StopsIn P a) : ErrorsIn P a.toExcept := by
  unfold toExcept
  split
  · exact errorsIn_ok _
  · rename_i e he
    exact errorsIn_error.mpr (ha e he)

theorem error?_ofExcept {e : Error} {s : σ} {x : Except Error σ} :
    (ofExcept s x).error? = some e ↔ x = .error e := by
  cases x with
  | error e' => simp [ofExcept, stop]
  | ok s' => simp [ofExcept]

theorem toExcept_eq_error_iff {e : Error} {a : Attempt σ} :
    a.toExcept = .error e ↔ a.error? = some e := by
  unfold toExcept
  cases h : a.error? with
  | none => simp
  | some e' => simp

/-- An error stops the work at one of the items, and nothing before it fails. -/
theorem error?_forEach {step : α → σ → Attempt σ} {e : Error} {xs : List α} {s : σ} :
    (forEach step xs s).error? = some e ↔ ∃ front x back, xs = front ++ x :: back ∧
      (forEach step front s).error? = none ∧
      (step x (forEach step front s).state).error? = some e := by
  induction xs generalizing s with
  | nil => simp [forEach]
  | cons y xs ih =>
    cases hy : (step y s).error? with
    | some e' =>
      have hstop : forEach step (y :: xs) s = step y s := by
        rw [forEach]
        simp only [hy]
      rw [hstop]
      constructor
      · intro h
        exact ⟨[], y, xs, rfl, rfl, h⟩
      · rintro ⟨front, x, back, hsplit, hfront, hx⟩
        cases front with
        | nil =>
          obtain ⟨rfl, rfl⟩ := List.cons.inj hsplit
          exact hx
        | cons z front =>
          obtain ⟨rfl, -⟩ := List.cons.inj hsplit
          simp [forEach, hy] at hfront
    | none =>
      have hnext (zs : List α) : forEach step (y :: zs) s = forEach step zs (step y s).state := by
        rw [forEach]
        simp only [hy]
      rw [hnext, ih]
      constructor
      · rintro ⟨front, x, back, rfl, hfront, hx⟩
        exact ⟨y :: front, x, back, rfl, by rwa [hnext], by rwa [hnext]⟩
      · rintro ⟨front, x, back, hsplit, hfront, hx⟩
        cases front with
        | nil =>
          obtain ⟨rfl, rfl⟩ := List.cons.inj hsplit
          rw [show forEach step [] s = { state := s } from rfl, hy] at hx
          cases hx
        | cons z front =>
          obtain ⟨rfl, rfl⟩ := List.cons.inj hsplit
          rw [hnext] at hfront hx
          exact ⟨front, x, back, rfl, hfront, hx⟩

/-! ## Work side by side -/

variable {τ : Type} {R : σ → τ → Prop}

/-- Both are done with states that `R` relates, or both are stopped. -/
def Agrees (R : σ → τ → Prop) (a : Attempt σ) (b : Attempt τ) : Prop :=
  (a.error? = none ↔ b.error? = none) ∧ (a.error? = none → R a.state b.state)

theorem agrees_done {s : σ} {t : τ} (h : R s t) : Agrees R { state := s } { state := t } :=
  ⟨Iff.rfl, fun _ => h⟩

theorem agrees_stop (s : σ) (t : τ) (e e' : Error) : Agrees R (stop s e) (stop t e') := by
  refine ⟨?_, ?_⟩
  · simp [stop]
  · intro h
    cases h

theorem Agrees.ite {c : Prop} [Decidable c] {a a' : Attempt σ} {b b' : Attempt τ}
    (hpos : c → Agrees R a b) (hneg : ¬c → Agrees R a' b') :
    Agrees R (if c then a else a') (if c then b else b') := by
  split
  · exact hpos ‹_›
  · exact hneg ‹_›

theorem agrees_ofExcept {x : Except Error σ} {y : Except Error τ}
    (h : Agree (fun _ _ => True) R x y) (s : σ) (t : τ) :
    Agrees R (ofExcept s x) (ofExcept t y) := by
  cases h with
  | ok h => exact agrees_done h
  | error _ => exact agrees_stop s t _ _

theorem Agrees.forEach_cons {S : σ → τ → Prop} {step : α → σ → Attempt σ}
    {step' : β → τ → Attempt τ} {x : α} {y : β} {xs : List α} {ys : List β} {s : σ} {t : τ}
    (hfirst : Agrees S (step x s) (step' y t))
    (hrest : (step x s).error? = none →
      Agrees R (forEach step xs (step x s).state) (forEach step' ys (step' y t).state)) :
    Agrees R (forEach step (x :: xs) s) (forEach step' (y :: ys) t) := by
  obtain ⟨hiff, -⟩ := hfirst
  unfold forEach
  dsimp only
  cases ha : (step x s).error? with
  | none =>
    rw [hiff.mp ha]
    exact hrest ha
  | some e =>
    cases hb : (step' y t).error? with
    | none =>
      rw [hiff.mpr hb] at ha
      cases ha
    | some e' =>
      refine ⟨?_, ?_⟩
      · rw [ha, hb]
        simp
      · intro hnone
        rw [ha] at hnone
        cases hnone

theorem agrees_forEach {step : α → σ → Attempt σ} {step' : α → τ → Attempt τ}
    (hstep : ∀ x s t, R s t → Agrees R (step x s) (step' x t)) (xs : List α) {s : σ} {t : τ}
    (h : R s t) : Agrees R (forEach step xs s) (forEach step' xs t) := by
  induction xs generalizing s t with
  | nil => exact agrees_done h
  | cons x xs ih =>
    have hfirst := hstep x s t h
    exact hfirst.forEach_cons fun hok => ih (hfirst.2 hok)

end Attempt

end TerseCss
