-- Work that may stop halfway. What it wrote before the error stays.
import TerseCss.Error

namespace TerseCss

/-- The state that some work reached, and the error that stopped it there, if any. -/
structure Attempt (σ : Type) where
  state : σ
  error? : Option Error := none

namespace Attempt

variable {σ α : Type}

/-- Stops at once. -/
def stop (s : σ) (e : Error) : Attempt σ := { state := s, error? := some e }

/-- Work that leaves the state alone if it fails. -/
def ofExcept (s : σ) : Except Error σ → Attempt σ
  | .ok s' => { state := s' }
  | .error e => stop s e

/-- Does `step` for one item after the other, up to the first error. -/
def forEach (step : α → σ → Attempt σ) : List α → σ → Attempt σ
  | [], s => { state := s }
  | x :: xs, s =>
    let a := step x s
    match a.error? with
    | none => forEach step xs a.state
    | some _ => a

/-- What every step keeps, the whole work keeps, also where it stops. -/
theorem forEach_keeps {P : σ → Prop} {step : α → σ → Attempt σ}
    (hstep : ∀ x s, P s → P (step x s).state) (xs : List α) {s : σ} (hs : P s) :
    P (forEach step xs s).state := by
  induction xs generalizing s with
  | nil => exact hs
  | cons x xs ih =>
    unfold forEach
    dsimp only
    split
    · exact ih (hstep x s hs)
    · exact hstep x s hs

/-- Looks at the state from outside. -/
def map (f : σ → α) (a : Attempt σ) : Attempt α := { state := f a.state, error? := a.error? }

/-- The state, if no error stopped the work. -/
def toExcept (a : Attempt σ) : Except Error σ :=
  match a.error? with
  | none => .ok a.state
  | some e => .error e

end Attempt

end TerseCss
