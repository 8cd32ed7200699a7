/-
# Runs of a machine that takes one input at a time

A device driven by register accesses, or one thread driven by what its
surroundings answer, is a function from a state and an input to the next
state. `none` says that the input cannot be taken there. A run feeds a list
of inputs; a guard restricts the inputs a run may take, by a test on the
state before the step.

Nothing here names a program. What is proved is the induction over runs
(`run_inv`). A run on given inputs is found by evaluation.
-/
import Mathlib

namespace Conc

variable {σ α : Type}

/-- The state after the inputs `as`, if each could be taken. -/
def run (step : σ → α → Option σ) : σ → List α → Option σ
  | s, [] => some s
  | s, a :: as => (step s a).bind fun t => run step t as

/-- The machine that only takes the inputs that pass `ok`. -/
def guarded (ok : σ → α → Bool) (step : σ → α → Option σ) (s : σ) (a : α) : Option σ :=
  if ok s a then step s a else none

instance decidableExistsSome {β : Type*} {o : Option β} {P : β → Prop}
    [DecidablePred P] : Decidable (∃ b, o = some b ∧ P b) :=
  inferInstanceAs (Decidable (∃ b ∈ o, P b))

variable {step : σ → α → Option σ} {ok : σ → α → Bool}
variable {s t : σ} {a : α} {as : List α}

theorem run_cons_eq_some : run step s (a :: as) = some t ↔
      ∃ u, step s a = some u ∧ run step u as = some t := by
  simp only [run, Option.bind_eq_some_iff]

theorem guarded_eq_some : guarded ok step s a = some t ↔ ok s a = true ∧ step s a = some t := by
  unfold guarded
  split <;> simp_all

/-- What every step keeps, every run keeps. -/
theorem run_inv {I : σ → Prop} (hstep : ∀ s a t, I s → step s a = some t → I t)
    (h : run step s as = some t) (hs : I s) : I t := by
  induction as generalizing s with
  | nil => cases h; exact hs
  | cons a as ih =>
    obtain ⟨u, hu, hrest⟩ := run_cons_eq_some.1 h
    exact ih hrest (hstep _ _ _ hs hu)

end Conc
