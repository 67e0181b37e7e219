import Mathlib.Order.Defs.PartialOrder

/-!
# Runs whose steps meet a condition

`Reached ok step s₀ s` says the state `s` is reached from `s₀` by steps that each met their
condition in the state they were taken in.

Results:
* `Reached.invariant`: what holds at the start and is kept by every step that meets its condition
  holds in every state reached.
* `Reached.run`: a list of steps that `Meets` its conditions reaches the state it ends in.
-/

namespace LabInABox

variable {σ α : Type*}

/-- The states reached by steps that meet their condition. -/
inductive Reached (ok : σ → α → Prop) (step : σ → α → σ) (s₀ : σ) : σ → Prop
  | start : Reached ok step s₀ s₀
  | next {s : σ} (a : α) (h : Reached ok step s₀ s) (hok : ok s a) : Reached ok step s₀ (step s a)

variable {ok : σ → α → Prop} {step : σ → α → σ} {s₀ s : σ}

/-- **The invariant rule.** -/
theorem Reached.invariant {I : σ → Prop} (h : Reached ok step s₀ s) (h₀ : I s₀)
    (hstep : ∀ s a, I s → ok s a → I (step s a)) : I s := by
  induction h with
  | start => exact h₀
  | next a _ hok ih => exact hstep _ a ih hok

/-- Each step of the list meets its condition where it is taken. -/
def Meets (ok : σ → α → Prop) (step : σ → α → σ) : σ → List α → Prop
  | _, [] => True
  | s, a :: as => ok s a ∧ Meets ok step (step s a) as

instance Meets.decidable [∀ s a, Decidable (ok s a)] : ∀ s as, Decidable (Meets ok step s as)
  | _, [] => inferInstanceAs (Decidable True)
  | s, a :: as =>
    have := Meets.decidable (step s a) as
    inferInstanceAs (Decidable (_ ∧ _))

theorem Reached.run (h : Reached ok step s₀ s) {as : List α} (hm : Meets ok step s as) :
    Reached ok step s₀ (as.foldl step s) := by
  induction as generalizing s with
  | nil => exact h
  | cons a as ih => exact ih (h.next a hm.1) hm.2

end LabInABox
