import Mathlib.Data.List.Forall2

/-!
# Machines that answer

A machine takes commands one after another. It goes to another state at each and answers it.

* `answering step s as` is the state after the commands and the answers, in their order.
* `R` relates the states of two machines, and `S` their commands.

Results:
* `answering_append`: a run goes on where another ends.
* `Simulates.run`: machines that answer alike in related states give the same answers over a whole run.
* `Simulates.refines`: the same, for two machines that are given the same commands.
* `answering_filter`: commands that change nothing may be left out.
-/

namespace LabInABox.Simulation

variable {σ τ α β ω : Type*}

/-- The state after the commands, and the answers. -/
def answering (step : σ → α → σ × ω) : σ → List α → σ × List ω
  | s, [] => (s, [])
  | s, a :: as => ((answering step (step s a).1 as).1, (step s a).2 :: (answering step (step s a).1 as).2)

theorem answering_append (step : σ → α → σ × ω) (s : σ) (as bs : List α) :
    answering step s (as ++ bs) =
      ((answering step (answering step s as).1 bs).1,
        (answering step s as).2 ++ (answering step (answering step s as).1 bs).2) := by
  induction as generalizing s with
  | nil => rfl
  | cons a as ih =>
    rw [List.cons_append, answering, ih]
    rfl

/-- In related states, related commands lead to related states and to one answer. -/
def Simulates (R : σ → τ → Prop) (S : α → β → Prop) (step : σ → α → σ × ω) (step' : τ → β → τ × ω) : Prop :=
  ∀ s t a b, R s t → S a b → R (step s a).1 (step' t b).1 ∧ (step s a).2 = (step' t b).2

variable {R : σ → τ → Prop} {S : α → β → Prop} {step : σ → α → σ × ω} {step' : τ → β → τ × ω}

/-- **A simulation of steps** is one of runs. -/
theorem Simulates.run (h : Simulates R S step step') {s : σ} {t : τ} (hr : R s t) {as : List α}
    {bs : List β} (hs : List.Forall₂ S as bs) :
    R (answering step s as).1 (answering step' t bs).1 ∧
      (answering step s as).2 = (answering step' t bs).2 := by
  induction hs generalizing s t with
  | nil => exact ⟨hr, rfl⟩
  | cons hab _ ih =>
    obtain ⟨hr', ho⟩ := h _ _ _ _ hr hab
    obtain ⟨hr'', hos⟩ := ih hr'
    exact ⟨hr'', congrArg₂ List.cons ho hos⟩

/-- **A refinement** answers as what it refines. -/
theorem Simulates.refines {step' : τ → α → τ × ω} (h : Simulates R Eq step step') {s : σ} {t : τ} (hr : R s t)
    (as : List α) :
    R (answering step s as).1 (answering step' t as).1 ∧
      (answering step s as).2 = (answering step' t as).2 :=
  h.run hr (List.forall₂_refl as)

/-- What every step keeps holds after a run. -/
theorem answering_invariant {I : σ → Prop} (h : ∀ s a, I s → I (step s a).1) {s : σ} (hi : I s) (as : List α) :
    I (answering step s as).1 := by
  induction as generalizing s with
  | nil => exact hi
  | cons a as ih => exact ih (h s a hi)

/-- **Commands that change nothing** are not noticed by the others. -/
theorem answering_filter {keep : α → Bool} (h : ∀ s a, keep a = false → (step s a).1 = s) (s : σ) (as : List α) :
    (answering step s (as.filter keep)).1 = (answering step s as).1 ∧
      (answering step s (as.filter keep)).2 =
        ((as.zip (answering step s as).2).filter fun e => keep e.1).map Prod.snd := by
  induction as generalizing s with
  | nil => exact ⟨rfl, rfl⟩
  | cons a as ih =>
    cases ha : keep a with
    | true =>
      rw [List.filter_cons_of_pos ha, answering, answering, List.zip_cons_cons,
        List.filter_cons_of_pos (by exact ha), List.map_cons]
      exact ⟨(ih _).1, congrArg _ (ih _).2⟩
    | false =>
      have hs := h s a ha
      rw [List.filter_cons_of_neg (by rw [ha]; decide), answering, hs, List.zip_cons_cons,
        List.filter_cons_of_neg (by dsimp only; rw [ha]; decide)]
      exact ih s

end LabInABox.Simulation
