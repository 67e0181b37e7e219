import Mathlib.Data.List.Basic

/-!
# Runs that report

General facts about loops that carry a state, report something at each element, and may stop at one.

Results:
* `mem_reports_iff`: what is reported is what some element reports in the state the ones before it left.
* `after_knows_iff`: what a state knows after a run, when each element tells it something or nothing.
* `reportsAt_iff`: what an element reports that asks whether the state knows something.
-/

namespace LabInABox

namespace Reporting

variable {σ α β : Type*} (step : σ → α → Option (σ × List β))

/-- The state the elements leave, unless the loop stops at one. -/
def after : σ → List α → Option σ
  | s, [] => some s
  | s, a :: as => (step s a).bind fun r => after r.1 as

/-- What the loop reports, unless it stops. -/
def reports : σ → List α → Option (List β)
  | _, [] => some []
  | s, a :: as => (step s a).bind fun r => (reports r.1 as).map (r.2 ++ ·)

/-- The element reports this in its turn. -/
def ReportsAt (s : σ) (l : List α) (a : α) (b : β) : Prop :=
  ∃ pre post s' r, l = pre ++ a :: post ∧ after step s pre = some s' ∧ step s' a = some r ∧ b ∈ r.2

variable {step} {s s' : σ} {a : α} {as : List α} {b : β} {bs : List β}

theorem reports_cons_eq_some : reports step s (a :: as) = some bs ↔
    ∃ r rest, step s a = some r ∧ reports step r.1 as = some rest ∧ r.2 ++ rest = bs := by
  rw [reports]
  simp only [Option.bind_eq_some_iff, Option.map_eq_some_iff]
  constructor
  · rintro ⟨r, hr, rest, hrest, rfl⟩
    exact ⟨r, rest, hr, hrest, rfl⟩
  · rintro ⟨r, rest, hr, hrest, rfl⟩
    exact ⟨r, hr, rest, hrest, rfl⟩

theorem reportsAt_cons_iff {c : α} {r : σ × List β} (hr : step s c = some r) :
    ReportsAt step s (c :: as) a b ↔ (a = c ∧ b ∈ r.2) ∨ ReportsAt step r.1 as a b := by
  constructor
  · rintro ⟨pre, post, s', r', hl, hafter, hstep, hb⟩
    cases pre with
    | nil =>
      obtain ⟨rfl, rfl⟩ := List.cons.inj hl
      obtain rfl : s = s' := Option.some.inj hafter
      rw [hr] at hstep
      obtain rfl : r = r' := Option.some.inj hstep
      exact Or.inl ⟨rfl, hb⟩
    | cons p pre =>
      obtain ⟨rfl, htail⟩ := List.cons.inj hl
      rw [after, hr] at hafter
      exact Or.inr ⟨pre, post, s', r', htail, hafter, hstep, hb⟩
  · rintro (⟨rfl, hb⟩ | ⟨pre, post, s', r', rfl, hafter, hstep, hb⟩)
    · exact ⟨[], as, s, r, rfl, rfl, hr, hb⟩
    · refine ⟨c :: pre, post, s', r', rfl, ?_, hstep, hb⟩
      rw [after, hr]
      exact hafter

/-- **What a run reports** is what its elements report in their turns. -/
theorem mem_reports_iff (h : reports step s as = some bs) : b ∈ bs ↔ ∃ a, ReportsAt step s as a b := by
  induction as generalizing s bs with
  | nil =>
    obtain rfl : [] = bs := Option.some.inj h
    refine iff_of_false List.not_mem_nil ?_
    rintro ⟨a, pre, post, _, _, hl, -⟩
    simp at hl
  | cons c as ih =>
    obtain ⟨r, rest, hr, hrest, rfl⟩ := reports_cons_eq_some.mp h
    rw [List.mem_append, ih hrest]
    constructor
    · rintro (hb | ⟨a, ha⟩)
      · exact ⟨c, (reportsAt_cons_iff hr).mpr (Or.inl ⟨rfl, hb⟩)⟩
      · exact ⟨a, (reportsAt_cons_iff hr).mpr (Or.inr ha)⟩
    · rintro ⟨a, ha⟩
      rcases (reportsAt_cons_iff hr).mp ha with ⟨-, hb⟩ | ha
      · exact Or.inl hb
      · exact Or.inr ⟨a, ha⟩

/-- **What a state knows** after a run: what it knew before, and what an element told it. -/
theorem after_knows_iff {knows : σ → Prop} {tells : α → Prop}
    (hstep : ∀ s a r, step s a = some r → (knows r.1 ↔ knows s ∨ tells a)) (h : after step s as = some s') :
    knows s' ↔ knows s ∨ ∃ a ∈ as, tells a := by
  induction as generalizing s with
  | nil =>
    obtain rfl : s = s' := Option.some.inj h
    simp
  | cons c as ih =>
    rw [after, Option.bind_eq_some_iff] at h
    obtain ⟨r, hr, hrest⟩ := h
    rw [ih hrest, hstep s c r hr, List.exists_mem_cons_iff, or_assoc]

/-- A run that does not stop comes to each of its elements, and past it. -/
theorem exists_step {pre post : List α} (h : reports step s (pre ++ a :: post) = some bs) :
    ∃ s' r, after step s pre = some s' ∧ step s' a = some r := by
  induction pre generalizing s bs with
  | nil =>
    obtain ⟨r, -, hr, -, -⟩ := reports_cons_eq_some.mp h
    exact ⟨s, r, rfl, hr⟩
  | cons c pre ih =>
    obtain ⟨r, rest, hr, hrest, rfl⟩ := reports_cons_eq_some.mp h
    obtain ⟨s', r', hafter, hr'⟩ := ih hrest
    refine ⟨s', r', ?_, hr'⟩
    rw [after, hr]
    exact hafter

/-- **What an element reports** that asks whether the state knows something. -/
theorem reportsAt_iff {knows : σ → Prop} {tells : α → Prop} {asks : Prop} (hrun : reports step s as = some bs)
    (hknows : ∀ s a r, step s a = some r → (knows r.1 ↔ knows s ∨ tells a))
    (hreport : ∀ s r, step s a = some r → (b ∈ r.2 ↔ asks ∧ knows s)) :
    ReportsAt step s as a b ↔
      asks ∧ ∃ pre post, as = pre ++ a :: post ∧ (knows s ∨ ∃ c ∈ pre, tells c) := by
  constructor
  · rintro ⟨pre, post, s', r, rfl, hafter, hr, hb⟩
    obtain ⟨hasks, hs'⟩ := (hreport s' r hr).mp hb
    exact ⟨hasks, pre, post, rfl, (after_knows_iff hknows hafter).mp hs'⟩
  · rintro ⟨hasks, pre, post, rfl, hpre⟩
    obtain ⟨s', r, hafter, hr⟩ := exists_step hrun
    exact ⟨pre, post, s', r, rfl, hafter, hr,
      (hreport s' r hr).mpr ⟨hasks, (after_knows_iff hknows hafter).mpr hpre⟩⟩

/-- A loop that never stops reports. -/
theorem exists_reports (h : ∀ s a, ∃ r, step s a = some r) (s : σ) (l : List α) : ∃ bs, reports step s l = some bs := by
  induction l generalizing s with
  | nil => exact ⟨[], rfl⟩
  | cons c l ih =>
    obtain ⟨r, hr⟩ := h s c
    obtain ⟨rest, hrest⟩ := ih r.1
    exact ⟨_, reports_cons_eq_some.mpr ⟨r, rest, hr, hrest, rfl⟩⟩

/-- A run over the images of elements. -/
theorem reports_map {γ : Type*} (f : γ → α) (l : List γ) (s : σ) :
    reports step s (l.map f) = reports (fun s c => step s (f c)) s l := by
  induction l generalizing s with
  | nil => rfl
  | cons c l ih => simp only [List.map_cons, reports, ih]

end Reporting

end LabInABox
