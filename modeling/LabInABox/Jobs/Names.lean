import LabInABox.Jobs.Status

/-!
# Names of files that the helper takes

What a text that passes `safe_name` looks like.

Results:
* `safeName_iff`, `dots_append`: no two dots stand together, of a text that is put together.
* `nameRe_all`: the characters, but for a newline at the end.
-/

namespace LabInABox.Jobs.Status

open Text

/-- The characters that a name may have. -/
def isNameChar (c : Char) : Bool := c.isAlphanum || c = '.' || c = '_' || c = '-'

theorem nameRe_cons (c : Char) (cs : Text) : nameRe (c :: cs) =
    (c.isAlphanum && (cs.all isNameChar || cs.getLast? = some '\n' && cs.dropLast.all isNameChar)) := rfl

theorem safeName_iff {name : Text} :
    safeName name = true ↔ nameRe name = true ∧ ¬ "..".toList <:+: name := by
  unfold safeName
  rw [Bool.and_eq_true, Bool.not_eq_true', List.any_eq_false]
  refine and_congr_right fun _ => ?_
  rw [List.infix_iff_prefix_suffix]
  constructor
  · rintro h ⟨u, hp, hs⟩
    exact h u ((List.mem_tails _ _).mpr hs) (List.isPrefixOf_iff_prefix.mpr hp)
  · intro h u hu hp
    exact h ⟨u, List.isPrefixOf_iff_prefix.mp hp, (List.mem_tails _ _).mp hu⟩

/-- Two dots stand in one of two texts, or where they meet. -/
theorem dots_append (xs ys : Text) : "..".toList <:+: xs ++ ys ↔
    "..".toList <:+: xs ∨ "..".toList <:+: ys ∨ xs.getLast? = some '.' ∧ ys.head? = some '.' := by
  have hdots : "..".toList = ['.', '.'] := by decide
  rw [hdots, List.infix_append_iff_ne_nil, List.getLast?_eq_some_iff, List.head?_eq_some_iff]
  refine or_congr_right (or_congr_right ?_)
  constructor
  · rintro ⟨l₁, l₂, h₁, h₂, hl, ⟨s, hs⟩, u, hu⟩
    obtain ⟨c, l₁, rfl⟩ := List.exists_cons_of_ne_nil h₁
    obtain ⟨d, l₂, rfl⟩ := List.exists_cons_of_ne_nil h₂
    cases l₁ with
    | nil =>
      simp only [List.cons_append, List.nil_append, List.cons.injEq] at hl
      obtain ⟨rfl, rfl, rfl⟩ := hl
      exact ⟨⟨s, hs.symm⟩, u, hu.symm⟩
    | cons c' l₁ => simp at hl
  · rintro ⟨⟨s, hs⟩, u, hu⟩
    exact ⟨['.'], ['.'], List.cons_ne_nil _ _, List.cons_ne_nil _ _, rfl, ⟨s, hs.symm⟩, u, hu.symm⟩

/-- A name without a newline at its end has only the characters of a name. -/
theorem nameRe_all {name : Text} (h : nameRe name = true) :
    name.all isNameChar = true ↔ name.getLast? ≠ some '\n' := by
  cases name with
  | nil => cases h
  | cons c cs =>
    have hnot : isNameChar '\n' = false := by decide
    rw [nameRe_cons, Bool.and_eq_true, Bool.or_eq_true, Bool.and_eq_true] at h
    obtain ⟨hc, h⟩ := h
    have hhead : isNameChar c = true := by
      unfold isNameChar
      rw [hc]
      rfl
    constructor
    · intro hall hlast
      have := List.all_eq_true.mp hall '\n' (List.mem_of_getLast? hlast)
      rw [hnot] at this
      cases this
    · intro hlast
      rcases h with h | ⟨h, _⟩
      · rw [List.all_cons, hhead, h]
        rfl
      · have hcs : cs ≠ [] := by
          rintro rfl
          cases of_decide_eq_true h
        rw [List.getLast?_cons_of_ne_nil hcs] at hlast
        exact absurd (of_decide_eq_true h) hlast

end LabInABox.Jobs.Status
