import LabInABox.Objects
import LabInABox.Text.Fields

/-!
# Option files

Files of groups and settings, that a program reads one after another: the last setting of a name in a group
counts. Lines are put behind some of the lines of a file.

* How a line is read is a parameter, `Reader`.
* `afterLast p` is what stands behind the last line that `p` selects; `none` of it stands for no such line.

Results:
* `settings_insertAfter`: where every selected line opens the group, what is inserted comes before all that is
  set behind the last one.
* `afterLast_insertAfter`: and it is behind the last one afterwards.
-/

namespace LabInABox.OptionFiles

/-- How lines are read: the group a line opens, or the name and the value it sets. -/
structure Reader where
  group : Text → Option Text
  setting : Text → Option (Text × Text)

section Read

variable (r : Reader) (name : Text)

/-- The settings of lines in a group, when the first line is inside of it or not. -/
def settings : Bool → List Text → List (Text × Text)
  | _, [] => []
  | inside, l :: ls =>
    match r.group l with
    | some g => settings (decide (g = name)) ls
    | none => (if inside then (r.setting l).toList else []) ++ settings inside ls

/-- The value that counts, over files in the order they are read. -/
def effective (files : List (List Text)) (key : Text) : Option Text :=
  dictGet (files.flatMap (settings r name false)) key

variable {r name}

/-- Behind a line that opens the group, what came before does not matter. -/
theorem settings_append_cons {h : Text} (hh : r.group h = some name) (inside : Bool) (ls post : List Text) :
    settings r name inside (ls ++ h :: post) = settings r name inside ls ++ settings r name true post := by
  induction ls generalizing inside with
  | nil => simp [settings, hh]
  | cons l ls ih =>
    rw [List.cons_append, settings, settings]
    cases r.group l with
    | some g => exact ih _
    | none =>
      dsimp only
      rw [ih, List.append_assoc]

/-- Lines that set something inside the group. -/
theorem settings_cons {l : Text} {s : Text × Text} (hg : r.group l = none) (hs : r.setting l = some s)
    (ls : List Text) : settings r name true (l :: ls) = s :: settings r name true ls := by
  rw [settings, hg, hs]
  rfl

end Read

section Insert

variable (p : Text → Bool) (new : List Text)

/-- New lines behind each line that is selected. -/
def insertAfter (ls : List Text) : List Text := ls.flatMap fun l => if p l then l :: new else [l]

/-- The lines behind the last one that is selected. -/
def afterLast : List Text → Option (List Text)
  | [] => none
  | l :: ls => (afterLast ls).or (if p l then some ls else none)

variable {p new} {ls post : List Text}

theorem afterLast_eq_none_iff : afterLast p ls = none ↔ ∀ l ∈ ls, p l = false := by
  induction ls with
  | nil => simp [afterLast]
  | cons l ls ih =>
    rw [afterLast, Option.or_eq_none_iff, ih]
    simp [and_comm]

/-- The lines up to the last one that is selected, and those behind it. -/
theorem exists_of_afterLast (h : afterLast p ls = some post) :
    ∃ pre l, ls = pre ++ l :: post ∧ p l = true ∧ ∀ x ∈ post, p x = false := by
  induction ls with
  | nil => cases h
  | cons l ls ih =>
    rw [afterLast] at h
    cases hls : afterLast p ls with
    | some rest =>
      rw [hls, Option.some_or, Option.some_inj] at h
      obtain ⟨pre, x, heq, hx, hpost⟩ := ih (hls.trans (congrArg some h))
      exact ⟨l :: pre, x, by rw [heq, List.cons_append], hx, hpost⟩
    | none =>
      rw [hls, Option.none_or] at h
      split at h
      · rename_i hl
        obtain rfl := Option.some.inj h
        exact ⟨[], l, rfl, hl, afterLast_eq_none_iff.mp hls⟩
      · cases h

theorem afterLast_append_cons {pre : List Text} {l : Text} (hl : p l = true) (hpost : ∀ x ∈ post, p x = false) :
    afterLast p (pre ++ l :: post) = some post := by
  induction pre with
  | nil => rw [List.nil_append, afterLast, afterLast_eq_none_iff.mpr hpost, Option.none_or, if_pos hl]
  | cons x pre ih => rw [List.cons_append, afterLast, ih, Option.some_or]

/-- Nothing is selected, and nothing is inserted. -/
theorem insertAfter_of_none (h : ∀ l ∈ ls, p l = false) : insertAfter p new ls = ls := by
  induction ls with
  | nil => rfl
  | cons l ls ih =>
    have hl := h l List.mem_cons_self
    have ih' := ih fun x hx => h x (List.mem_cons_of_mem l hx)
    rw [insertAfter] at ih'
    rw [insertAfter, List.flatMap_cons, ih', hl]
    rfl

theorem insertAfter_append_cons {pre : List Text} {l : Text} (hl : p l = true) (hpost : ∀ x ∈ post, p x = false) :
    insertAfter p new (pre ++ l :: post) = insertAfter p new pre ++ l :: (new ++ post) := by
  have hrest : insertAfter p new post = post := insertAfter_of_none hpost
  rw [insertAfter] at hrest
  rw [insertAfter, List.flatMap_append, List.flatMap_cons, if_pos hl, hrest]
  rfl

/-- **What is inserted stands behind the last line**, before what stood there. -/
theorem afterLast_insertAfter (hnew : ∀ x ∈ new, p x = false) (h : afterLast p ls = some post) :
    afterLast p (insertAfter p new ls) = some (new ++ post) := by
  obtain ⟨pre, l, rfl, hl, hpost⟩ := exists_of_afterLast h
  rw [insertAfter_append_cons hl hpost]
  refine afterLast_append_cons hl fun x hx => ?_
  exact (List.mem_append.mp hx).elim (hnew x) (hpost x)

/-- New lines make a file longer. -/
theorem length_insertAfter (new : List Text) (hnew : new ≠ []) (h : afterLast p ls = some post) :
    ls.length < (insertAfter p new ls).length := by
  obtain ⟨pre, l, rfl, hl, hpost⟩ := exists_of_afterLast h
  have hle : ∀ ls : List Text, ls.length ≤ (insertAfter p new ls).length := by
    intro ls
    induction ls with
    | nil => exact le_refl 0
    | cons l ls ih =>
      rw [insertAfter, List.flatMap_cons, List.length_append, List.length_cons]
      rw [insertAfter] at ih
      split <;> simp only [List.length_cons, List.length_nil] <;> omega
  have hpos := List.length_pos_of_ne_nil hnew
  have := hle pre
  rw [insertAfter_append_cons hl hpost]
  simp only [List.length_append, List.length_cons]
  omega

/-- **The settings of a file with new lines**: up to the last of them, those of the new lines, and the others. -/
theorem settings_insertAfter {r : Reader} {name : Text} (new : List Text) (hp : ∀ l, p l = true → r.group l = some name)
    (h : afterLast p ls = some post) : ∃ before, settings r name false (insertAfter p new ls) =
      before ++ settings r name true (new ++ post) := by
  obtain ⟨pre, l, rfl, hl, hpost⟩ := exists_of_afterLast h
  rw [insertAfter_append_cons hl hpost]
  exact ⟨_, settings_append_cons (hp l hl) false _ _⟩

end Insert

end LabInABox.OptionFiles
