import Mathlib.Logic.Function.Basic
import LabInABox.Run

/-!
# Programs that share files

Several processes read and write the same files, a whole file at a time, and their steps interleave
in any order. A `Program` is what a process still has to do: what it does after a read may depend on
what it read. A change in one step (`alter`) is one that no other process can come between.

* `Lands` is the condition on a step: a write replaces the content that the process read last, and a
  change in one step meets a content it can be made on (`ok`).
* `has` says that a file holds something. A program `WillAdd` it when it ends with it held, whatever
  it reads, unless another takes it out; a program with `NoDrop` takes it out only where it adds it
  again.

Results:
* `Safe.step`: a step that lands keeps the thing held, or some process still adds it.
* `Safe.run`: so do all of them together. `Safe.has_of_finished` reads it at the end.
-/

namespace LabInABox

/-- What a process still has to do with the files `φ` of contents `τ`, by the changes `δ`. -/
inductive Program (φ τ δ : Type)
  | done
  | read (f : φ) (k : τ → Program φ τ δ)
  | write (f : φ) (t : τ) (k : Program φ τ δ)
  | alter (f : φ) (d : δ) (k : Program φ τ δ)

/-- A process: what it still has to do, and what it read last of each file. -/
structure Process (φ τ δ : Type) where
  program : Program φ τ δ
  seen : φ → Option τ

/-- The files, and the processes that share them. -/
structure Shared (ι φ τ δ : Type) where
  files : φ → τ
  processes : ι → Process φ τ δ

namespace Shared

variable {ι φ τ δ : Type} [DecidableEq ι] [DecidableEq φ]

/-- The next step of a process. -/
def step (apply : δ → τ → τ) (s : Shared ι φ τ δ) (i : ι) : Shared ι φ τ δ :=
  match (s.processes i).program with
  | .done => s
  | .read f k =>
    { s with
      processes := Function.update s.processes i
        ⟨k (s.files f), Function.update (s.processes i).seen f (some (s.files f))⟩ }
  | .write f t k =>
    { files := Function.update s.files f t
      processes := Function.update s.processes i ⟨k, (s.processes i).seen⟩ }
  | .alter f d k =>
    { files := Function.update s.files f (apply d (s.files f))
      processes := Function.update s.processes i ⟨k, (s.processes i).seen⟩ }

/-- The next step of a process replaces what it read last, or meets a content it can be made on. -/
def Lands (ok : φ → δ → τ → Prop) (s : Shared ι φ τ δ) (i : ι) : Prop :=
  match (s.processes i).program with
  | .write f _ _ => (s.processes i).seen f = some (s.files f)
  | .alter f d _ => ok f d (s.files f)
  | .done | .read _ _ => True

instance decidableLands (ok : φ → δ → τ → Prop) [∀ f d t, Decidable (ok f d t)] [DecidableEq τ]
    (s : Shared ι φ τ δ) (i : ι) : Decidable (s.Lands ok i) := by
  unfold Lands
  split <;> infer_instance

/-- No process has anything left to do. -/
def Finished (s : Shared ι φ τ δ) : Prop := ∀ i, (s.processes i).program = .done

end Shared

namespace Program

/-- The program is at its end. -/
def isDone {φ τ δ : Type} : Program φ τ δ → Bool
  | done => true
  | read .. | write .. | alter .. => false

theorem isDone_iff {φ τ δ : Type} {p : Program φ τ δ} : p.isDone = true ↔ p = done := by
  cases p <;> simp [isDone]

end Program

namespace Shared

variable {ι φ τ δ : Type} [DecidableEq ι] [DecidableEq φ] {apply : δ → τ → τ}

/-- **A step is one process's**: the others are where they were. -/
theorem step_processes_of_ne (s : Shared ι φ τ δ) {i j : ι} (h : j ≠ i) :
    (s.step apply i).processes j = s.processes j := by
  unfold step
  split
  · rfl
  all_goals exact Function.update_of_ne h _ _

theorem foldl_processes_of_not_mem {s : Shared ι φ τ δ} {is : List ι} {j : ι} (h : j ∉ is) :
    (is.foldl (step apply) s).processes j = s.processes j := by
  induction is generalizing s with
  | nil => rfl
  | cons i is ih =>
    rw [List.mem_cons, not_or] at h
    rw [List.foldl_cons, ih h.2, step_processes_of_ne s h.1]

/-- A schedule ends the run when the processes it names are at their end, and the others were. -/
theorem finished_foldl {s : Shared ι φ τ δ} {is : List ι}
    (hin : ∀ i ∈ is, ((is.foldl (step apply) s).processes i).program.isDone = true)
    (hout : ∀ i, i ∉ is → (s.processes i).program = .done) :
    (is.foldl (step apply) s).Finished := fun i => by
  by_cases hi : i ∈ is
  · exact Program.isDone_iff.mp (hin i hi)
  · rw [foldl_processes_of_not_mem hi]
    exact hout i hi

end Shared

/-! ## What a program does to what a file holds -/

namespace Program

variable {φ τ δ : Type} [DecidableEq φ] (apply : δ → τ → τ) (ok : φ → δ → τ → Prop) (has : τ → Prop)
  (f : φ)

/-- The program puts it there, or reads that it is there. -/
def WillAdd : Program φ τ δ → Prop
  | done => False
  | read g k => ∀ t, (g = f ∧ has t) ∨ WillAdd (k t)
  | write g t k => (g = f ∧ has t) ∨ WillAdd k
  | alter g d k => (g = f ∧ ∀ t, ok g d t → has (apply d t)) ∨ WillAdd k

/-- The program takes it out only where it still adds it, given what was read last of the file. -/
def NoDrop : Option τ → Program φ τ δ → Prop
  | _, done => True
  | seen, read g k => ∀ t, NoDrop (if g = f then some t else seen) (k t)
  | seen, write g t k =>
    (g = f → ∀ t₀ ∈ seen, has t₀ → has t ∨ WillAdd apply ok has f k) ∧ NoDrop seen k
  | seen, alter g d k =>
    (g = f → ∀ t, ok g d t → has t → has (apply d t) ∨ WillAdd apply ok has f k) ∧ NoDrop seen k

end Program

namespace Shared

variable {ι φ τ δ : Type} [DecidableEq ι] [DecidableEq φ] (apply : δ → τ → τ)
  (ok : φ → δ → τ → Prop) (has : τ → Prop) (f : φ)

/-- **The invariant**: the file holds it or a process still adds it, and none drops it for good. -/
structure Safe (s : Shared ι φ τ δ) : Prop where
  held : has (s.files f) ∨ ∃ i, (s.processes i).program.WillAdd apply ok has f
  noDrop : ∀ i, (s.processes i).program.NoDrop apply ok has f ((s.processes i).seen f)

variable {apply ok has f} {s s' : Shared ι φ τ δ} {i : ι}

/-- The processes after one of them made a step. -/
theorem noDrop_update {files : φ → τ} {p : Process φ τ δ} (h : s.Safe apply ok has f)
    (hp : p.program.NoDrop apply ok has f (p.seen f)) (j : ι) :
    ((⟨files, Function.update s.processes i p⟩ : Shared ι φ τ δ).processes j).program.NoDrop apply ok has f
      (((⟨files, Function.update s.processes i p⟩ : Shared ι φ τ δ).processes j).seen f) := by
  by_cases hj : j = i
  · subst hj
    dsimp only
    rw [Function.update_self]
    exact hp
  · dsimp only
    rw [Function.update_of_ne hj]
    exact h.noDrop j

omit [DecidableEq φ] in
/-- A process that still adds it does so after another made a step. -/
theorem held_update {files : φ → τ} {p : Process φ τ δ}
    (h : has (files f) ∨ p.program.WillAdd apply ok has f ∨
      ∃ j, j ≠ i ∧ (s.processes j).program.WillAdd apply ok has f) :
    has ((⟨files, Function.update s.processes i p⟩ : Shared ι φ τ δ).files f) ∨
      ∃ j, ((⟨files, Function.update s.processes i p⟩ : Shared ι φ τ δ).processes j).program.WillAdd
        apply ok has f := by
  rcases h with h | h | ⟨j, hj, h⟩
  · exact Or.inl h
  · refine Or.inr ⟨i, ?_⟩
    dsimp only
    rwa [Function.update_self]
  · refine Or.inr ⟨j, ?_⟩
    dsimp only
    rwa [Function.update_of_ne hj]

/-- **A step that lands keeps the invariant.** -/
theorem Safe.step (h : s.Safe apply ok has f) (hl : s.Lands ok i) : (s.step apply i).Safe apply ok has f := by
  have hheld : has (s.files f) ∨ (s.processes i).program.WillAdd apply ok has f ∨
      ∃ j, j ≠ i ∧ (s.processes j).program.WillAdd apply ok has f := by
    rcases h.held with hf | ⟨j, hj⟩
    · exact Or.inl hf
    · by_cases hji : j = i
      · exact Or.inr (Or.inl (hji ▸ hj))
      · exact Or.inr (Or.inr ⟨j, hji, hj⟩)
  have hnd := h.noDrop i
  unfold Shared.Lands at hl
  unfold Shared.step
  cases hp : (s.processes i).program with
  | done =>
    dsimp only
    exact h
  | read g k =>
    rw [hp] at hheld hnd
    dsimp only
    refine ⟨held_update ?_, noDrop_update h ?_⟩
    · rcases hheld with hf | hw | hj
      · exact Or.inl hf
      · rcases hw (s.files g) with ⟨rfl, ht⟩ | hw
        · exact Or.inl ht
        · exact Or.inr (Or.inl hw)
      · exact Or.inr (Or.inr hj)
    · have hk := hnd (s.files g)
      by_cases hg : g = f
      · subst hg
        dsimp only
        rw [Function.update_self]
        rwa [if_pos rfl] at hk
      · dsimp only
        rw [Function.update_of_ne (Ne.symm hg)]
        rwa [if_neg hg] at hk
  | write g t k =>
    rw [hp] at hheld hnd hl
    dsimp only at hl ⊢
    refine ⟨held_update ?_, noDrop_update h hnd.2⟩
    by_cases hg : g = f
    · subst hg
      rw [Function.update_self]
      rcases hheld with hf | (⟨_, ht⟩ | hw) | hj
      · rcases hnd.1 rfl _ hl hf with ht | hw
        · exact Or.inl ht
        · exact Or.inr (Or.inl hw)
      · exact Or.inl ht
      · exact Or.inr (Or.inl hw)
      · exact Or.inr (Or.inr hj)
    · rw [Function.update_of_ne (Ne.symm hg)]
      rcases hheld with hf | (⟨he, _⟩ | hw) | hj
      · exact Or.inl hf
      · exact absurd he hg
      · exact Or.inr (Or.inl hw)
      · exact Or.inr (Or.inr hj)
  | alter g d k =>
    rw [hp] at hheld hnd hl
    dsimp only at hl ⊢
    refine ⟨held_update ?_, noDrop_update h hnd.2⟩
    by_cases hg : g = f
    · subst hg
      rw [Function.update_self]
      rcases hheld with hf | (⟨_, hu⟩ | hw) | hj
      · rcases hnd.1 rfl _ hl hf with ht | hw
        · exact Or.inl ht
        · exact Or.inr (Or.inl hw)
      · exact Or.inl (hu _ hl)
      · exact Or.inr (Or.inl hw)
      · exact Or.inr (Or.inr hj)
    · rw [Function.update_of_ne (Ne.symm hg)]
      rcases hheld with hf | (⟨he, _⟩ | hw) | hj
      · exact Or.inl hf
      · exact absurd he hg
      · exact Or.inr (Or.inl hw)
      · exact Or.inr (Or.inr hj)

/-- **So does a run whose steps all land.** -/
theorem Safe.run (h : s.Safe apply ok has f) (hrun : Reached (Shared.Lands ok) (Shared.step apply) s s') :
    s'.Safe apply ok has f :=
  hrun.invariant h fun _ _ hs hl => hs.step hl

omit [DecidableEq ι] in
/-- **At the end it is held.** -/
theorem Safe.has_of_finished (h : s.Safe apply ok has f) (hf : s.Finished) : has (s.files f) := by
  rcases h.held with hheld | ⟨i, hi⟩
  · exact hheld
  · rw [hf i] at hi
    exact hi.elim

end Shared

end LabInABox
