import Mathlib.Data.List.Perm.Basic

/-!
# Steps that write and may raise

A step appends entries to a log and either returns or raises. `runAll` makes a step for each element
of a list and stops at the first that raises; `andThen` goes on from a log when nothing was raised.

Results:
* `runAll_returns_iff`, `runAll_log`: a loop returns iff every step does, and has then written what
  each of them writes.
* `andThen_returns_iff`: so does a sequence.
* `Pooled.mem`: in a pool too, what is written comes from a step all of whose entries are written.
* `Pooled.returns_iff`, `Pooled.perm`: a pool returns iff every step does, and has then written what one
  after the other would, in some order.
* `Pooled.map`: what simulates each step simulates the pool.
-/

namespace LabInABox

variable {α ω ε : Type*}

/-- What a step wrote, and what it raised. -/
abbrev Attempt (ω ε : Type*) := List ω × Option ε

/-- Go on from the log, unless something was raised. -/
def andThen (p : Attempt ω ε) (k : List ω → Attempt ω ε) : Attempt ω ε :=
  match p with
  | (log, some r) => (log, some r)
  | (log, none) => (log ++ (k log).1, (k log).2)

/-- One step for each element, up to the first that raises. -/
def runAll (f : α → Attempt ω ε) : List α → Attempt ω ε
  | [] => ([], none)
  | x :: xs => andThen (f x) fun _ => runAll f xs

@[simp] theorem andThen_none (log : List ω) (k : List ω → Attempt ω ε) :
    andThen (log, none) k = (log ++ (k log).1, (k log).2) := rfl

@[simp] theorem andThen_some (log : List ω) (r : ε) (k : List ω → Attempt ω ε) :
    andThen (log, some r) k = (log, some r) := rfl

theorem andThen_returns_iff {p : Attempt ω ε} {k : List ω → Attempt ω ε} :
    (andThen p k).2 = none ↔ p.2 = none ∧ (k p.1).2 = none := by
  obtain ⟨log, r⟩ := p
  cases r with
  | none => simp
  | some r => simp

theorem andThen_log {p : Attempt ω ε} {k : List ω → Attempt ω ε} (h : p.2 = none) :
    (andThen p k).1 = p.1 ++ (k p.1).1 := by
  obtain ⟨log, r⟩ := p
  obtain rfl : r = none := h
  rfl

theorem andThen_const (p : Attempt ω ε) (k : List ω → Attempt ω ε) :
    andThen p k = andThen p fun _ => k p.1 := by
  obtain ⟨log, r⟩ := p
  cases r with
  | none => rfl
  | some r => rfl

theorem subset_andThen (p : Attempt ω ε) (k : List ω → Attempt ω ε) : p.1 ⊆ (andThen p k).1 := by
  obtain ⟨log, r⟩ := p
  cases r with
  | none => exact List.subset_append_left _ _
  | some r => exact List.Subset.refl _

/-- Nothing but a step writes an entry. -/
theorem mem_andThen {p : Attempt ω ε} {k : List ω → Attempt ω ε} {e : ω} (h : e ∈ (andThen p k).1) :
    e ∈ p.1 ∨ (p.2 = none ∧ e ∈ (k p.1).1) := by
  obtain ⟨log, r⟩ := p
  cases r with
  | none => simpa using h
  | some r => exact Or.inl h

variable {f : α → Attempt ω ε} {xs : List α}

/-- **A loop returns** iff every step does. -/
theorem runAll_returns_iff : (runAll f xs).2 = none ↔ ∀ x ∈ xs, (f x).2 = none := by
  induction xs with
  | nil => simp [runAll]
  | cons x xs ih => rw [runAll, andThen_returns_iff, ih, List.forall_mem_cons]

/-- **What a loop wrote** when it returns. -/
theorem runAll_log (h : ∀ x ∈ xs, (f x).2 = none) : (runAll f xs).1 = xs.flatMap fun x => (f x).1 := by
  induction xs with
  | nil => rfl
  | cons x xs ih =>
    obtain ⟨hx, htl⟩ := List.forall_mem_cons.mp h
    rw [runAll, andThen_log hx, ih htl, List.flatMap_cons]

theorem mem_runAll {e : ω} (h : e ∈ (runAll f xs).1) : ∃ x ∈ xs, e ∈ (f x).1 := by
  induction xs with
  | nil => exact absurd h List.not_mem_nil
  | cons x xs ih =>
    rcases mem_andThen h with h | ⟨_, h⟩
    · exact ⟨x, List.mem_cons_self, h⟩
    · obtain ⟨y, hy, he⟩ := ih h
      exact ⟨y, List.mem_cons_of_mem _ hy, he⟩

/-- A loop comes to an element when the steps before it return. -/
theorem mem_runAll_of_returns {pre post : List α} {x : α} (h : ∀ y ∈ pre, (f y).2 = none) {e : ω}
    (he : e ∈ (f x).1) : e ∈ (runAll f (pre ++ x :: post)).1 := by
  induction pre with
  | nil => exact subset_andThen _ _ he
  | cons y pre ih =>
    obtain ⟨hy, htl⟩ := List.forall_mem_cons.mp h
    rw [List.cons_append, runAll, andThen_log hy]
    exact List.mem_append_right _ (ih htl)

/-- A step that wrote an entry in a loop has written all of its own there. -/
theorem exists_step_of_mem_runAll {e : ω} (h : e ∈ (runAll f xs).1) :
    ∃ x ∈ xs, e ∈ (f x).1 ∧ (f x).1 ⊆ (runAll f xs).1 := by
  induction xs with
  | nil => exact absurd h List.not_mem_nil
  | cons x xs ih =>
    rw [runAll] at h ⊢
    rcases mem_andThen h with h | ⟨hx, h⟩
    · exact ⟨x, List.mem_cons_self, h, subset_andThen _ _⟩
    · obtain ⟨y, hy, he, hsub⟩ := ih h
      refine ⟨y, List.mem_cons_of_mem _ hy, he, ?_⟩
      rw [andThen_log hx]
      exact List.subset_append_of_subset_right _ hsub

/-- The steps before one that wrote have returned. -/
theorem exists_split_of_mem_runAll {e : ω} (h : e ∈ (runAll f xs).1) :
    ∃ pre x post, xs = pre ++ x :: post ∧ e ∈ (f x).1 ∧ ∀ y ∈ pre, (f y).2 = none := by
  induction xs with
  | nil => exact absurd h List.not_mem_nil
  | cons x xs ih =>
    rw [runAll] at h
    rcases mem_andThen h with h | ⟨hx, h⟩
    · exact ⟨[], x, xs, rfl, h, fun y hy => absurd hy List.not_mem_nil⟩
    · obtain ⟨pre, y, post, hsplit, he, hpre⟩ := ih h
      refine ⟨x :: pre, y, post, ?_, he, List.forall_mem_cons.mpr ⟨hx, hpre⟩⟩
      rw [hsplit, List.cons_append]

/-! ## Pools -/

/-- A loop over a list: one by one, or in a pool after the elements that go first. The steps of the pool
write in any order, and each of them is waited for before what one raised is raised again. -/
inductive Pooled (f : α → Attempt ω ε) (first : α → Bool) (xs : List α) : Nat → Attempt ω ε → Prop
  | sequential : Pooled f first xs 0 (runAll f xs)
  | first {parallel : Nat} {log : List ω} {r : ε} (hp : parallel ≠ 0)
      (hrun : runAll f (xs.filter first) = (log, some r)) : Pooled f first xs parallel (log, some r)
  | pool {parallel : Nat} {log events : List ω} {raised : Option ε} (hp : parallel ≠ 0)
      (hrun : runAll f (xs.filter first) = (log, none))
      (hevents : events.Perm ((xs.filter fun x => !first x).flatMap fun x => (f x).1))
      (hnone : raised = none ↔ ∀ x ∈ xs.filter fun x => !first x, (f x).2 = none)
      (hsome : ∀ r, raised = some r → ∃ x ∈ xs.filter fun x => !first x, (f x).2 = some r) :
      Pooled f first xs parallel (log ++ events, raised)

variable {first : α → Bool} {parallel : Nat} {p : Attempt ω ε}

/-- **What is written** comes from a step all of whose entries are written. -/
theorem Pooled.mem (h : Pooled f first xs parallel p) {e : ω} (he : e ∈ p.1) :
    ∃ x ∈ xs, e ∈ (f x).1 ∧ (f x).1 ⊆ p.1 := by
  cases h with
  | sequential => exact exists_step_of_mem_runAll he
  | @first _ log r hp hrun =>
    have hmem : e ∈ (runAll f (xs.filter first)).1 := by rw [hrun]; exact he
    obtain ⟨x, hx, hex, hsub⟩ := exists_step_of_mem_runAll hmem
    rw [hrun] at hsub
    exact ⟨x, (List.mem_filter.mp hx).1, hex, hsub⟩
  | @pool _ log events raised hp hrun hevents hnone hsome =>
    rcases List.mem_append.mp he with he | he
    · have hmem : e ∈ (runAll f (xs.filter first)).1 := by rw [hrun]; exact he
      obtain ⟨x, hx, hex, hsub⟩ := exists_step_of_mem_runAll hmem
      rw [hrun] at hsub
      exact ⟨x, (List.mem_filter.mp hx).1, hex, List.subset_append_of_subset_left _ hsub⟩
    · obtain ⟨x, hx, hex⟩ := List.mem_flatMap.mp (hevents.subset he)
      refine ⟨x, (List.mem_filter.mp hx).1, hex, fun e' he' => ?_⟩
      exact List.mem_append_right _ (hevents.symm.subset (List.mem_flatMap.mpr ⟨x, hx, he'⟩))

/-- **A pool returns** iff every step does. -/
theorem Pooled.returns_iff (h : Pooled f first xs parallel p) :
    p.2 = none ↔ ∀ x ∈ xs, (f x).2 = none := by
  have hsplit : (∀ x ∈ xs, (f x).2 = none) ↔ (∀ x ∈ xs.filter first, (f x).2 = none) ∧
      ∀ x ∈ xs.filter fun x => !first x, (f x).2 = none := by
    simp only [List.mem_filter, Bool.not_eq_true']
    refine ⟨fun h => ⟨fun x hx => h x hx.1, fun x hx => h x hx.1⟩, fun h x hx => ?_⟩
    cases hf : first x with
    | true => exact h.1 x ⟨hx, hf⟩
    | false => exact h.2 x ⟨hx, hf⟩
  cases h with
  | sequential => exact runAll_returns_iff
  | @first _ log r hp hrun =>
    refine ⟨fun h => (by cases h), fun h => ?_⟩
    have hnone := runAll_returns_iff.mpr (hsplit.mp h).1
    rw [hrun] at hnone
    cases hnone
  | @pool _ log events raised hp hrun hevents hnone hsome =>
    have hfirst := runAll_returns_iff.mp (congrArg Prod.snd hrun)
    rw [hsplit]
    exact hnone.trans ⟨fun h => ⟨hfirst, h⟩, fun h => h.2⟩

/-- **What a pool wrote** when it returns: what one step after the other writes, in some order. -/
theorem Pooled.perm (h : Pooled f first xs parallel p) (hret : ∀ x ∈ xs, (f x).2 = none) :
    p.1.Perm (xs.flatMap fun x => (f x).1) := by
  cases h with
  | sequential => exact List.Perm.of_eq (runAll_log hret)
  | @first _ log r hp hrun =>
    have hnone := runAll_returns_iff.mpr fun x (hx : x ∈ xs.filter first) =>
      hret x (List.mem_filter.mp hx).1
    rw [hrun] at hnone
    cases hnone
  | @pool _ log events raised hp hrun hevents hnone hsome =>
    have hlog := runAll_log (runAll_returns_iff.mp (congrArg Prod.snd hrun))
    rw [hrun] at hlog
    have hlog : log = _ := hlog
    refine List.Perm.trans ?_ ((List.filter_append_perm first xs).flatMap_right _)
    rw [List.flatMap_append, hlog]
    exact (List.Perm.refl _).append hevents

variable {ω' ε' : Type*} {g : ω → Option ω'} {c : ε → ε'} {f' : α → Attempt ω' ε'}

theorem andThen_map (p : Attempt ω ε) (k : List ω → Attempt ω ε) :
    ((andThen p k).1.filterMap g, (andThen p k).2.map c) =
      andThen (p.1.filterMap g, p.2.map c) fun _ => ((k p.1).1.filterMap g, (k p.1).2.map c) := by
  obtain ⟨log, r⟩ := p
  cases r with
  | none => simp
  | some r => rfl

theorem runAll_map (hf : ∀ x ∈ xs, f' x = ((f x).1.filterMap g, (f x).2.map c)) :
    runAll f' xs = ((runAll f xs).1.filterMap g, (runAll f xs).2.map c) := by
  induction xs with
  | nil => rfl
  | cons x xs ih =>
    obtain ⟨hx, htl⟩ := List.forall_mem_cons.mp hf
    rw [runAll, runAll, andThen_map, hx, ih htl]

/-- **A simulation of the steps** is one of the pool. -/
theorem Pooled.map (hf : ∀ x ∈ xs, f' x = ((f x).1.filterMap g, (f x).2.map c))
    (h : Pooled f first xs parallel p) :
    Pooled f' first xs parallel (p.1.filterMap g, p.2.map c) := by
  have hfirst : ∀ x ∈ xs.filter first, f' x = ((f x).1.filterMap g, (f x).2.map c) := fun x hx =>
    hf x (List.mem_filter.mp hx).1
  have hrest : ∀ x ∈ xs.filter fun x => !first x, f' x = ((f x).1.filterMap g, (f x).2.map c) :=
    fun x hx => hf x (List.mem_filter.mp hx).1
  cases h with
  | sequential => exact runAll_map hf ▸ Pooled.sequential
  | @first _ log r hp hrun =>
    exact Pooled.first hp (by rw [runAll_map hfirst, hrun]; rfl)
  | @pool _ log events raised hp hrun hevents hnone hsome =>
    rw [List.filterMap_append]
    refine Pooled.pool hp (by rw [runAll_map hfirst, hrun]; rfl) ?_ ?_ ?_
    · refine (hevents.filterMap g).trans (List.Perm.of_eq ?_)
      rw [List.filterMap_flatMap]
      exact List.flatMap_congr fun x hx => by rw [hrest x hx]
    · rw [Option.map_eq_none_iff, hnone]
      refine forall₂_congr fun x hx => ?_
      rw [hrest x hx, Option.map_eq_none_iff]
    · intro r hr
      obtain ⟨r₀, hr₀, rfl⟩ := Option.map_eq_some_iff.mp hr
      obtain ⟨x, hx, hxr⟩ := hsome r₀ hr₀
      exact ⟨x, hx, by rw [hrest x hx, hxr]; rfl⟩

end LabInABox
