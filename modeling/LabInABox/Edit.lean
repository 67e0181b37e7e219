import Mathlib.Data.List.Perm.Basic
import Mathlib.Logic.Function.Basic

/-!
# Edits that report

An edit takes a state to a state and reports what it changed. General facts about such edits, used one
after another.

* `Settled e x`: the edit changes nothing at `x` and reports nothing.
* `Commutes e f`: in either order the two leave the same, and each reports the same.
* `Keeps f e`: the edit `f` does not give a settled `e` anything to do.

Results:
* `Idempotent.andThen`, `settled_run`: what a run of idempotent edits that keep each other settled
  leaves, each of them has nothing to do at.
* `run_perm`: edits that commute leave the same in every order, and report the same up to order.
* `list_idempotent`, `list_commutes`, `onKey_commutes`: the edits of the elements of a list, and of the
  value under a key.
-/

namespace LabInABox

/-- An edit: what it leaves, and what it reports. -/
abbrev Edit (ρ σ : Type*) := σ → σ × List ρ

namespace Edit

variable {ρ σ α κ : Type*}

/-- The edit that changes nothing. -/
def skip : Edit ρ σ := fun x => (x, [])

/-- One edit after another. -/
def andThen (e f : Edit ρ σ) : Edit ρ σ := fun x =>
  ((f (e x).1).1, (e x).2 ++ (f (e x).1).2)

/-- The edits one after another. -/
def run : List (Edit ρ σ) → Edit ρ σ
  | [] => skip
  | e :: es => andThen e (run es)

/-- The edit has nothing to do. -/
def Settled (e : Edit ρ σ) (x : σ) : Prop := e x = (x, [])

/-- A second time, the edit has nothing to do. -/
def Idempotent (e : Edit ρ σ) : Prop := ∀ x, Settled e (e x).1

/-- The edits leave the same in either order, and each reports the same. -/
def Commutes (e f : Edit ρ σ) : Prop :=
  ∀ x, (f (e x).1).1 = (e (f x).1).1 ∧ (e (f x).1).2 = (e x).2 ∧ (f (e x).1).2 = (f x).2

/-- The edit `f` leaves `e` nothing to do where it had nothing to do. -/
def Keeps (f e : Edit ρ σ) : Prop := ∀ x, Settled e x → Settled e (f x).1

variable {e f g : Edit ρ σ}

theorem Settled.fst {x : σ} (h : Settled e x) : (e x).1 = x := congrArg Prod.fst h

theorem Settled.snd {x : σ} (h : Settled e x) : (e x).2 = [] := congrArg Prod.snd h

theorem Commutes.symm (h : Commutes e f) : Commutes f e :=
  fun x => ⟨(h x).1.symm, (h x).2.2, (h x).2.1⟩

theorem Commutes.keeps (h : Commutes e f) : Keeps f e := by
  intro x hs
  unfold Settled at hs
  obtain ⟨h₁, h₂, -⟩ := h x
  rw [hs] at h₁ h₂
  exact Prod.ext h₁.symm h₂

theorem keeps_self (e : Edit ρ σ) : Keeps e e := by
  intro x hs
  rwa [hs]

theorem skip_idempotent : Idempotent (skip : Edit ρ σ) := fun _ => rfl

theorem commutes_skip (e : Edit ρ σ) : Commutes e skip := fun _ => ⟨rfl, rfl, rfl⟩

/-! ## One after another -/

theorem Settled.andThen {x : σ} (he : Settled e x) (hf : Settled f x) : Settled (andThen e f) x := by
  unfold Settled at he hf
  unfold Settled Edit.andThen
  rw [he, hf]
  rfl

theorem Idempotent.andThen (he : Idempotent e) (hf : Idempotent f) (hk : Keeps f e) :
    Idempotent (andThen e f) :=
  fun x => Settled.andThen (hk _ (he x)) (hf _)

theorem Keeps.andThen (he : Keeps e g) (hf : Keeps f g) : Keeps (andThen e f) g :=
  fun x hs => hf _ (he x hs)

theorem Commutes.andThen (he : Commutes e g) (hf : Commutes f g) : Commutes (andThen e f) g := by
  intro x
  obtain ⟨he₁, he₂, he₃⟩ := he x
  obtain ⟨hf₁, hf₂, hf₃⟩ := hf (e x).1
  unfold Edit.andThen
  refine ⟨?_, ?_, ?_⟩
  · rw [hf₁, he₁]
  · rw [he₂, ← he₁, hf₂]
  · rw [hf₃, he₃]

theorem Commutes.run {es : List (Edit ρ σ)} (h : ∀ e ∈ es, Commutes e g) : Commutes (run es) g := by
  induction es with
  | nil => exact (commutes_skip g).symm
  | cons e es ih =>
    rw [List.forall_mem_cons] at h
    exact h.1.andThen (ih h.2)

theorem Settled.run {es : List (Edit ρ σ)} {x : σ} (h : ∀ e ∈ es, Settled e x) :
    Settled (run es) x := by
  induction es with
  | nil => rfl
  | cons e es ih =>
    rw [List.forall_mem_cons] at h
    exact h.1.andThen (ih h.2)

/-- **After a run** of idempotent edits that keep each other settled, each has nothing to do. -/
theorem settled_run {es : List (Edit ρ σ)} (hid : ∀ e ∈ es, Idempotent e)
    (hk : ∀ e ∈ es, ∀ f ∈ es, Keeps f e) (x : σ) : ∀ e ∈ es, Settled e (run es x).1 := by
  induction es generalizing x with
  | nil => exact fun _ he => absurd he List.not_mem_nil
  | cons a es ih =>
    have hrun : ∀ e, (∀ f ∈ es, Keeps f e) → Keeps (run es) e := by
      intro e hke
      clear ih hid hk
      induction es with
      | nil => exact fun _ hs => hs
      | cons b es ih =>
        rw [List.forall_mem_cons] at hke
        exact hke.1.andThen (ih hke.2)
    intro e he
    rcases List.mem_cons.mp he with rfl | he
    · exact hrun e (fun f hf => hk e List.mem_cons_self f (List.mem_cons_of_mem _ hf)) _
        (hid e List.mem_cons_self x)
    · refine ih (fun f hf => hid f (List.mem_cons_of_mem _ hf)) ?_ _ e he
      exact fun f hf g hg => hk f (List.mem_cons_of_mem _ hf) g (List.mem_cons_of_mem _ hg)

/-- Idempotent edits that keep each other settled are idempotent, one after another. -/
theorem run_idempotent {es : List (Edit ρ σ)} (hid : ∀ e ∈ es, Idempotent e)
    (hk : ∀ e ∈ es, ∀ f ∈ es, Keeps f e) : Idempotent (run es) :=
  fun x => Settled.run (settled_run hid hk x)

theorem run_append (es fs : List (Edit ρ σ)) : run (es ++ fs) = andThen (run es) (run fs) := by
  induction es with
  | nil => rfl
  | cons e es ih =>
    rw [List.cons_append, run, run, ih]
    funext x
    exact Prod.ext rfl (List.append_assoc _ _ _).symm

/-- A run of runs is the run of all their edits. -/
theorem run_flatten (ls : List (List (Edit ρ σ))) : run ls.flatten = run (ls.map run) := by
  induction ls with
  | nil => rfl
  | cons es ls ih => rw [List.flatten_cons, run_append, List.map_cons, run, ih]

/-- Edits whose states commute leave the same in every order. -/
theorem run_perm_state {es fs : List (Edit ρ σ)} (hp : es.Perm fs)
    (hc : ∀ e ∈ es, ∀ f ∈ es, ∀ x, (f (e x).1).1 = (e (f x).1).1) (x : σ) :
    (run es x).1 = (run fs x).1 := by
  induction hp generalizing x with
  | nil => rfl
  | cons e _ ih =>
    exact ih (fun a ha b hb => hc a (List.mem_cons_of_mem _ ha) b (List.mem_cons_of_mem _ hb)) _
  | swap a b l =>
    change (run l (a (b x).1).1).1 = (run l (b (a x).1).1).1
    rw [hc b List.mem_cons_self a (List.mem_cons_of_mem _ List.mem_cons_self)]
  | trans h₁ _ ih₁ ih₂ =>
    rw [ih₁ hc]
    exact ih₂ (fun a ha b hb => hc a (h₁.mem_iff.mpr ha) b (h₁.mem_iff.mpr hb)) x

/-- **Edits that commute** leave the same in every order, and report the same up to order. -/
theorem run_perm {es fs : List (Edit ρ σ)} (hp : es.Perm fs) (hc : es.Pairwise Commutes) (x : σ) :
    (run es x).1 = (run fs x).1 ∧ (run es x).2.Perm (run fs x).2 := by
  induction hp generalizing x with
  | nil => exact ⟨rfl, List.Perm.refl _⟩
  | cons e _ ih =>
    obtain ⟨hs, hr⟩ := ih (List.pairwise_cons.mp hc).2 (e x).1
    exact ⟨hs, hr.append_left _⟩
  | swap a b l =>
    have hab := (List.pairwise_cons.mp hc).1 a List.mem_cons_self
    obtain ⟨h₁, h₂, h₃⟩ := hab x
    unfold run run andThen
    refine ⟨by rw [h₁], ?_⟩
    rw [h₁, h₂, h₃, ← List.append_assoc, ← List.append_assoc]
    exact List.perm_append_comm.append_right _
  | trans h₁ _ ih₁ ih₂ =>
    obtain ⟨hs₁, hr₁⟩ := ih₁ hc x
    obtain ⟨hs₂, hr₂⟩ := ih₂ ((h₁.pairwise_iff Commutes.symm).mp hc) x
    exact ⟨hs₁.trans hs₂, hr₁.trans hr₂⟩

/-! ## Relabelled reports -/

/-- The same edit, its reports changed. -/
def relabel {ρ' : Type*} (label : ρ → ρ') (e : Edit ρ σ) : Edit ρ' σ := fun x =>
  ((e x).1, (e x).2.map label)

theorem Settled.relabel {ρ' : Type*} {label : ρ → ρ'} {x : σ} (h : Settled e x) :
    Settled (relabel label e) x := by
  unfold Settled at h
  unfold Settled Edit.relabel
  rw [h]
  rfl

theorem settled_relabel_iff {ρ' : Type*} {label : ρ → ρ'} {x : σ} :
    Settled (relabel label e) x ↔ Settled e x := by
  refine ⟨fun h => ?_, Settled.relabel⟩
  unfold Settled Edit.relabel at h
  rw [Prod.mk.injEq, List.map_eq_nil_iff] at h
  exact Prod.ext h.1 h.2

theorem Idempotent.relabel {ρ' : Type*} {label : ρ → ρ'} (h : Idempotent e) :
    Idempotent (relabel label e) :=
  fun x => (h x).relabel

theorem Keeps.relabel {ρ' : Type*} {l₁ l₂ : ρ → ρ'} (h : Keeps f e) :
    Keeps (relabel l₁ f) (relabel l₂ e) :=
  fun x hs => (h x (settled_relabel_iff.mp hs)).relabel

theorem Commutes.relabel {ρ' : Type*} {l₁ l₂ : ρ → ρ'} (h : Commutes e f) :
    Commutes (relabel l₁ e) (relabel l₂ f) := by
  intro x
  obtain ⟨h₁, h₂, h₃⟩ := h x
  exact ⟨h₁, congrArg (List.map l₁) h₂, congrArg (List.map l₂) h₃⟩

/-! ## Lists and keys -/

/-- The edit of every element. -/
def list (e : Edit ρ α) : Edit ρ (List α) := fun xs =>
  (xs.map fun a => (e a).1, xs.flatMap fun a => (e a).2)

theorem list_settled {e : Edit ρ α} {xs : List α} (h : ∀ a ∈ xs, Settled e a) :
    Settled (list e) xs := by
  unfold Settled list
  rw [Prod.mk.injEq, List.flatMap_eq_nil_iff]
  constructor
  · rw [List.map_congr_left fun a ha => congrArg Prod.fst (h a ha)]
    exact List.map_id _
  · exact fun a ha => congrArg Prod.snd (h a ha)

theorem list_idempotent {e : Edit ρ α} (h : Idempotent e) : Idempotent (list e) := by
  intro xs
  refine list_settled fun a ha => ?_
  obtain ⟨b, _, rfl⟩ := List.mem_map.mp ha
  exact h b

theorem list_commutes {e f : Edit ρ α} (h : Commutes e f) : Commutes (list e) (list f) := by
  intro xs
  unfold list
  simp only [List.map_map, List.flatMap_map]
  refine ⟨List.map_congr_left fun a _ => (h a).1, ?_, ?_⟩
  · simp only [(h _).2.1]
  · simp only [(h _).2.2]

theorem list_keeps {e f : Edit ρ α} (h : Commutes e f) : Keeps (list f) (list e) :=
  (list_commutes h).keeps

/-- The edit of a value, chosen by its key. -/
def values (f : κ → Edit ρ α) : Edit ρ (κ × α) := fun p =>
  ((p.1, (f p.1 p.2).1), (f p.1 p.2).2)

theorem values_settled {f : κ → Edit ρ α} {p : κ × α} (h : Settled (f p.1) p.2) :
    Settled (values f) p := by
  unfold Settled at h
  unfold Settled values
  rw [h]

theorem values_idempotent {f : κ → Edit ρ α} (h : ∀ k, Idempotent (f k)) : Idempotent (values f) :=
  fun p => values_settled (h p.1 p.2)

theorem values_commutes {f g : κ → Edit ρ α} (h : ∀ k, Commutes (f k) (g k)) :
    Commutes (values f) (values g) := by
  intro p
  obtain ⟨h₁, h₂, h₃⟩ := h p.1 p.2
  exact ⟨Prod.ext rfl h₁, h₂, h₃⟩

theorem map_fst_values (f : κ → Edit ρ α) (ps : List (κ × α)) :
    (list (values f) ps).1.map Prod.fst = ps.map Prod.fst := by
  unfold list values
  rw [List.map_map]
  rfl

/-- The edit of the value under one key. -/
def onKey [DecidableEq κ] (k : κ) (e : Edit ρ α) : Edit ρ (κ × α) :=
  values fun q => if q = k then e else skip

theorem onKey_idempotent [DecidableEq κ] {k : κ} {e : Edit ρ α} (h : Idempotent e) :
    Idempotent (onKey k e) := by
  refine values_idempotent fun q => ?_
  by_cases hq : q = k
  · rwa [if_pos hq]
  · rw [if_neg hq]
    exact skip_idempotent

theorem onKey_commutes [DecidableEq κ] {k k' : κ} {e f : Edit ρ α}
    (h : k = k' → Commutes e f) : Commutes (onKey k e) (onKey k' f) := by
  refine values_commutes fun q => ?_
  by_cases hq : q = k
  · by_cases hq' : q = k'
    · rw [if_pos hq, if_pos hq']
      exact h (hq.symm.trans hq')
    · rw [if_neg hq']
      exact commutes_skip _
  · rw [if_neg hq]
    exact (commutes_skip _).symm

end Edit

end LabInABox
