import LabInABox.Text.Fields
import Mathlib.Data.List.Nodup
import Mathlib.Data.List.Perm.Subperm

/-!
# Content lifecycle projects

Model of `ensure_content_projects` and of the functions it calls (`libs/spacecmd_common.py`), over the projects
of a server.

* A project is found when its label stands in what `listProjects` printed, and so are sources, filters and
  environments in the lists of their project. What a list call prints for the texts of its objects is a
  parameter, `Server.print`, and so is which calls the server accepts.
* The list calls of a project that is there succeed, and those of one that is not fail.
* A call on a project that is not there is refused, and so is an environment behind a predecessor that is not
  there. `createEnvironment` puts the new stage right behind its predecessor, or first without one.
* The number the code reads from what `createFilter` printed is the new filter's, when there is one.
* The configuration is read into the objects it declares, in the order of the calls; `none` is an entry that
  makes the code die.

Results:
* `present_run_iff`: what is there after a run: what was there, and each object that a test did not find.
* `ordered_run`: the environments of a project stay in the declared order.
* `calls_of_present`: a run over objects that are there makes no call.
* `projects_converge_iff`: exactly when a run that does not die leaves the declared objects, and the next one nothing
  to do.
-/

namespace LabInABox.Spacecmd.ContentProjects

/-! ## Chains of stages -/

section Chain

variable {α : Type} (key : α → Text)

/-- The new element right behind the one with the key. -/
def insertBehind (pred : Text) (x : α) : List α → List α
  | [] => []
  | y :: ys => if key y = pred then y :: x :: ys else y :: insertBehind pred x ys

/-- The new stage behind its predecessor, or first. -/
def insertStage (pred : Text) (x : α) (l : List α) : List α :=
  if pred = [] then x :: l else insertBehind key pred x l

variable {key}

theorem map_insertStage (pred : Text) (x : α) (l : List α) :
    (insertStage key pred x l).map key = insertStage id pred (key x) (l.map key) := by
  have hbehind : (insertBehind key pred x l).map key = insertBehind id pred (key x) (l.map key) := by
    induction l with
    | nil => rfl
    | cons y ys ih =>
      rw [insertBehind, List.map_cons, insertBehind, id]
      split
      · rfl
      · rw [List.map_cons, ih]
  unfold insertStage
  split
  · rfl
  · exact hbehind

theorem insertStage_perm {pred x : Text} {l : List Text} (h : pred = [] ∨ pred ∈ l) :
    (insertStage id pred x l).Perm (x :: l) := by
  have hbehind : ∀ l : List Text, pred ∈ l → (insertBehind id pred x l).Perm (x :: l) := by
    intro l hl
    induction l with
    | nil => cases hl
    | cons y ys ih =>
      rw [insertBehind, id]
      split
      · exact List.Perm.swap x y ys
      · rename_i hy
        have hys : pred ∈ ys := (List.mem_cons.mp hl).resolve_left fun e => hy e.symm
        exact ((ih hys).cons y).trans (List.Perm.swap x y ys)
  unfold insertStage
  split
  · exact .refl _
  · rename_i hne
    exact hbehind l (h.resolve_left hne)

/-- **A stage inserted behind its predecessor keeps the declared order.** -/
theorem insertBehind_sublist {pred x : Text} : ∀ {before l after : List Text},
    (before ++ pred :: x :: after).Nodup → l.Sublist (before ++ pred :: x :: after) → x ∉ l → pred ∈ l →
    (insertBehind id pred x l).Sublist (before ++ pred :: x :: after)
  | [], l, after, hnd, hsub, hx, hpred => by
    rw [List.nil_append] at hnd hsub ⊢
    have hne : pred ∉ x :: after := (List.nodup_cons.mp hnd).1
    cases hsub with
    | cons _ h => exact absurd (h.subset hpred) hne
    | cons_cons _ h =>
      rw [insertBehind, id, if_pos rfl]
      refine (List.Sublist.cons_cons x ?_).cons_cons pred
      cases h with
      | cons _ h => exact h
      | cons_cons _ h => exact absurd (List.mem_cons_of_mem _ List.mem_cons_self) hx
  | y :: before, l, after, hnd, hsub, hx, hpred => by
    rw [List.cons_append] at hnd hsub ⊢
    obtain ⟨hy, hnd'⟩ := List.nodup_cons.mp hnd
    have hyp : y ≠ pred := fun e => hy (e ▸ List.mem_append_right _ List.mem_cons_self)
    cases hsub with
    | cons _ h => exact (insertBehind_sublist hnd' h hx hpred).cons y
    | cons_cons _ h =>
      rename_i ys
      rw [insertBehind, id, if_neg hyp]
      refine (insertBehind_sublist hnd' h (fun h => hx (List.mem_cons_of_mem y h)) ?_).cons_cons y
      exact (List.mem_cons.mp hpred).resolve_left fun e => hyp e.symm

end Chain

/-! ## The server -/

/-- An environment. -/
structure Env where
  label : Text
  name : Text
  description : Text

/-- A project, with the names of its filters, and its environments from the first stage to the last. -/
structure Project where
  label : Text
  name : Text
  description : Text
  sources : List Text
  filters : List Text
  envs : List Env
  nodup : (envs.map Env.label).Nodup

/-- The projects of a server. -/
abbrev State := List Project

/-- A filter entry; `field` and `value` may be null. -/
structure Filter where
  name : Text
  rule : Text
  entity_type : Text
  matcher : Text
  field : Option Text
  value : Option Text

/-- The calls that create and attach. -/
inductive Call
  | createProject (label name description : Text)
  | attachSource (project source : Text)
  | createFilter (f : Filter)
  | attachFilter (project name : Text)
  | createEnvironment (project predecessor : Text) (e : Env)

/-- What the server prints for the texts of objects, and what it accepts. -/
structure Server where
  print : List (List Text) → Text
  prints : ∀ os, ∀ o ∈ os, ∀ t ∈ o, t <:+: print os
  accepts : State → Call → Bool
  readsId : State → Filter → Bool

/-- The project of a label. -/
def lookup (s : State) (label : Text) : Option Project := s.find? fun p => decide (p.label = label)

/-- The project of a label changed, unless it is not there or the change is refused. -/
def update (s : State) (label : Text) (f : Project → Option Project) : Option State :=
  (lookup s label).bind fun p => (f p).map fun q => s.map fun x => if x.label = label then q else x

theorem nodup_insertStage {pred : Text} {e : Env} {envs : List Env} (h : (envs.map Env.label).Nodup)
    (he : e.label ∉ envs.map Env.label ∧ (pred = [] ∨ pred ∈ envs.map Env.label)) :
    ((insertStage Env.label pred e envs).map Env.label).Nodup := by
  rw [map_insertStage, (insertStage_perm he.2).nodup_iff]
  exact List.nodup_cons.mpr ⟨he.1, h⟩

/-- A new stage; a label that is there, or a predecessor that is not, is refused. -/
def Project.insert (pred : Text) (e : Env) (p : Project) : Option Project :=
  if h : e.label ∉ p.envs.map Env.label ∧ (pred = [] ∨ pred ∈ p.envs.map Env.label) then
    some ⟨p.label, p.name, p.description, p.sources, p.filters, insertStage Env.label pred e p.envs,
      nodup_insertStage p.nodup h⟩
  else none

/-! ## Objects of the configuration -/

/-- What is to be there. -/
inductive Item
  | project (label name description : Text)
  | source (project source : Text)
  | filter (project : Text) (f : Filter)
  | environment (project predecessor : Text) (e : Env)

/-- What an object is known by. -/
inductive Target
  | project (label : Text)
  | source (project source : Text)
  | filter (project name : Text)
  | environment (project label : Text)

/-- The target of an object. -/
def Item.target : Item → Target
  | project l _ _ => .project l
  | source p x => .source p x
  | filter p f => .filter p f.name
  | environment p _ e => .environment p e.label

/-- An entry of `environments`. -/
inductive EnvCfg
  | plain (label : Text)
  | entry (label name description : Text)

/-- The environment of an entry, with its defaults. -/
def EnvCfg.env : EnvCfg → Env
  | plain l => ⟨l, l, l⟩
  | entry l n d => ⟨l, if n = [] then l else n, if d = [] then (if n = [] then l else n) else d⟩

/-- An entry of `<prefix>_content_projects`. -/
structure ProjectCfg where
  label : Text
  name : Text
  description : Text
  sources : List Text
  filters : List Filter
  environments : List EnvCfg

/-- The labels of the declared environments. -/
def ProjectCfg.envLabels (c : ProjectCfg) : List Text := c.environments.map fun e => e.env.label

/-- The name of a project, or its label. -/
def ProjectCfg.shownName (c : ProjectCfg) : Text := if c.name = [] then c.label else c.name

/-- Has the entry of a filter all it needs? -/
def Filter.complete (f : Filter) : Bool :=
  !f.name.isEmpty && !f.rule.isEmpty && !f.entity_type.isEmpty && !f.matcher.isEmpty && f.field.isSome &&
    f.value.isSome

/-- The objects of `ensure_content_environments`, each behind the one before it. -/
def environmentItems (project : Text) : Text → List EnvCfg → List (Option Item)
  | _, [] => []
  | pred, e :: es =>
    if e.env.label = [] then [none]
    else some (.environment project pred e.env) :: environmentItems project e.env.label es

/-- The objects of an entry. -/
def ProjectCfg.items (c : ProjectCfg) : List (Option Item) :=
  if c.label = [] then [none]
  else
    some (.project c.label c.shownName (if c.description = [] then c.shownName else c.description)) ::
      (c.sources.map fun x => some (.source c.label x)) ++
      (c.filters.map fun f => if f.complete then some (.filter c.label f) else none) ++
      environmentItems c.label [] c.environments

/-! ## A run -/

section Run

variable (srv : Server)

/-- `content_project_exists` and the three tests like it. -/
def found (s : State) : Item → Bool
  | .project l _ _ => decide (l <:+: srv.print (s.map fun p => [p.label, p.name, p.description]))
  | .source p x => (lookup s p).any fun q => decide (x <:+: srv.print (q.sources.map fun y => [y]))
  | .filter p f => (lookup s p).any fun q => decide (f.name <:+: srv.print (q.filters.map fun y => [y]))
  | .environment p _ e => (lookup s p).any fun q =>
    decide (e.label <:+: srv.print (q.envs.map fun y => [y.label, y.name, y.description]))

/-- The call is accepted and does something, or the code dies. -/
def call (s : State) (c : Call) (t : Option State) : List Call × Option State :=
  ([c], if srv.accepts s c then t else none)

/-- An object is created or attached. -/
def create (s : State) : Item → List Call × Option State
  | .project l n d => call srv s (.createProject l n d) (some (s ++ [⟨l, n, d, [], [], [], List.nodup_nil⟩]))
  | .source p x => call srv s (.attachSource p x) (update s p fun q =>
    some ⟨q.label, q.name, q.description, q.sources ++ [x], q.filters, q.envs, q.nodup⟩)
  | .filter p f =>
    if srv.accepts s (.createFilter f) && srv.readsId s f then
      let r := call srv s (.attachFilter p f.name) (update s p fun q =>
        some ⟨q.label, q.name, q.description, q.sources, q.filters ++ [f.name], q.envs, q.nodup⟩)
      (.createFilter f :: r.1, r.2)
    else ([.createFilter f], none)
  | .environment p pred e => call srv s (.createEnvironment p pred e) (update s p (Project.insert pred e))

/-- `ensure_content_project` and the functions like it. -/
def ensure (s : State) (x : Item) : List Call × Option State :=
  if found srv s x then ([], some s) else create srv s x

/-- The objects in turn: the calls that are made, and the state that is left, unless the code died. -/
def run : State → List (Option Item) → List Call × Option State
  | s, [] => ([], some s)
  | _, none :: _ => ([], none)
  | s, some x :: xs =>
    match ensure srv s x with
    | (calls, none) => (calls, none)
    | (calls, some t) => (calls ++ (run t xs).1, (run t xs).2)

/-- `ensure_content_projects`. -/
def ensureContentProjects (s : State) (cfg : List ProjectCfg) : List Call × Option State :=
  run srv s (cfg.flatMap ProjectCfg.items)

/-- Some test of the target, in its turn, does not find it. -/
def Missed : State → List (Option Item) → Target → Prop
  | _, [], _ => False
  | _, none :: _, _ => False
  | s, some x :: xs, g =>
    (x.target = g ∧ found srv s x = false) ∨ ∃ t, (ensure srv s x).2 = some t ∧ Missed t xs g

end Run

/-! ## What is to be reached -/

/-- The project a target belongs to. -/
def Target.owner : Target → Text
  | project l => l
  | source p _ => p
  | filter p _ => p
  | environment p _ => p

/-- The project has the target. -/
def Target.In (q : Project) : Target → Prop
  | project _ => True
  | source _ x => x ∈ q.sources
  | filter _ name => name ∈ q.filters
  | environment _ l => l ∈ q.envs.map Env.label

/-- The target is there. -/
def Present (s : State) (g : Target) : Prop := ∃ q, lookup s g.owner = some q ∧ g.In q

/-- All that is declared is there, and the environments are the declared chain. -/
def Complete (cfg : List ProjectCfg) (s : State) : Prop :=
  ∀ c ∈ cfg, ∃ q, lookup s c.label = some q ∧ (∀ x ∈ c.sources, x ∈ q.sources) ∧
    (∀ f ∈ c.filters, f.name ∈ q.filters) ∧ q.envs.map Env.label = c.envLabels

/-- The environments of the declared projects are in the declared order. -/
def Ordered (cfg : List ProjectCfg) (s : State) : Prop :=
  ∀ c ∈ cfg, ∀ q, lookup s c.label = some q → (q.envs.map Env.label).Sublist c.envLabels

/-- A run that does not die leaves what is declared, and a second one makes no call. -/
def Converges (srv : Server) (cfg : List ProjectCfg) (s : State) : Prop :=
  ∀ t, (ensureContentProjects srv s cfg).2 = some t →
    Complete cfg t ∧ (ensureContentProjects srv t cfg).1 = []

/-! ## Lookups -/

section Lookup

variable {s t : State} {l : Text}

theorem label_of_lookup {p : Project} (h : lookup s l = some p) : p.label = l := by
  simpa using List.find?_some h

theorem lookup_append (s : State) (p : Project) (l : Text) :
    lookup (s ++ [p]) l = (lookup s l).or (if p.label = l then some p else none) := by
  unfold lookup
  rw [List.find?_append]
  congr 1
  by_cases h : p.label = l <;> simp [h]

/-- A change of a project leaves the others. -/
theorem lookup_update {f : Project → Option Project} (h : update s l f = some t)
    (hf : ∀ p q, f p = some q → q.label = p.label) :
    ∃ p q, lookup s l = some p ∧ f p = some q ∧ ∀ l', lookup t l' = if l' = l then some q else lookup s l' := by
  obtain ⟨p, hp, h⟩ := Option.bind_eq_some_iff.mp h
  obtain ⟨q, hq, rfl⟩ := Option.map_eq_some_iff.mp h
  have hlabel : q.label = l := (hf p q hq).trans (label_of_lookup hp)
  refine ⟨p, q, hp, hq, fun l' => ?_⟩
  have hsame : ∀ x : Project, (if x.label = l then q else x).label = x.label := fun x => by
    split
    · rename_i hx
      rw [hlabel, hx]
    · rfl
  have hmap : lookup (s.map fun x => if x.label = l then q else x) l' =
      (lookup s l').map fun x => if x.label = l then q else x := by
    unfold lookup
    rw [List.find?_map]
    congr 1
    refine congrArg (List.find? · s) (funext fun x => ?_)
    simp only [Function.comp, hsame]
  rw [hmap]
  by_cases hl : l' = l
  · rw [if_pos hl, hl, hp, Option.map_some, if_pos (label_of_lookup hp)]
  · rw [if_neg hl]
    cases hx : lookup s l' with
    | none => rfl
    | some x => rw [Option.map_some, if_neg fun e => hl ((label_of_lookup hx).symm.trans e)]

theorem of_insert {pred : Text} {e : Env} {p q : Project} (h : Project.insert pred e p = some q) :
    q.label = p.label ∧ q.sources = p.sources ∧ q.filters = p.filters ∧
      q.envs = insertStage Env.label pred e p.envs ∧ e.label ∉ p.envs.map Env.label ∧
        (pred = [] ∨ pred ∈ p.envs.map Env.label) := by
  unfold Project.insert at h
  split at h
  · rename_i hc
    obtain rfl := Option.some.inj h
    exact ⟨rfl, rfl, rfl, rfl, hc⟩
  · cases h

end Lookup

/-! ## A step -/

section Steps

variable {srv : Server} {s t : State} {x : Item}

theorem of_call {c : Call} {u : Option State} (h : (call srv s c u).2 = some t) : u = some t := by
  unfold call at h
  split at h
  · exact h
  · cases h

/-- How a project is changed by what is attached to it. -/
def attach : Item → Project → Option Project
  | .project _ _ _, _ => none
  | .source _ x, q => some ⟨q.label, q.name, q.description, q.sources ++ [x], q.filters, q.envs, q.nodup⟩
  | .filter _ f, q => some ⟨q.label, q.name, q.description, q.sources, q.filters ++ [f.name], q.envs, q.nodup⟩
  | .environment _ pred e, q => q.insert pred e

theorem label_of_attach {p q : Project} (h : attach x p = some q) : q.label = p.label := by
  cases x with
  | project l n d => cases h
  | source l y => rw [← Option.some.inj h]
  | filter l f => rw [← Option.some.inj h]
  | environment l pred e => exact (of_insert h).1

/-- **What a creation does**: a project behind the others, or a change of the project of the target. -/
theorem create_cases (h : (create srv s x).2 = some t) :
    (∃ l n d, x = .project l n d ∧ t = s ++ [⟨l, n, d, [], [], [], List.nodup_nil⟩]) ∨
      ∃ p q, lookup s x.target.owner = some p ∧ attach x p = some q ∧
        ∀ l, lookup t l = if l = x.target.owner then some q else lookup s l := by
  have hupdate : update s x.target.owner (attach x) = some t → ∃ p q, lookup s x.target.owner = some p ∧
      attach x p = some q ∧ ∀ l, lookup t l = if l = x.target.owner then some q else lookup s l := fun h =>
    lookup_update h fun p q hq => label_of_attach hq
  cases x with
  | project l n d => exact Or.inl ⟨l, n, d, rfl, (Option.some.inj (of_call h)).symm⟩
  | source l y => exact Or.inr (hupdate (of_call h))
  | filter l f =>
    rw [create] at h
    split at h
    · exact Or.inr (hupdate (of_call h))
    · cases h
  | environment l pred e => exact Or.inr (hupdate (of_call h))

/-- What a project has after something was attached. -/
theorem in_attach_iff {p q : Project} (h : attach x p = some q) {g : Target} (hg : g.owner = x.target.owner) :
    g.In q ↔ g.In p ∨ x.target = g := by
  cases x with
  | project l n d => cases h
  | source l y =>
    obtain rfl := Option.some.inj h
    cases g <;> simp_all [Target.In, Item.target, Target.owner, eq_comm]
  | filter l f =>
    obtain rfl := Option.some.inj h
    cases g <;> simp_all [Target.In, Item.target, Target.owner, eq_comm]
  | environment l pred e =>
    obtain ⟨-, hsources, hfilters, henvs, hnew, hpred⟩ := of_insert h
    cases g with
    | environment l' label =>
      have hperm := insertStage_perm (x := e.label) hpred
      have hmem : label ∈ (q.envs.map Env.label) ↔ label = e.label ∨ label ∈ p.envs.map Env.label := by
        rw [henvs, map_insertStage, hperm.mem_iff, List.mem_cons]
      obtain rfl : l' = l := hg
      simp only [Target.In, Item.target, Target.environment.injEq, true_and, hmem]
      exact or_comm.trans (or_congr_right eq_comm)
    | project l' => simp [Target.In]
    | source l' y => simp [Target.In, Item.target, hsources]
    | filter l' name => simp [Target.In, Item.target, hfilters]

/-- **What is there after a creation**: what was there, and the target. -/
theorem present_create_iff (h : (create srv s x).2 = some t) (g : Target) :
    Present t g ↔ Present s g ∨ x.target = g := by
  rcases create_cases h with ⟨l, n, d, rfl, rfl⟩ | ⟨p, q, hp, hq, hlookup⟩
  · unfold Present
    rw [lookup_append]
    cases hs : lookup s g.owner with
    | some p =>
      simp only [Option.some_or, Option.some.injEq, exists_eq_left']
      refine ⟨Or.inl, fun h => h.elim id ?_⟩
      rintro rfl
      trivial
    | none =>
      simp only [Option.none_or, reduceCtorEq, false_and, exists_false, false_or]
      constructor
      · rintro ⟨q, hq, hin⟩
        split at hq
        · rename_i hl
          obtain rfl := Option.some.inj hq
          cases g with
          | project l' => exact congrArg Target.project hl
          | source l' y => cases hin
          | filter l' name => cases hin
          | environment l' label => cases hin
        · cases hq
      · rintro rfl
        exact ⟨_, if_pos rfl, trivial⟩
  · unfold Present
    rw [hlookup]
    by_cases hg : g.owner = x.target.owner
    · simp [hg, hp, in_attach_iff hq hg]
    · have hne : x.target ≠ g := fun e => hg (by rw [e])
      simp [hg, hne]

/-- What is there after a step: what was there, and a target that its test did not find. -/
theorem present_ensure_iff (h : (ensure srv s x).2 = some t) (g : Target) :
    Present t g ↔ Present s g ∨ (x.target = g ∧ found srv s x = false) := by
  unfold ensure at h
  split at h
  · rename_i hfound
    obtain rfl := Option.some.inj h
    simp [hfound]
  · rename_i hfound
    simp [present_create_iff h g, hfound]

/-- What is there is found. -/
theorem found_of_present (h : Present s x.target) : found srv s x = true := by
  obtain ⟨q, hq, hin⟩ := h
  have hprints : ∀ {α : Type} (l : List α) (texts : α → List Text) (y : α) (u : Text), y ∈ l → u ∈ texts y →
      u <:+: srv.print (l.map texts) := fun l texts y u hy hu => srv.prints _ _ (List.mem_map_of_mem hy) u hu
  cases x with
  | project l n d =>
    have hlabel : q.label = l := label_of_lookup hq
    exact decide_eq_true (hprints s _ q l (List.mem_of_find?_eq_some hq) (by simp [hlabel]))
  | source l y =>
    have hlookup : lookup s l = some q := hq
    rw [found, hlookup]
    exact decide_eq_true (hprints q.sources _ y y hin (List.mem_singleton_self y))
  | filter l f =>
    have hlookup : lookup s l = some q := hq
    rw [found, hlookup]
    exact decide_eq_true (hprints q.filters _ f.name f.name hin (List.mem_singleton_self f.name))
  | environment l pred e =>
    have hlookup : lookup s l = some q := hq
    obtain ⟨y, hy, hlabel⟩ := List.mem_map.mp hin
    rw [found, hlookup]
    exact decide_eq_true (hprints q.envs _ y e.label hy (by simp [hlabel]))

/-! ## A run -/

/-- **What is there after a run**: what was there, and each target that some test did not find. -/
theorem present_run_iff {xs : List (Option Item)} (h : (run srv s xs).2 = some t) (g : Target) :
    Present t g ↔ Present s g ∨ Missed srv s xs g := by
  induction xs generalizing s with
  | nil =>
    obtain rfl := Option.some.inj h
    simp [Missed]
  | cons x xs ih =>
    cases x with
    | none => cases h
    | some x =>
      rw [run] at h
      rw [Missed]
      cases hx : ensure srv s x with
      | mk calls u =>
        rw [hx] at h
        cases u with
        | none => cases h
        | some u =>
          have hensure : (ensure srv s x).2 = some u := by rw [hx]
          rw [ih h, present_ensure_iff hensure g]
          simp [or_assoc]

/-- A run that does not die has no entry that makes it die. -/
theorem none_not_mem {xs : List (Option Item)} (h : (run srv s xs).2 = some t) : none ∉ xs := by
  induction xs generalizing s with
  | nil => simp
  | cons x xs ih =>
    cases x with
    | none => cases h
    | some x =>
      rw [run] at h
      cases hx : ensure srv s x with
      | mk calls u =>
        rw [hx] at h
        cases u with
        | none => cases h
        | some u => simpa using ih h

/-- Over objects that are there, a run makes no call. -/
theorem run_of_present {xs : List (Option Item)} (hnone : none ∉ xs)
    (h : ∀ x, some x ∈ xs → Present s x.target) : run srv s xs = ([], some s) := by
  induction xs with
  | nil => rfl
  | cons x xs ih =>
    cases x with
    | none => exact absurd List.mem_cons_self hnone
    | some x =>
      have hx : ensure srv s x = ([], some s) := if_pos (found_of_present (h x List.mem_cons_self))
      have hxs := ih (fun hm => hnone (List.mem_cons_of_mem _ hm)) fun y hy => h y (List.mem_cons_of_mem _ hy)
      rw [run, hx]
      simp [hxs]

end Steps

/-! ## The declared chain -/

section Declared

variable {srv : Server} {s t : State} {cfg : List ProjectCfg} {c : ProjectCfg}

/-- An environment stands behind the one before it. -/
theorem mem_environmentItems {project pred : Text} {es : List EnvCfg} {x : Item}
    (h : some x ∈ environmentItems project pred es) : ∃ before e after, es = before ++ e :: after ∧
      (∀ b ∈ before, b.env.label ≠ []) ∧
        x = .environment project ((before.getLast?.map fun b => b.env.label).getD pred) e.env := by
  induction es generalizing pred with
  | nil => cases h
  | cons e es ih =>
    rw [environmentItems] at h
    split at h
    · simp at h
    · rename_i hlabel
      rcases List.mem_cons.mp h with h | h
      · exact ⟨[], e, es, rfl, by simp, Option.some.inj h⟩
      · obtain ⟨before, e', after, rfl, hbefore, rfl⟩ := ih h
        refine ⟨e :: before, e', after, rfl, ?_, ?_⟩
        · exact List.forall_mem_cons.mpr ⟨hlabel, hbefore⟩
        · rw [List.getLast?_cons]
          cases before.getLast? <;> rfl

theorem exists_environmentItems {project pred : Text} {es : List EnvCfg} (h : none ∉ environmentItems project pred es) :
    ∀ e ∈ es, ∃ pred', some (.environment project pred' e.env) ∈ environmentItems project pred es := by
  induction es generalizing pred with
  | nil => exact fun e he => by cases he
  | cons e es ih =>
    rw [environmentItems] at h ⊢
    split at h
    · simp at h
    · rename_i hlabel
      rw [if_neg hlabel]
      intro e' he'
      rcases List.mem_cons.mp he' with rfl | he'
      · exact ⟨pred, List.mem_cons_self⟩
      · obtain ⟨pred', hmem⟩ := ih (fun hn => h (List.mem_cons_of_mem _ hn)) e' he'
        exact ⟨pred', List.mem_cons_of_mem _ hmem⟩

/-- The objects of an entry that makes nothing die. -/
theorem mem_items {x : Item} (h : some x ∈ c.items) :
    (∃ n d, x = .project c.label n d) ∨ (∃ y ∈ c.sources, x = .source c.label y) ∨
      (∃ f ∈ c.filters, x = .filter c.label f) ∨ some x ∈ environmentItems c.label [] c.environments := by
  unfold ProjectCfg.items at h
  split at h
  · simp at h
  · simp only [List.cons_append, List.mem_cons, List.mem_append, List.mem_map, Option.some.injEq] at h
    rcases h with h | (⟨y, hy, rfl⟩ | ⟨f, hf, h⟩) | h
    · exact Or.inl ⟨_, _, h⟩
    · exact Or.inr (Or.inl ⟨y, hy, rfl⟩)
    · split at h
      · exact Or.inr (Or.inr (Or.inl ⟨f, hf, (Option.some.inj h).symm⟩))
      · cases h
    · exact Or.inr (Or.inr (Or.inr h))

/-- What is declared is among the objects. -/
theorem items_of_none (h : none ∉ c.items) : (∃ n d, some (.project c.label n d) ∈ c.items) ∧
    (∀ y ∈ c.sources, some (.source c.label y) ∈ c.items) ∧ (∀ f ∈ c.filters, some (.filter c.label f) ∈ c.items) ∧
      ∀ e ∈ c.environments, ∃ pred, some (.environment c.label pred e.env) ∈ c.items := by
  unfold ProjectCfg.items at h ⊢
  split at h
  · simp at h
  · rename_i hlabel
    rw [if_neg hlabel]
    simp only [List.cons_append, List.mem_cons, List.mem_append, List.mem_map, not_or, not_exists, not_and,
      Option.some.injEq] at h ⊢
    obtain ⟨-, ⟨-, hfilters⟩, henvs⟩ := h
    refine ⟨⟨_, _, Or.inl rfl⟩, fun y hy => Or.inr (Or.inl (Or.inl ⟨y, hy, rfl⟩)), fun f hf => ?_, fun e he => ?_⟩
    · have hcomplete := hfilters f hf
      split at hcomplete
      · rename_i hc
        exact Or.inr (Or.inl (Or.inr ⟨f, hf, if_pos hc⟩))
      · exact absurd rfl hcomplete
    · obtain ⟨pred, hmem⟩ := exists_environmentItems henvs e he
      exact ⟨pred, Or.inr (Or.inr hmem)⟩

/-- An environment that is declared is inserted where it is declared. -/
theorem sublist_of_insert {project pred : Text} {e : Env} {p q : Project} (hnd : c.envLabels.Nodup)
    (hmem : some (.environment project pred e) ∈ environmentItems c.label [] c.environments)
    (hp : (p.envs.map Env.label).Sublist c.envLabels) (h : p.insert pred e = some q) :
    (q.envs.map Env.label).Sublist c.envLabels := by
  obtain ⟨before, e', after, henvs, hbefore, hx⟩ := mem_environmentItems hmem
  obtain ⟨-, rfl, rfl⟩ := Item.environment.inj hx
  obtain ⟨-, -, -, hq, hnew, hpred⟩ := of_insert h
  rw [hq, map_insertStage]
  unfold ProjectCfg.envLabels at hnd hp ⊢
  rw [henvs, List.map_append, List.map_cons] at hnd hp ⊢
  rcases List.eq_nil_or_concat before with rfl | ⟨before, b, rfl⟩
  · rw [List.map_nil, List.nil_append] at hp ⊢
    refine List.Sublist.cons_cons e'.env.label ?_
    generalize p.envs.map Env.label = labels at hp hnew ⊢
    cases hp with
    | cons _ hp => exact hp
    | cons_cons _ hp => exact absurd List.mem_cons_self hnew
  · have hb : b.env.label ≠ [] := hbefore b (by simp)
    have hlast : (((before.concat b).getLast?.map fun b => b.env.label).getD []) = b.env.label := by simp
    rw [hlast] at hpred ⊢
    rw [List.concat_eq_append, List.map_append, List.map_singleton, List.append_assoc, List.singleton_append]
      at hnd hp ⊢
    rw [insertStage, if_neg hb]
    exact insertBehind_sublist hnd hp hnew (hpred.resolve_left hb)

/-- A step keeps the declared order. -/
theorem ordered_ensure (hlabels : (cfg.map ProjectCfg.label).Nodup) (hnd : ∀ c ∈ cfg, c.envLabels.Nodup)
    (hs : Ordered cfg s) {x : Item} (hx : some x ∈ cfg.flatMap ProjectCfg.items)
    (h : (ensure srv s x).2 = some t) : Ordered cfg t := by
  unfold ensure at h
  split at h
  · rwa [← Option.some.inj h]
  intro c hc q hq
  rcases create_cases h with ⟨l, n, d, rfl, rfl⟩ | ⟨p, q', hp, hattach, hlookup⟩
  · rw [lookup_append] at hq
    cases hs' : lookup s c.label with
    | some p =>
      rw [hs', Option.some_or] at hq
      rw [← Option.some.inj hq]
      exact hs c hc p hs'
    | none =>
      rw [hs', Option.none_or] at hq
      split at hq
      · rw [← Option.some.inj hq]
        exact List.nil_sublist _
      · cases hq
  · rw [hlookup] at hq
    split at hq
    · rename_i howner
      obtain rfl := Option.some.inj hq
      have hsub := hs c hc p (howner ▸ hp)
      cases x with
      | project l n d => cases hattach
      | source l y => rwa [← Option.some.inj hattach]
      | filter l f => rwa [← Option.some.inj hattach]
      | environment l pred e =>
        obtain ⟨c', hc', hmem⟩ := List.mem_flatMap.mp hx
        have hitem : some (.environment l pred e) ∈ environmentItems c'.label [] c'.environments := by
          rcases mem_items hmem with ⟨n, d, h⟩ | ⟨y, -, h⟩ | ⟨f, -, h⟩ | h
          · cases h
          · cases h
          · cases h
          · exact h
        have hl : l = c'.label := by
          obtain ⟨before, e', after, -, -, hx⟩ := mem_environmentItems hitem
          exact (Item.environment.inj hx).1
        obtain rfl : c = c' := List.inj_on_of_nodup_map hlabels hc hc' (howner.trans hl)
        exact sublist_of_insert (hnd c hc) hitem hsub hattach
    · exact hs c hc q hq

/-- **The environments stay in the declared order.** -/
theorem ordered_run (hlabels : (cfg.map ProjectCfg.label).Nodup) (hnd : ∀ c ∈ cfg, c.envLabels.Nodup)
    {xs : List (Option Item)} (hxs : ∀ x ∈ xs, x ∈ cfg.flatMap ProjectCfg.items) (hs : Ordered cfg s)
    (h : (run srv s xs).2 = some t) : Ordered cfg t := by
  induction xs generalizing s with
  | nil => rwa [← Option.some.inj h]
  | cons x xs ih =>
    cases x with
    | none => cases h
    | some x =>
      rw [run] at h
      cases hx : ensure srv s x with
      | mk calls u =>
        rw [hx] at h
        cases u with
        | none => cases h
        | some u =>
          have hensure : (ensure srv s x).2 = some u := by rw [hx]
          exact ih (fun y hy => hxs y (List.mem_cons_of_mem _ hy))
            (ordered_ensure hlabels hnd hs (hxs _ List.mem_cons_self) hensure) h

/-- What is complete has each object. -/
theorem present_of_complete (h : Complete cfg t) {x : Item} (hx : some x ∈ cfg.flatMap ProjectCfg.items) :
    Present t x.target := by
  obtain ⟨c, hc, hmem⟩ := List.mem_flatMap.mp hx
  obtain ⟨q, hq, hsources, hfilters, henvs⟩ := h c hc
  rcases mem_items hmem with ⟨n, d, rfl⟩ | ⟨y, hy, rfl⟩ | ⟨f, hf, rfl⟩ | hitem
  · exact ⟨q, hq, trivial⟩
  · exact ⟨q, hq, hsources y hy⟩
  · exact ⟨q, hq, hfilters f hf⟩
  · obtain ⟨before, e, after, hsplit, -, rfl⟩ := mem_environmentItems hitem
    have hlabel : e.env.label ∈ c.envLabels := List.mem_map_of_mem (by rw [hsplit]; simp)
    rw [← henvs] at hlabel
    exact ⟨q, hq, hlabel⟩

/-- With each object there, and the environments in order, it is complete. -/
theorem complete_of_present (hnd : ∀ c ∈ cfg, c.envLabels.Nodup) (hnone : none ∉ cfg.flatMap ProjectCfg.items)
    (hordered : Ordered cfg t) (h : ∀ x, some x ∈ cfg.flatMap ProjectCfg.items → Present t x.target) :
    Complete cfg t := by
  intro c hc
  obtain ⟨⟨n, d, hproject⟩, hsources, hfilters, henvs⟩ :=
    items_of_none fun hn => hnone (List.mem_flatMap.mpr ⟨c, hc, hn⟩)
  have hpresent : ∀ x, some x ∈ c.items → Present t x.target := fun x hx =>
    h x (List.mem_flatMap.mpr ⟨c, hc, hx⟩)
  obtain ⟨q, hq, -⟩ := hpresent _ hproject
  have hin : ∀ x, some x ∈ c.items → x.target.owner = c.label → x.target.In q := fun x hx howner => by
    obtain ⟨q', hq', hin⟩ := hpresent x hx
    rw [howner] at hq'
    have hsame : lookup t c.label = some q := hq
    rw [hsame] at hq'
    rwa [Option.some.inj hq']
  refine ⟨q, hq, fun y hy => hin _ (hsources y hy) rfl, fun f hf => hin _ (hfilters f hf) rfl, ?_⟩
  refine (hordered c hc q hq).eq_of_length_le ?_
  refine (List.subperm_of_subset (hnd c hc) fun l hl => ?_).length_le
  obtain ⟨e, he, rfl⟩ := List.mem_map.mp hl
  obtain ⟨pred, hmem⟩ := henvs e he
  exact hin _ hmem rfl

/-- **Exactly when a run converges**: it dies, or no environment is declared twice in one project and each declared
object was there before or was, in its turn, not found in what the server printed. -/
theorem projects_converge_iff (srv : Server) (cfg : List ProjectCfg) (s : State)
    (hlabels : (cfg.map ProjectCfg.label).Nodup) (hordered : Ordered cfg s) :
    Converges srv cfg s ↔ ((ensureContentProjects srv s cfg).2 ≠ none →
      (∀ c ∈ cfg, c.envLabels.Nodup) ∧ ∀ x, some x ∈ cfg.flatMap ProjectCfg.items →
        Present s x.target ∨ Missed srv s (cfg.flatMap ProjectCfg.items) x.target) := by
  constructor
  · intro h hrun
    obtain ⟨t, ht⟩ := Option.ne_none_iff_exists'.mp hrun
    obtain ⟨hcomplete, -⟩ := h t ht
    refine ⟨fun c hc => ?_, fun x hx => (present_run_iff ht _).mp (present_of_complete hcomplete hx)⟩
    obtain ⟨q, -, -, -, henvs⟩ := hcomplete c hc
    exact henvs ▸ q.nodup
  · intro h t ht
    obtain ⟨hnd, hmissed⟩ := h (by rw [ht]; simp)
    have hpresent : ∀ x, some x ∈ cfg.flatMap ProjectCfg.items → Present t x.target := fun x hx =>
      (present_run_iff ht _).mpr (hmissed x hx)
    have hnone := none_not_mem ht
    refine ⟨complete_of_present hnd hnone (ordered_run hlabels hnd (fun _ h => h) hordered ht) hpresent, ?_⟩
    rw [ensureContentProjects, run_of_present hnone hpresent]

end Declared

/-! ## Labels in labels -/

/-- What each object is printed as, one text after another. -/
def plainPrint (os : List (List Text)) : Text := os.flatten.flatten

theorem plainPrint_prints (os : List (List Text)) : ∀ o ∈ os, ∀ t ∈ o, t <:+: plainPrint os := by
  intro o ho t ht
  exact List.infix_of_mem_flatten (List.mem_flatten.mpr ⟨o, ho, ht⟩)

/-- A server that accepts every call. -/
def willing : Server := ⟨plainPrint, plainPrint_prints, fun _ _ => true, fun _ _ => true⟩

/-- A project with the stages. -/
def staged (stages : List Text) : ProjectCfg := ⟨"clm".toList, [], [], [], [], stages.map .plain⟩

/-- For the stages `qa` and `prod` on a server without projects. -/
theorem projects_converge_iff_qa_prod : Converges willing [staged ["qa".toList, "prod".toList]] [] ↔
    ((ensureContentProjects willing [] [staged ["qa".toList, "prod".toList]]).2 ≠ none →
      (∀ c ∈ [staged ["qa".toList, "prod".toList]], c.envLabels.Nodup) ∧
        ∀ x, some x ∈ [staged ["qa".toList, "prod".toList]].flatMap ProjectCfg.items → Present [] x.target ∨
          Missed willing [] ([staged ["qa".toList, "prod".toList]].flatMap ProjectCfg.items) x.target) :=
  projects_converge_iff willing _ [] (List.nodup_singleton _) fun _ _ _ h => by cases h

/-- The stage `dev` behind `devel` is taken to be there. -/
theorem devel_hides_dev : ¬ Converges willing [staged ["devel".toList, "dev".toList]] [] := by
  intro h
  have hrun : ((ensureContentProjects willing [] [staged ["devel".toList, "dev".toList]]).2.bind fun t =>
      lookup t "clm".toList).map (fun q => q.envs.map Env.label) = some ["devel".toList] := by decide
  obtain ⟨q, hq, hlabels⟩ := Option.map_eq_some_iff.mp hrun
  obtain ⟨t, ht, hlookup⟩ := Option.bind_eq_some_iff.mp hq
  obtain ⟨q', hq', -, -, hchain⟩ := (h t ht).1 _ (List.mem_singleton_self _)
  have hsame : some q' = some q := hq'.symm.trans hlookup
  rw [Option.some.inj hsame, hlabels] at hchain
  exact absurd hchain (by decide)

end LabInABox.Spacecmd.ContentProjects
