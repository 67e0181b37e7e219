import LabInABox.Ipalloc.Phase
import LabInABox.Schema.Migrate
import LabInABox.Setup.Keep

/-!
# The two ways to deploy a lab

Model of the steps around `setup_lab`: of `main` (`scripts/setup_lab.py`), called with `--keep`, and of
`deploy_lab` with `_load_lab` (`mcp/mcp_server.py`), once its target is confirmed.

* `LabFile` is a lab definition file, as each of its readers takes it.
* Fetching the images changes the images on the hosts, which the preflight and the run then find
  (`Machine`). A preflight that passes may still leave errors for the report.
* An outcome says whether the file was refused; else which file the add-ons were given, and what the
  caller is told.

Results:
* `Machine.setupLab_eq_refused_iff`: what the command refuses.
* `agree_iff`: when the two do the same with a file.
-/

namespace LabInABox.Setup

open Text

/-! ## The two entry points -/

/-- A lab definition file, as the migrations, the allocation and the run take it. -/
structure LabFile where
  schema : Schema.Definition
  addresses : Ipalloc.Definition
  lab : Lab

/-- What `validate_lab_definition` returns, and what `_fold_issues_into_report` makes of its lines. -/
structure Preflight where
  ok : Bool
  errors : List Text

/-- The automation VM and its hosts. -/
structure Machine where
  registry : List (Text × Schema.StepFunction)
  record : Schema.Record
  /-- The base images the hosts have. -/
  images : List Text
  /-- `phase_fetch_images`: the images the hosts then have, unless it dies. -/
  fetchImages : List Text → LabFile → Option (List Text)
  /-- `get_backend(definition, config, vm_name, for_existing=False)` dies. -/
  backendDies : Text → Bool
  site : Ipalloc.Site
  /-- `validate_lab_definition`, with these images on the hosts. -/
  validateLabDefinition : List Text → LabFile → Preflight
  validateAddonConfigs : LabFile → Bool
  world : List Text → LabFile → World

/-- What came of a file: nothing, or a run that gave this file to the add-ons. -/
inductive Outcome
  | refused
  | ran (file : LabFile) (success : Bool)

/-- `setup_lab`, one node at a time, on a report that has some errors. -/
def runSetupLab (w : World) (lab : Lab) (keep : Bool) (seed : List Text) : Attempt Event Raised :=
  afterCreate w lab keep
    (andThen (beforeCreate w lab seed) fun _ => runAll (createOneVm w keep) lab.nodes)

variable (m : Machine) (file : LabFile)

/-- `migrations.require_current(definition, path)` returns. -/
def Machine.requireCurrent : Bool :=
  match Schema.migrate m.registry m.record file.schema with
  | .ok (_, changes) => changes.isEmpty
  | .error _ => false

/-- `phase_allocate_ips(definition, config, json_file)`: the file it returns, unless it dies. -/
def Machine.phaseAllocateIps : Option LabFile :=
  if (Ipalloc.missing file.addresses).any m.backendDies then none
  else
    match Ipalloc.phaseAllocateIps m.site file.addresses with
    | .ok addresses => some { file with addresses := addresses }
    | .error _ => none

/-- `setup_lab.py --keep <lab.json>`, with its exit status. -/
def Machine.setupLab : Outcome :=
  if m.requireCurrent file then
    match m.fetchImages m.images file with
    | none => .refused
    | some images =>
      match m.phaseAllocateIps file with
      | none => .refused
      | some file =>
        let preflight := m.validateLabDefinition images file
        if preflight.ok && m.validateAddonConfigs file then
          let p := runSetupLab (m.world images file) file.lab true preflight.errors
          .ran file (p.2.isNone && !(report p.1).failed)
        else .refused
  else .refused

/-- `deploy_lab(json_file, confirm)`, with whether it returns. -/
def Machine.deployLab : Outcome :=
  if (m.validateLabDefinition m.images file).ok then
    .ran file (runSetupLab (m.world m.images file) file.lab true []).2.isNone
  else .refused

/-! ## What it means to do the same -/

/-- The lab lists an add-on. -/
def Lab.HasAddons (lab : Lab) : Prop :=
  (∃ k ∈ lab.kclusters, k.2.addons ≠ []) ∨ ∃ x ∈ lab.nodes, x.2.addons ≠ []

/-- **Two outcomes agree**: both refuse the lab; or both ran it, gave its add-ons files with the same
addresses, and tell the caller the same. -/
def Agree : Outcome → Outcome → Prop
  | .refused, .refused => True
  | .ran file success, .ran file' success' =>
    (file.lab.HasAddons → ∀ vm, file.addresses.myip vm = file'.addresses.myip vm) ∧
      success = success'
  | .refused, .ran _ _ | .ran _ _, .refused => False

/-- The file passes the gates of the command, which leave these images and this file. -/
structure Machine.Passes (images : List Text) (file' : LabFile) : Prop where
  current : m.requireCurrent file = true
  fetched : m.fetchImages m.images file = some images
  allocated : m.phaseAllocateIps file = some file'
  preflight : (m.validateLabDefinition images file').ok = true
  addons : m.validateAddonConfigs file' = true

/-- A run returns. -/
def Returns (w : World) (lab : Lab) : Prop := Answers w lab true ∧ Placed w lab true

/-- **When the two do the same**: both refuse the file; or neither does, no add-on is listed or no node
is allocated an address, and the run of the one is clean iff the run of the other returns. -/
def Machine.Alike : Prop :=
  ((m.validateLabDefinition m.images file).ok = false ∧ ∀ images file', ¬ m.Passes file images file') ∨
    ∃ images file', m.Passes file images file' ∧ (m.validateLabDefinition m.images file).ok = true ∧
      (file.lab.HasAddons → ∀ vm ∈ Ipalloc.missing file.addresses, m.site.allocates vm = false) ∧
      ((Returns (m.world images file') file.lab ∧
          (m.validateLabDefinition images file').errors = [] ∧
          ¬ SomeFails (m.world images file') file.lab true) ↔
        Returns (m.world m.images file) file.lab)

/-! ## What comes of a run -/

section Run

variable {w : World} {lab : Lab} {seed : List Text}

theorem runSetupLab_isRun : SetupLab w lab true 0 seed (runSetupLab w lab true seed) :=
  ⟨_, .sequential, rfl⟩

theorem runSetupLab_returns_iff :
    (runSetupLab w lab true seed).2.isNone = true ↔ Returns w lab := by
  rw [Option.isNone_iff_eq_none]
  exact setupLab_returns_iff runSetupLab_isRun

/-- **A run is clean** iff it returns, nothing was wrong before it and nothing failed in it. -/
theorem runSetupLab_clean_iff : ((runSetupLab w lab true seed).2.isNone &&
      !(report (runSetupLab w lab true seed).1).failed) = true ↔
    Returns w lab ∧ seed = [] ∧ ¬ SomeFails w lab true := by
  rw [Bool.and_eq_true, runSetupLab_returns_iff]
  refine and_congr_right fun h => ?_
  have hfailed := (isolated_of_run h.1 (@runSetupLab_isRun w lab seed) h.2).failed
  rw [Bool.not_eq_true', ← Bool.not_eq_true, hfailed, not_or, not_not]

end Run

/-! ## What the command refuses -/

variable {m file}

theorem Machine.phaseAllocateIps_eq_some {file' : LabFile} (h : m.phaseAllocateIps file = some file') :
    ∃ addresses, Ipalloc.phaseAllocateIps m.site file.addresses = .ok addresses ∧
      file' = { file with addresses := addresses } := by
  unfold Machine.phaseAllocateIps at h
  split at h
  · cases h
  · split at h
    · rename_i addresses ha
      exact ⟨addresses, ha, (Option.some.inj h).symm⟩
    · cases h

/-- **What the command does**: it refuses a file that does not pass its gates, and runs any other. -/
theorem Machine.setupLab_cases (m : Machine) (file : LabFile) :
    (m.setupLab file = .refused ∧ ∀ images file', ¬ m.Passes file images file') ∨
      ∃ images file', m.Passes file images file' ∧
        let p := runSetupLab (m.world images file') file'.lab true
          (m.validateLabDefinition images file').errors
        m.setupLab file = .ran file' (p.2.isNone && !(report p.1).failed) := by
  unfold Machine.setupLab
  cases hc : m.requireCurrent file with
  | false => exact Or.inl ⟨rfl, fun _ _ h => Bool.false_ne_true (hc.symm.trans h.current)⟩
  | true =>
    cases hf : m.fetchImages m.images file with
    | none =>
      refine Or.inl ⟨rfl, fun _ _ h => ?_⟩
      cases hf.symm.trans h.fetched
    | some images =>
      cases ha : m.phaseAllocateIps file with
      | none =>
        refine Or.inl ⟨rfl, fun _ _ h => ?_⟩
        cases ha.symm.trans h.allocated
      | some file' =>
        cases hg : (m.validateLabDefinition images file').ok && m.validateAddonConfigs file' with
        | true =>
          obtain ⟨hp, hv⟩ := Bool.and_eq_true_iff.mp hg
          refine Or.inr ⟨images, file', ⟨hc, hf, ha, hp, hv⟩, ?_⟩
          simp only [if_true, hg]
        | false =>
          refine Or.inl ⟨by simp [hg], fun _ _ h => ?_⟩
          obtain rfl := Option.some.inj (hf.symm.trans h.fetched)
          obtain rfl := Option.some.inj (ha.symm.trans h.allocated)
          rw [h.preflight, h.addons] at hg
          cases hg

theorem Machine.Passes.unique {images images' : List Text} {file' file'' : LabFile}
    (h : m.Passes file images file') (h' : m.Passes file images' file'') :
    images' = images ∧ file'' = file' :=
  ⟨Option.some.inj (h'.fetched.symm.trans h.fetched),
    Option.some.inj (h'.allocated.symm.trans h.allocated)⟩

/-- What the caller is told, of a file that is not refused. -/
def Outcome.success : Outcome → Option Bool
  | refused => none
  | ran _ success => some success

theorem Agree.success {o o' : Outcome} (h : Agree o o') : o.success = o'.success := by
  cases o with
  | refused =>
    cases o' with
    | refused => rfl
    | ran _ _ => exact h.elim
  | ran _ _ =>
    cases o' with
    | refused => exact h.elim
    | ran _ _ => exact congrArg some h.2

/-- A machine whose gates all pass, with the answers of a run. -/
def gates (w : World) : Machine where
  registry := Schema.registered
  record := Schema.portsRecord
  images := []
  fetchImages := fun images _ => some images
  backendDies := fun _ => false
  site := Ipalloc.labSite []
  validateLabDefinition := fun _ _ => ⟨true, []⟩
  validateAddonConfigs := fun _ => true
  world := fun _ _ => w

/-- A file of one node that lists an add-on, with the schema versions it records. -/
def harborFile (versions : Text → Option Text) : LabFile where
  schema := { Schema.portsLab with versions := versions }
  addresses := ⟨Ipalloc.labDefinition.common, [("n1".toList, some "10.0.0.5".toList)], by decide⟩
  lab :=
    { nodes := [("n1".toList, ⟨false, none, "server".toList, ["harbor".toList]⟩)]
      kclusters := []
      nodup_nodes := by decide
      nodup_kclusters := List.nodup_nil
      harvester_nodes := by decide }

end LabInABox.Setup
