import Mathlib.Data.List.Perm.Basic
import LabInABox.Attempt
import LabInABox.Text.Order

/-!
# The run of a lab setup

Model of `setup_lab` (`scripts/setup_lab.py`) and of the phases that create the nodes, install the
clusters and run the add-ons: `_create_one_vm`, `phase_create_vms`,
`phase_reboot_and_wait_kept_nodes`, `_install_cluster_addons`, `phase_install_k8s_and_addons`,
`phase_vm_addons`, `phase_post_commands`, and the report.

* `World` is what the operations the run calls on an item answer or raise. An add-on may be listed
  twice on a node, so its runs are numbered.
* A run is a log (`Event`): the turn of each item, as the phase comes to it, and what is reported. The
  report is read from the log, as `_report` is appended to.
* `touch` is what is run against a node after they are created. The install of a cluster is run against
  each of its nodes; the commands of a node against it, if it has any.
* In parallel the workers write in any order, and each of them is waited for before an exception of one
  is raised again: `CreateVms` is a relation.
* The warnings and resources of the report are left out. `cluster_services` and the list of a cluster
  are one list of names (`addons`).

Results:
* `failed_iff`: the report has failed iff an entry of the log is a failure.
* `not_ok_of_pending`: with a pending add-on the summary does not say that the lab is OK.
-/

namespace LabInABox.Setup

open Text

/-! ## The lab and the world -/

/-- What the handlers catch: `die`, and a command or an API that failed. -/
inductive Raised
  | systemExit
  | runtimeError (msg : Text)
  deriving DecidableEq

/-- `str(e)`; `die` exits with 1. -/
def Raised.text : Raised → Text
  | systemExit => "1".toList
  | runtimeError msg => msg

/-- A node: whether it is a host that is there already, its cluster if any, its add-ons. -/
structure NodeCfg where
  existing : Bool
  kcluster : Option Text
  /-- `KUBERNETES_NODE_TYPE`, else `INSTALL_RKE2_TYPE`, else `"server"`. -/
  nodeType : Text
  addons : List Text

/-- A cluster, with the add-ons it needs before its own. -/
structure Kcluster where
  cluType : Text
  mgmNode : Text
  addons : List Text

/-- `harvester.CLU_TYPE`. -/
def CLU_TYPE : Text := "harvester".toList

/-- A lab definition: two dictionaries. A Harvester cluster has a node (`harvester.problems`). -/
structure Lab where
  nodes : List (Text × NodeCfg)
  kclusters : List (Text × Kcluster)
  nodup_nodes : (nodes.map Prod.fst).Nodup
  nodup_kclusters : (kclusters.map Prod.fst).Nodup
  harvester_nodes : ∀ k ∈ kclusters, k.2.cluType = CLU_TYPE → ∃ x ∈ nodes, x.2.kcluster = some k.1

/-- The nodes of a cluster, in the order of the definition. -/
def Lab.members (lab : Lab) (cluName : Text) : List (Text × NodeCfg) :=
  lab.nodes.filter fun x => x.2.kcluster = some cluName

/-- `harvester.create_node(definition, clu_name)`. -/
def Lab.createNode (lab : Lab) (cluName : Text) : Text :=
  ((lab.members cluName).head?.map Prod.fst).getD []

/-- The create nodes of the Harvester clusters. -/
def Lab.creators (lab : Lab) : List Text :=
  (lab.kclusters.filter (·.2.cluType = CLU_TYPE)).map fun k => lab.createNode k.1

/-- `harvester.cluster_of(definition, vm_name)` is not empty. -/
def Lab.isHarvesterNode (lab : Lab) (cfg : NodeCfg) : Bool :=
  cfg.kcluster.any fun clu =>
    clu ≠ [] && (lab.kclusters.lookup clu).any (·.cluType = CLU_TYPE)

/-- `kcluster_node(definition, clu_name)`. -/
def Lab.kclusterNode (lab : Lab) (k : Text × Kcluster) : Text :=
  let named := strip k.2.mgmNode
  if named ≠ [] then named
  else match (lab.members k.1).find? (·.2.nodeType = "server".toList) with
    | some x => x.1
    | none => ((lab.members k.1).head?.map Prod.fst).getD []

/-- The node `_install_cluster_addons` runs the add-ons of a cluster from. -/
def Lab.addonNode (lab : Lab) (k : Text × Kcluster) : Text :=
  if k.2.mgmNode ≠ [] then k.2.mgmNode else ((lab.members k.1).head?.map Prod.fst).getD []

/-- A finished add-on: its exit code, and whether it handed a step to a background worker. -/
structure AddonRun where
  returncode : Int
  handedOff : Bool

/-- What the operations of a run answer, or raise. -/
structure World where
  /-- `phase_services`. -/
  services : Option Raised
  /-- `phase_dns`. -/
  dns : Option Raised
  /-- `check_ssh_conn`, of an existing node. -/
  checkSshConn : Text → Option Raised
  /-- `get_backend(.., for_existing=True).vm_is_reusable(..)`. -/
  vmIsReusable : Text → Except Raised Bool
  destroyVm : Text → Option Raised
  /-- Messages, for what failed on a node that was created. -/
  provisionVm : Text → Except Raised (List Text)
  /-- `locate_kvm_host`, of a kept node. -/
  locateKvmHost : Text → Option Raised
  /-- `boot_id` and `reboot_vm`. -/
  rebootVm : Text → Option Raised
  /-- `wait_for_reboot` and `check_ssh_conn`. -/
  waitKept : Text → Option Raised
  installCluster : Text → Option Raised
  addonInstaller : Text → Bool
  /-- `requirement_issue`, in a scope. -/
  requirementIssue : Text → Text → Bool
  /-- `_run_addon`, in a scope: how often the add-on was run there before, and its name. -/
  runAddon : Text → Nat → Text → AddonRun
  /-- `run_node_commands(.., "post")`: a message for each command that failed. -/
  postCommands : Text → List Text

/-! ## The report -/

/-- What a phase comes to. -/
inductive Item
  | node (name : Text)
  | cluster (name : Text)
  | addon (scope name : Text)
  | post (name : Text)
  deriving DecidableEq

/-- What is run against a node. -/
inductive Op
  | reboot
  | sshWait
  | install
  | systemWait
  | clusterAddon
  | nodeAddon
  | postCommand
  deriving DecidableEq

/-- An entry of the log: the turn of an item, what is run against a node, or what is reported. -/
inductive Event
  | turn (item : Item)
  | touch (op : Op) (host : Text)
  | node (name status : Text)
  | cluster (name status : Text)
  | addon (scope name status : Text)
  | error (msg : Text)
  | summary
  deriving DecidableEq

abbrev Log := List Event

/-- `"FAILED"`. -/
def FAILED : Text := "FAILED".toList

/-- `_RunReport`. -/
structure Report where
  nodes : List (Text × Text)
  clusters : List (Text × Text)
  addons : List (Text × Text × Text)
  errors : List Text

/-- The report of a log. -/
def report (log : Log) : Report where
  nodes := log.filterMap fun | .node name status => some (name, status) | _ => none
  clusters := log.filterMap fun | .cluster name status => some (name, status) | _ => none
  addons := log.filterMap fun | .addon scope name status => some (scope, name, status) | _ => none
  errors := log.filterMap fun | .error msg => some msg | _ => none

/-- `_report.failed`. -/
def Report.failed (r : Report) : Bool :=
  !r.errors.isEmpty || r.nodes.any (·.2 == FAILED) || r.clusters.any (·.2 == FAILED) ||
    r.addons.any fun a => FAILED.isPrefixOf a.2.2

/-- `_report.pending`. -/
def Report.pending (r : Report) : Bool := r.addons.any (·.2.2 == "pending".toList)

/-- The last line of `print_summary`. -/
inductive Closing
  | withFailures
  | notFullyUsable
  | okWithWarnings
  | everythingOk
  deriving DecidableEq

/-- The line for a report, with warnings or without. -/
def Report.closing (r : Report) (warnings : Bool) : Closing :=
  if r.failed then .withFailures
  else if r.pending then .notFullyUsable
  else if warnings then .okWithWarnings
  else .everythingOk

/-- The line says that the lab is OK. -/
def Closing.Ok (c : Closing) : Prop := c = .okWithWarnings ∨ c = .everythingOk

/-- `{name for name, status in _report.nodes if status == "FAILED"}`. -/
def failedNodes (log : Log) : List Text :=
  ((report log).nodes.filter (·.2 == FAILED)).map Prod.fst

/-- `_addon_status(rc, started_at)`. -/
def addonStatus (r : AddonRun) : Text :=
  if r.returncode ≠ 0 then "FAILED (exit ".toList ++ (toString r.returncode).toList ++ ")".toList
  else if r.handedOff then "pending".toList
  else "ok".toList

/-! ## Creating the nodes -/

/-- The message of a `--keep` check that could not be made. -/
def keepMsg (vmName e : Text) : Text :=
  "--keep check for '".toList ++ vmName ++ "' could not reach its backend (leaving it untouched, ".toList ++
    "continuing with the remaining nodes): ".toList ++ e

/-- The message of a destroy that failed. -/
def destroyMsg (vmName e : Text) : Text :=
  "destroy before recreate failed for '".toList ++ vmName ++ "' (continuing): ".toList ++ e

/-- The message of a node that was not provisioned. -/
def provisionMsg (vmName : Text) : Raised → Text
  | .systemExit =>
    "provisioning '".toList ++ vmName ++ "' failed (continuing with the remaining nodes)".toList
  | .runtimeError e =>
    "provisioning '".toList ++ vmName ++ "' failed (continuing with the remaining nodes): ".toList ++ e

variable (w : World) (lab : Lab) (keep : Bool)

/-- The destroy before a node is made again. A refusal is not an error. -/
def destroyed (vmName : Text) : Log :=
  match w.destroyVm vmName with
  | some (.runtimeError e) => [.error (destroyMsg vmName e)]
  | some .systemExit | none => []

/-- The provisioning of a node. -/
def provisioned (vmName : Text) : Log :=
  match w.provisionVm vmName with
  | .ok msgs => msgs.map .error ++ [.node vmName "created".toList]
  | .error r => [.node vmName FAILED, .error (provisionMsg vmName r)]

/-- The `--keep` check: `false` without it. -/
def keepCheck (vmName : Text) : Except Raised Bool :=
  if keep then w.vmIsReusable vmName else .ok false

/-- `_create_one_vm`. -/
def createOneVm (x : Text × NodeCfg) : Attempt Event Raised :=
  if x.2.existing then
    match w.checkSshConn x.1 with
    | some r => ([.turn (.node x.1)], some r)
    | none => ([.turn (.node x.1), .node x.1 "existing".toList], none)
  else
    match keepCheck w keep x.1 with
    | .ok true => ([.turn (.node x.1), .node x.1 "reused".toList], none)
    | .error (.runtimeError e) =>
      ([.turn (.node x.1), .node x.1 FAILED, .error (keepMsg x.1 e)], none)
    | .ok false | .error .systemExit =>
      (.turn (.node x.1) :: (destroyed w x.1 ++ provisioned w x.1), none)

/-- `phase_create_vms`. In parallel the create nodes of the Harvester clusters go first, one by one;
then a pool runs the others. -/
inductive CreateVms : Nat → Attempt Event Raised → Prop
  | sequential : CreateVms 0 (runAll (createOneVm w keep) lab.nodes)
  | creator {parallel : Nat} {log : Log} {r : Raised} (hp : parallel ≠ 0)
      (hrun : runAll (createOneVm w keep) (lab.nodes.filter (·.1 ∈ lab.creators)) = (log, some r)) :
      CreateVms parallel (log, some r)
  | pool {parallel : Nat} {log events : Log} {raised : Option Raised} (hp : parallel ≠ 0)
      (hrun : runAll (createOneVm w keep) (lab.nodes.filter (·.1 ∈ lab.creators)) = (log, none))
      (hevents : events.Perm ((lab.nodes.filter (·.1 ∉ lab.creators)).flatMap fun x =>
        (createOneVm w keep x).1))
      (hnone : raised = none ↔
        ∀ x ∈ lab.nodes.filter (·.1 ∉ lab.creators), (createOneVm w keep x).2 = none)
      (hsome : ∀ r, raised = some r →
        ∃ x ∈ lab.nodes.filter (·.1 ∉ lab.creators), (createOneVm w keep x).2 = some r) :
      CreateVms parallel (log ++ events, raised)

/-- `node_cfg.get("kcluster")` is not empty. -/
def NodeCfg.inCluster (cfg : NodeCfg) : Bool := cfg.kcluster.any (· ≠ [])

/-- The reboot of a kept node. -/
def rebootKept (x : Text × NodeCfg) : Attempt Event Raised :=
  match w.locateKvmHost x.1 with
  | some r => ([], some r)
  | none => ([.touch .reboot x.1], w.rebootVm x.1)

/-- The wait for a kept node. -/
def waitKept (x : Text × NodeCfg) : Attempt Event Raised := ([.touch .sshWait x.1], w.waitKept x.1)

/-- `phase_reboot_and_wait_kept_nodes`. -/
def rebootAndWaitKeptNodes : Attempt Event Raised :=
  if keep then
    andThen (runAll (rebootKept w) (lab.nodes.filter fun x =>
        x.2.inCluster && !x.2.existing && !lab.isHarvesterNode x.2))
      fun _ => runAll (waitKept w) (lab.nodes.filter (·.2.inCluster))
  else ([], none)

/-! ## Installing the clusters -/

/-- `"cluster:{}".format(clu_name)`. -/
def clusterScope (cluName : Text) : Text := "cluster:".toList ++ cluName

/-- `"node:{}".format(vm_name)`. -/
def nodeScope (vmName : Text) : Text := "node:".toList ++ vmName

/-- A run of an add-on against a node, with the kind of the scope and its name for the message. -/
def addonEvents (target : Op × Text) (kind name scope : Text) (times : Nat) (addon : Text) : Log :=
  let r := w.runAddon scope times addon
  [.turn (.addon scope addon), .touch target.1 target.2, .addon scope addon (addonStatus r)] ++
    if r.returncode ≠ 0 then
      [.error (kind ++ " addon '".toList ++ addon ++ "' on '".toList ++ name ++ "' exited ".toList ++
        (toString r.returncode).toList)]
    else []

/-- The add-on has a script and may be placed there; the run ends with `die` otherwise. -/
def Placeable (scope addon : Text) : Prop :=
  w.addonInstaller addon = true ∧ w.requirementIssue scope addon = false

instance decidablePlaceable (scope addon : Text) : Decidable (Placeable w scope addon) :=
  inferInstanceAs (Decidable (_ ∧ _))

/-- The loop of `_install_cluster_addons`: each add-on once, from a node. -/
def clusterAddons (vmName cluName : Text) : List Text → List Text → Attempt Event Raised
  | _, [] => ([], none)
  | installed, addon :: addons =>
    if addon ∈ installed then clusterAddons vmName cluName installed addons
    else if Placeable w (clusterScope cluName) addon then
      andThen (addonEvents w (.clusterAddon, vmName) "cluster".toList cluName (clusterScope cluName) 0
        addon, none)
        fun _ => clusterAddons vmName cluName (addon :: installed) addons
    else ([], some .systemExit)

/-- The wait until an installed cluster has settled. `HarvesterDistro` has no `kubectl_command`: the
`NotImplementedError` of its base is a `RuntimeError`. -/
def waitSystemReady (k : Text × Kcluster) : Attempt Event Raised :=
  let server := lab.kclusterNode k
  if server = [] then ([], none)
  else if k.2.cluType = CLU_TYPE then ([], some (.runtimeError []))
  else ([.touch .systemWait server], none)

/-- The message of a cluster that is not installed because of its nodes. -/
def missingMsg (cluName : Text) (missing : List Text) : Text :=
  "Kubernetes install for cluster '".toList ++ cluName ++
    "' skipped (skipping its addons too): its node(s) ".toList ++ sortedNames missing ++
    " were never provisioned, so the cluster cannot be built and nothing is installed over whatever ".toList ++
    "their names resolve to".toList

/-- The message of a cluster whose install failed. -/
def installMsg (cluName : Text) (r : Raised) : Text :=
  "Kubernetes install for cluster '".toList ++ cluName ++ "' failed (skipping its addons): ".toList ++
    r.text

/-- The turn of a cluster, whose install is run against each of its nodes. -/
def installEvents (cluName : Text) : Log :=
  .turn (.cluster cluName) :: (lab.members cluName).map fun x => .touch .install x.1

/-- The body of the loop of `phase_install_k8s_and_addons`. -/
def installCluster (failed : List Text) (k : Text × Kcluster) : Attempt Event Raised :=
  let missing := ((lab.members k.1).filter (·.1 ∈ failed)).map Prod.fst
  if missing ≠ [] then ([.cluster k.1 FAILED, .error (missingMsg k.1 missing)], none)
  else
    match w.installCluster k.1 with
    | some r => (installEvents lab k.1 ++ [.cluster k.1 FAILED, .error (installMsg k.1 r)], none)
    | none =>
      andThen (andThen (installEvents lab k.1 ++ [.cluster k.1 "ok".toList], none)
        fun _ => waitSystemReady lab k)
        fun _ => clusterAddons w (lab.addonNode k) k.1 [] k.2.addons

/-! ## The add-ons and commands of the nodes -/

/-- The loop over the add-ons of a node, after some of them. -/
def nodeAddons (vmName : Text) : List Text → List Text → Attempt Event Raised
  | _, [] => ([], none)
  | before, addon :: addons =>
    if Placeable w (nodeScope vmName) addon then
      andThen (addonEvents w (.nodeAddon, vmName) "node".toList vmName (nodeScope vmName)
        (before.count addon) addon, none)
        fun _ => nodeAddons vmName (addon :: before) addons
    else ([], some .systemExit)

/-- The body of the loop of `phase_vm_addons`. -/
def vmAddons (failed : List Text) (x : Text × NodeCfg) : Attempt Event Raised :=
  if x.2.addons = [] then ([], none)
  else if x.1 ∈ failed then ([], none)
  else nodeAddons w x.1 [] x.2.addons

/-- The body of the loop of `phase_post_commands`. -/
def postCommands (failed : List Text) (x : Text × NodeCfg) : Attempt Event Raised :=
  if x.1 ∈ failed then ([], none)
  else (.turn (.post x.1) :: .touch .postCommand x.1 :: (w.postCommands x.1).map .error, none)

/-! ## The run -/

/-- What `setup_lab` does before it creates the nodes, on a report that has some errors. -/
def beforeCreate (seed : List Text) : Attempt Event Raised :=
  andThen (andThen (seed.map .error, none) fun _ => ([], w.services))
    fun _ => ([], if lab.kclusters = [] then none else w.dns)

/-- What it does after that. -/
def afterCreate (p : Attempt Event Raised) : Attempt Event Raised :=
  let p := andThen p fun _ =>
    if lab.kclusters = [] then ([], none) else rebootAndWaitKeptNodes w lab keep
  let p := andThen p fun log =>
    if lab.kclusters = [] then ([], none)
    else runAll (installCluster w lab (failedNodes log)) lab.kclusters
  let p := andThen p fun log => runAll (vmAddons w (failedNodes log)) lab.nodes
  let p := andThen p fun log => runAll (postCommands w (failedNodes log)) lab.nodes
  andThen p fun _ => ([.summary], none)

/-- `setup_lab(.., keep, .., parallel)`: what a run may come to. -/
def SetupLab (parallel : Nat) (seed : List Text) (p : Attempt Event Raised) : Prop :=
  ∃ q, CreateVms w lab keep parallel q ∧
    p = afterCreate w lab keep (andThen (beforeCreate w lab seed) fun _ => q)

theorem Lab.mem_members {cluName : Text} {x : Text × NodeCfg} :
    x ∈ lab.members cluName ↔ x ∈ lab.nodes ∧ x.2.kcluster = some cluName := by
  rw [Lab.members, List.mem_filter, decide_eq_true_eq]

/-! ## Reading the report -/

/-- An entry that makes the report a failure. -/
def Event.fails : Event → Bool
  | .node _ status | .cluster _ status => status == FAILED
  | .addon _ _ status => FAILED.isPrefixOf status
  | .error _ => true
  | .turn _ | .touch _ _ | .summary => false

variable {log : Log} {name status scope msg : Text}

theorem mem_nodes_iff : (name, status) ∈ (report log).nodes ↔ .node name status ∈ log := by
  simp only [report, List.mem_filterMap]
  constructor
  · rintro ⟨e, he, h⟩
    cases e <;> simp at h
    obtain ⟨rfl, rfl⟩ := h
    exact he
  · exact fun h => ⟨_, h, rfl⟩

theorem mem_clusters_iff : (name, status) ∈ (report log).clusters ↔ .cluster name status ∈ log := by
  simp only [report, List.mem_filterMap]
  constructor
  · rintro ⟨e, he, h⟩
    cases e <;> simp at h
    obtain ⟨rfl, rfl⟩ := h
    exact he
  · exact fun h => ⟨_, h, rfl⟩

theorem mem_addons_iff :
    (scope, name, status) ∈ (report log).addons ↔ .addon scope name status ∈ log := by
  simp only [report, List.mem_filterMap]
  constructor
  · rintro ⟨e, he, h⟩
    cases e <;> simp at h
    obtain ⟨rfl, rfl, rfl⟩ := h
    exact he
  · exact fun h => ⟨_, h, rfl⟩

theorem mem_errors_iff : msg ∈ (report log).errors ↔ .error msg ∈ log := by
  simp only [report, List.mem_filterMap]
  constructor
  · rintro ⟨e, he, h⟩
    cases e <;> simp at h
    subst h
    exact he
  · exact fun h => ⟨_, h, rfl⟩

/-- **The report has failed** iff an entry of the log is a failure. -/
theorem failed_iff : (report log).failed = true ↔ ∃ e ∈ log, e.fails = true := by
  simp only [Report.failed, Bool.or_eq_true, Bool.not_eq_true', List.isEmpty_eq_false_iff_exists_mem,
    List.any_eq_true, Prod.exists, mem_nodes_iff, mem_clusters_iff, mem_addons_iff, mem_errors_iff]
  constructor
  · rintro (((⟨m, h⟩ | ⟨n, s, h, hs⟩) | ⟨n, s, h, hs⟩) | ⟨a, n, s, h, hs⟩)
    · exact ⟨_, h, rfl⟩
    · exact ⟨_, h, hs⟩
    · exact ⟨_, h, hs⟩
    · exact ⟨_, h, hs⟩
  · rintro ⟨e, he, hf⟩
    cases e with
    | turn item => exact absurd hf Bool.false_ne_true
    | touch op host => exact absurd hf Bool.false_ne_true
    | node n s => exact Or.inl (Or.inl (Or.inr ⟨n, s, he, hf⟩))
    | cluster n s => exact Or.inl (Or.inr ⟨n, s, he, hf⟩)
    | addon a n s => exact Or.inr ⟨a, n, s, he, hf⟩
    | error m => exact Or.inl (Or.inl (Or.inl ⟨m, he⟩))
    | summary => exact absurd hf Bool.false_ne_true

theorem mem_failedNodes : name ∈ failedNodes log ↔ .node name FAILED ∈ log := by
  simp only [failedNodes, List.mem_map, List.mem_filter, Prod.exists, mem_nodes_iff, beq_iff_eq]
  constructor
  · rintro ⟨n, s, ⟨h, rfl⟩, rfl⟩
    exact h
  · exact fun h => ⟨name, FAILED, ⟨h, rfl⟩, rfl⟩

/-- **A pending add-on** keeps the summary from saying that the lab is OK. -/
theorem not_ok_of_pending (h : .addon scope name "pending".toList ∈ log) (warnings : Bool) :
    ¬ ((report log).closing warnings).Ok := by
  have hpending : (report log).pending = true := by
    unfold Report.pending
    rw [List.any_eq_true]
    exact ⟨_, mem_addons_iff.mpr h, beq_self_eq_true _⟩
  unfold Report.closing
  by_cases hfailed : (report log).failed = true
  · rw [if_pos hfailed]
    rintro (hc | hc) <;> cases hc
  · rw [if_neg hfailed, if_pos hpending]
    rintro (hc | hc) <;> cases hc

end LabInABox.Setup
