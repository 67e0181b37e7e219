import LabInABox.Setup.Phases

/-!
# One failure and the rest of a run

What a failure of one node, cluster or add-on does to the other items of a lab setup.

* What depends on a failed item is not come to: the cluster of a node that was not provisioned, the
  add-ons of a cluster that was not installed or of such a node, and its commands.
* A refusal to destroy a node, or a `--keep` check that finds it nowhere, is no failure.
* An add-on without a script, or one that may not be placed where it is listed, ends the run
  (`Placed` excludes it). So do the operations that are outside every handler (`Answers`).

Results:
* `createVms_spec`: in parallel the workers leave what one after the other would, in some order.
* `setupLab_isolates`: a run whose operations outside the handlers answer ends with the summary iff
  the add-ons it comes to are placed, and then every item that does not depend on a failed one had its
  turn, every failure is recorded, and the report has failed iff something did.
-/

namespace LabInABox.Setup

open Text

variable (w : World) (lab : Lab) (keep : Bool)

/-! ## What fails -/

/-- The node is made again: it is not there already, and not found fit to be kept. -/
def Recreated (x : Text × NodeCfg) : Prop :=
  x.2.existing = false ∧
    (keepCheck w keep x.1 = .ok false ∨ keepCheck w keep x.1 = .error .systemExit)

/-- The node is not there at the end: its backend could not be asked, or it was not provisioned. -/
def NodeFails (x : Text × NodeCfg) : Prop :=
  (x.2.existing = false ∧ ∃ e, keepCheck w keep x.1 = .error (.runtimeError e)) ∨
    (Recreated w keep x ∧ ∃ r, w.provisionVm x.1 = .error r)

/-- Something else failed on it: the destroy before, or a part of the provisioning. -/
def NodeErrs (x : Text × NodeCfg) : Prop :=
  Recreated w keep x ∧ ((∃ e, w.destroyVm x.1 = some (.runtimeError e)) ∨
    ∃ msgs, w.provisionVm x.1 = .ok msgs ∧ msgs ≠ [])

/-- No node of the cluster failed. -/
def Complete (cluName : Text) : Prop :=
  ∀ x ∈ lab.nodes, x.2.kcluster = some cluName → ¬ NodeFails w keep x

/-- The cluster is installed. -/
def Installed (cluName : Text) : Prop :=
  Complete w lab keep cluName ∧ w.installCluster cluName = none

/-- The add-ons the run comes to have a script and may be placed where they are listed. -/
structure Placed : Prop where
  cluster : ∀ k ∈ lab.kclusters, Installed w lab keep k.1 → ∀ addon ∈ k.2.addons,
    Placeable w (clusterScope k.1) addon
  node : ∀ x ∈ lab.nodes, ¬ NodeFails w keep x → ∀ addon ∈ x.2.addons,
    Placeable w (nodeScope x.1) addon

/-- The operations outside the handlers do not raise: the services and the DNS entries, the SSH of the
hosts that are there already, the reboot of the kept nodes, the wait until a cluster has settled. -/
structure Answers : Prop where
  services : w.services = none
  dns : lab.kclusters ≠ [] → w.dns = none
  ssh : ∀ x ∈ lab.nodes, x.2.existing = true → w.checkSshConn x.1 = none
  kept : keep = true → lab.kclusters ≠ [] → ∀ x ∈ lab.nodes, x.2.inCluster = true →
    w.waitKept x.1 = none ∧ (x.2.existing = false → lab.isHarvesterNode x.2 = false →
      w.locateKvmHost x.1 = none ∧ w.rebootVm x.1 = none)
  settled : ∀ k ∈ lab.kclusters, Installed w lab keep k.1 → (waitSystemReady lab k).2 = none

/-- Some item failed. -/
def SomeFails : Prop :=
  (∃ x ∈ lab.nodes, NodeFails w keep x ∨ NodeErrs w keep x ∨
    (¬ NodeFails w keep x ∧ (w.postCommands x.1 ≠ [] ∨
      ∃ addon, ∃ times < x.2.addons.count addon,
        (w.runAddon (nodeScope x.1) times addon).returncode ≠ 0))) ∨
  ∃ k ∈ lab.kclusters, ¬ Installed w lab keep k.1 ∨
    ∃ addon ∈ k.2.addons, (w.runAddon (clusterScope k.1) 0 addon).returncode ≠ 0

/-- **What a run leaves**: the turn of every item that does not depend on a failed one, a record of
every failure, and a report that has failed iff something did. -/
structure Isolated (seed : List Text) (log : Log) : Prop where
  nodeTurn : ∀ x ∈ lab.nodes, .turn (.node x.1) ∈ log
  clusterTurn : ∀ k ∈ lab.kclusters, Complete w lab keep k.1 → .turn (.cluster k.1) ∈ log
  clusterAddonTurn : ∀ k ∈ lab.kclusters, Installed w lab keep k.1 → ∀ addon ∈ k.2.addons,
    .turn (.addon (clusterScope k.1) addon) ∈ log
  nodeAddonTurn : ∀ x ∈ lab.nodes, ¬ NodeFails w keep x → ∀ addon ∈ x.2.addons,
    .turn (.addon (nodeScope x.1) addon) ∈ log
  postTurn : ∀ x ∈ lab.nodes, ¬ NodeFails w keep x → .turn (.post x.1) ∈ log
  nodeRecorded : ∀ x ∈ lab.nodes, (x.1, FAILED) ∈ (report log).nodes ↔ NodeFails w keep x
  destroyRecorded : ∀ x ∈ lab.nodes, Recreated w keep x → ∀ e,
    w.destroyVm x.1 = some (.runtimeError e) → destroyMsg x.1 e ∈ (report log).errors
  provisionRecorded : ∀ x ∈ lab.nodes, Recreated w keep x → ∀ msgs,
    w.provisionVm x.1 = .ok msgs → ∀ msg ∈ msgs, msg ∈ (report log).errors
  clusterRecorded : ∀ k ∈ lab.kclusters,
    (k.1, FAILED) ∈ (report log).clusters ↔ ¬ Installed w lab keep k.1
  clusterAddonRecorded : ∀ k ∈ lab.kclusters, Installed w lab keep k.1 → ∀ addon ∈ k.2.addons,
    (clusterScope k.1, addon, addonStatus (w.runAddon (clusterScope k.1) 0 addon)) ∈
      (report log).addons
  nodeAddonRecorded : ∀ x ∈ lab.nodes, ¬ NodeFails w keep x → ∀ addon,
    ∀ times < x.2.addons.count addon,
    (nodeScope x.1, addon, addonStatus (w.runAddon (nodeScope x.1) times addon)) ∈
      (report log).addons
  postRecorded : ∀ x ∈ lab.nodes, ¬ NodeFails w keep x → ∀ msg ∈ w.postCommands x.1,
    msg ∈ (report log).errors
  failed : (report log).failed = true ↔ seed ≠ [] ∨ SomeFails w lab keep

/-! ## A node -/

variable {w lab keep} {x : Text × NodeCfg}

theorem createOneVm_returns (h : x.2.existing = true → w.checkSshConn x.1 = none) :
    (createOneVm w keep x).2 = none := by
  unfold createOneVm
  split
  · rename_i he
    rw [h he]
  · split <;> rfl

theorem createOneVm_turn : .turn (.node x.1) ∈ (createOneVm w keep x).1 := by
  unfold createOneVm
  split
  · split <;> exact List.mem_cons_self
  · split <;> exact List.mem_cons_self

/-- What is written for a node that is made again. -/
theorem createOneVm_of_recreated (h : Recreated w keep x) :
    (createOneVm w keep x).1 = .turn (.node x.1) :: (destroyed w x.1 ++ provisioned w x.1) := by
  unfold createOneVm
  rw [if_neg (by simp [h.1])]
  rcases h.2 with hk | hk
  · rw [hk]
  · rw [hk]

/-- What is written for a node whose backend could not be asked. -/
theorem createOneVm_of_keepError (he : x.2.existing = false) {e : Text}
    (hk : keepCheck w keep x.1 = .error (.runtimeError e)) : (createOneVm w keep x).1 =
      [.turn (.node x.1), .node x.1 FAILED, .error (keepMsg x.1 e)] := by
  unfold createOneVm
  rw [if_neg (by simp [he]), hk]

/-- For any other node nothing that failed is written. -/
theorem createOneVm_otherwise (hr : ¬ Recreated w keep x)
    (hk : ¬ (x.2.existing = false ∧ ∃ e, keepCheck w keep x.1 = .error (.runtimeError e))) :
    ∀ e ∈ (createOneVm w keep x).1, e.fails = false := by
  unfold createOneVm
  by_cases he : x.2.existing = true
  · rw [if_pos he]
    split
    · simp [Event.fails]
    · simp only [List.mem_cons, List.not_mem_nil, or_false, forall_eq_or_imp, forall_eq]
      exact ⟨rfl, rfl⟩
  · rw [if_neg he]
    have he' : x.2.existing = false := by simpa using he
    split
    · simp only [List.mem_cons, List.not_mem_nil, or_false, forall_eq_or_imp, forall_eq]
      exact ⟨rfl, rfl⟩
    · rename_i e hc
      exact absurd ⟨he', e, hc⟩ hk
    · rename_i hc
      exact absurd ⟨he', Or.inl hc⟩ hr
    · rename_i hc
      exact absurd ⟨he', Or.inr hc⟩ hr

theorem fails_of_failed (name : Text) : (Event.node name FAILED).fails = true := rfl

theorem provisioned_failed_iff {vmName name : Text} :
    .node name FAILED ∈ provisioned w vmName ↔ name = vmName ∧ ∃ r, w.provisionVm vmName = .error r := by
  unfold provisioned
  cases w.provisionVm vmName with
  | ok msgs => simp [FAILED]
  | error r => simp

theorem provisioned_fails_iff {vmName : Text} : (∃ e ∈ provisioned w vmName, e.fails = true) ↔
    (∃ r, w.provisionVm vmName = .error r) ∨ ∃ msgs, w.provisionVm vmName = .ok msgs ∧ msgs ≠ [] := by
  unfold provisioned
  cases w.provisionVm vmName with
  | ok msgs =>
    cases msgs with
    | nil => simp [Event.fails, FAILED]
    | cons m ms => simp [Event.fails]
  | error r => simp [fails_of_failed]

theorem node_not_mem_destroyed {vmName name status : Text} : .node name status ∉ destroyed w vmName := by
  unfold destroyed
  split <;> simp

theorem destroyed_fails_iff {vmName : Text} : (∃ e ∈ destroyed w vmName, e.fails = true) ↔
    ∃ e, w.destroyVm vmName = some (.runtimeError e) := by
  unfold destroyed
  split
  · rename_i e h
    simp [h, Event.fails]
  · rename_i h
    simp [h]
  · rename_i h
    simp [h]

/-- **A node is recorded as failed** iff it fails. -/
theorem createOneVm_failed_iff {name : Text} :
    .node name FAILED ∈ (createOneVm w keep x).1 ↔ name = x.1 ∧ NodeFails w keep x := by
  by_cases hr : Recreated w keep x
  · have hnot : ¬ ∃ e, keepCheck w keep x.1 = .error (.runtimeError e) := by
      rintro ⟨e, he⟩
      rcases hr.2 with hk | hk <;> rw [hk] at he <;> cases he
    rw [createOneVm_of_recreated hr]
    simp only [List.mem_cons, reduceCtorEq, List.mem_append, node_not_mem_destroyed, false_or,
      provisioned_failed_iff, NodeFails, hr, hnot, and_false, true_and]
  · by_cases hk : x.2.existing = false ∧ ∃ e, keepCheck w keep x.1 = .error (.runtimeError e)
    · obtain ⟨he, e, hk⟩ := hk
      rw [createOneVm_of_keepError he hk]
      have hfails : NodeFails w keep x := Or.inl ⟨he, e, hk⟩
      simp [hfails]
    · have hnot : ¬ NodeFails w keep x := fun h => h.elim hk fun h => hr h.1
      refine ⟨fun hm => ?_, fun h => absurd h.2 hnot⟩
      have := createOneVm_otherwise hr hk _ hm
      rw [fails_of_failed] at this
      cases this

/-- **Something that failed is written for a node** iff it fails or something on it does. -/
theorem createOneVm_fails_iff : (∃ e ∈ (createOneVm w keep x).1, e.fails = true) ↔
    NodeFails w keep x ∨ NodeErrs w keep x := by
  by_cases hr : Recreated w keep x
  · have hnot : ¬ ∃ e, keepCheck w keep x.1 = .error (.runtimeError e) := by
      rintro ⟨e, he⟩
      rcases hr.2 with hk | hk <;> rw [hk] at he <;> cases he
    have hsplit : (∃ e ∈ (createOneVm w keep x).1, e.fails = true) ↔
        (∃ e ∈ destroyed w x.1, e.fails = true) ∨ ∃ e ∈ provisioned w x.1, e.fails = true := by
      have hturn : (Event.turn (.node x.1)).fails = false := rfl
      rw [createOneVm_of_recreated hr, List.exists_mem_cons_iff, hturn]
      simp only [Bool.false_eq_true, false_or, List.mem_append, or_and_right, exists_or]
    rw [hsplit, destroyed_fails_iff, provisioned_fails_iff]
    simp only [NodeFails, NodeErrs, hr, hnot, and_false, false_or, true_and]
    tauto
  · have hnerr : ¬ NodeErrs w keep x := fun h => hr h.1
    by_cases hk : x.2.existing = false ∧ ∃ e, keepCheck w keep x.1 = .error (.runtimeError e)
    · have hfails : NodeFails w keep x := Or.inl hk
      have hmem : .node x.1 FAILED ∈ (createOneVm w keep x).1 :=
        createOneVm_failed_iff.mpr ⟨rfl, hfails⟩
      exact ⟨fun _ => Or.inl hfails, fun _ => ⟨_, hmem, fails_of_failed _⟩⟩
    · have hnot : ¬ NodeFails w keep x := fun h => h.elim hk fun h => hr h.1
      refine ⟨fun ⟨e, he, hf⟩ => ?_, fun h => absurd h (not_or.mpr ⟨hnot, hnerr⟩)⟩
      rw [createOneVm_otherwise hr hk e he] at hf
      cases hf

theorem provisioned_kind {vmName : Text} :
    (∀ n s, .cluster n s ∉ provisioned w vmName) ∧ .summary ∉ provisioned w vmName := by
  unfold provisioned
  split <;> simp

theorem destroyed_kind {vmName : Text} :
    (∀ n s, .cluster n s ∉ destroyed w vmName) ∧ .summary ∉ destroyed w vmName := by
  unfold destroyed
  split <;> simp

/-- A node writes no status of a cluster. -/
theorem createOneVm_kind {e : Event} (h : e ∈ (createOneVm w keep x).1) :
    (∀ n s, e ≠ .cluster n s) ∧ e ≠ .summary := by
  unfold createOneVm at h
  refine ⟨fun n s he => ?_, fun he => ?_⟩
  all_goals
    subst he
    revert h
    split
    · split <;> simp
    · split <;> simp [destroyed_kind, provisioned_kind]

/-! ## All the nodes -/

/-- The nodes are created in a pool. -/
theorem createVms_iff {parallel : Nat} {q : Attempt Event Raised} :
    CreateVms w lab keep parallel q ↔
      Pooled (createOneVm w keep) (·.1 ∈ lab.creators) lab.nodes parallel q := by
  have hnot : (fun x : Text × NodeCfg => decide (x.1 ∉ lab.creators)) =
      fun x => !decide (x.1 ∈ lab.creators) := funext fun x => decide_not
  constructor
  · intro h
    cases h with
    | sequential => exact Pooled.sequential
    | creator hp hrun => exact Pooled.first hp hrun
    | pool hp hrun hevents hnone hsome =>
      rw [hnot] at hevents hnone hsome
      exact Pooled.pool hp hrun hevents hnone hsome
  · intro h
    cases h with
    | sequential => exact CreateVms.sequential
    | first hp hrun => exact CreateVms.creator hp hrun
    | pool hp hrun hevents hnone hsome =>
      rw [← hnot] at hevents hnone hsome
      exact CreateVms.pool hp hrun hevents hnone hsome

/-- **In parallel the workers leave what one after the other would**, in some order. -/
theorem createVms_spec {parallel : Nat} {q : Attempt Event Raised}
    (h : CreateVms w lab keep parallel q)
    (hssh : ∀ x ∈ lab.nodes, x.2.existing = true → w.checkSshConn x.1 = none) :
    q.2 = none ∧ q.1.Perm (lab.nodes.flatMap fun x => (createOneVm w keep x).1) := by
  have hret : ∀ x ∈ lab.nodes, (createOneVm w keep x).2 = none := fun x hx =>
    createOneVm_returns (hssh x hx)
  have hpool := createVms_iff.mp h
  exact ⟨hpool.returns_iff.mpr hret, hpool.perm hret⟩

/-! ## The add-ons -/

theorem addonStatus_fails_iff {scope addon : Text} {r : AddonRun} :
    (Event.addon scope addon (addonStatus r)).fails = true ↔ r.returncode ≠ 0 := by
  unfold addonStatus Event.fails
  dsimp only
  by_cases hrc : r.returncode ≠ 0
  · rw [if_pos hrc]
    exact ⟨fun _ => hrc, fun _ => rfl⟩
  · rw [if_neg hrc]
    refine ⟨fun h => absurd h ?_, fun h => absurd h hrc⟩
    split <;> decide

section AddonRuns

variable {target : Op × Text} {host kind name scope addon : Text} {times : Nat} {addons : List Text}

theorem addonEvents_turn : .turn (.addon scope addon) ∈ addonEvents w target kind name scope times addon :=
  List.mem_cons_self

theorem addonEvents_status : .addon scope addon (addonStatus (w.runAddon scope times addon)) ∈
    addonEvents w target kind name scope times addon :=
  List.mem_cons_of_mem _ (List.mem_cons_of_mem _ List.mem_cons_self)

theorem addonEvents_fails_iff : (∃ e ∈ addonEvents w target kind name scope times addon, e.fails = true) ↔
    (w.runAddon scope times addon).returncode ≠ 0 := by
  constructor
  · rintro ⟨e, he, hf⟩
    by_contra hrc
    unfold addonEvents at he
    dsimp only at he
    rw [if_neg (not_not.mpr hrc), List.append_nil] at he
    simp only [List.mem_cons, List.not_mem_nil, or_false] at he
    rcases he with rfl | rfl | rfl
    · cases hf
    · cases hf
    · exact addonStatus_fails_iff.mp hf hrc
  · exact fun hrc => ⟨_, addonEvents_status, addonStatus_fails_iff.mpr hrc⟩

/-- Add-ons write no status of a node or a cluster. -/
theorem addonEvents_kind {e : Event} (h : e ∈ addonEvents w target kind name scope times addon) :
    (∀ n s, e ≠ .node n s) ∧ (∀ n s, e ≠ .cluster n s) ∧ e ≠ .summary := by
  unfold addonEvents at h
  dsimp only at h
  simp only [List.mem_append, List.mem_cons, List.not_mem_nil, or_false] at h
  rcases h with (rfl | rfl | rfl) | h
  · simp
  · simp
  · simp
  · split at h
    · rw [List.mem_singleton.mp h]
      simp
    · exact absurd h List.not_mem_nil

/-- **The add-ons of a cluster** all run iff each may be placed. -/
theorem clusterAddons_returns_iff {installed : List Text} :
    (clusterAddons w host name installed addons).2 = none ↔
      ∀ a ∈ addons, a ∉ installed → Placeable w (clusterScope name) a := by
  induction addons generalizing installed with
  | nil => simp [clusterAddons]
  | cons a addons ih =>
    rw [clusterAddons, List.forall_mem_cons]
    by_cases hin : a ∈ installed
    · rw [if_pos hin, ih]
      simp [hin]
    · rw [if_neg hin]
      by_cases hp : Placeable w (clusterScope name) a
      · rw [if_pos hp, andThen_none, ih]
        simp only [hp, implies_true, true_and, List.mem_cons, not_or, and_imp]
        refine forall₂_congr fun b _ => ⟨fun h hb => ?_, fun h _ hb => h hb⟩
        by_cases hba : b = a
        · exact hba ▸ hp
        · exact h hba hb
      · rw [if_neg hp]
        simp [hin, hp]

/-- **Each add-on of a cluster runs once.** -/
theorem mem_clusterAddons {installed : List Text} {e : Event}
    (h : (clusterAddons w host name installed addons).2 = none) :
    e ∈ (clusterAddons w host name installed addons).1 ↔ ∃ a ∈ addons, a ∉ installed ∧
      e ∈ addonEvents w (.clusterAddon, host) "cluster".toList name (clusterScope name) 0 a := by
  induction addons generalizing installed with
  | nil => simp [clusterAddons]
  | cons a addons ih =>
    rw [clusterAddons] at h ⊢
    rw [List.exists_mem_cons_iff]
    by_cases hin : a ∈ installed
    · rw [if_pos hin] at h ⊢
      rw [ih h]
      simp [hin]
    · rw [if_neg hin] at h ⊢
      by_cases hp : Placeable w (clusterScope name) a
      · rw [if_pos hp, andThen_none] at h ⊢
        rw [List.mem_append, ih h]
        simp only [hin, not_false_eq_true, true_and, List.mem_cons, not_or]
        constructor
        · rintro (he | ⟨b, hb, ⟨_, hbi⟩, he⟩)
          · exact Or.inl he
          · exact Or.inr ⟨b, hb, hbi, he⟩
        · rintro (he | ⟨b, hb, hbi, he⟩)
          · exact Or.inl he
          · by_cases hba : b = a
            · exact Or.inl (hba ▸ he)
            · exact Or.inr ⟨b, hb, ⟨hba, hbi⟩, he⟩
      · rw [if_neg hp] at h
        cases h

theorem exists_of_mem_clusterAddons {installed : List Text} {e : Event}
    (h : e ∈ (clusterAddons w host name installed addons).1) :
    ∃ a, e ∈ addonEvents w (.clusterAddon, host) "cluster".toList name (clusterScope name) 0 a := by
  induction addons generalizing installed with
  | nil => exact absurd h List.not_mem_nil
  | cons a addons ih =>
    rw [clusterAddons] at h
    split at h
    · exact ih h
    · split at h
      · rcases mem_andThen h with h | ⟨_, h⟩
        · exact ⟨a, h⟩
        · exact ih h
      · exact absurd h List.not_mem_nil

/-- **The add-ons of a node** all run iff each may be placed. -/
theorem nodeAddons_returns_iff {before : List Text} : (nodeAddons w name before addons).2 = none ↔
    ∀ a ∈ addons, Placeable w (nodeScope name) a := by
  induction addons generalizing before with
  | nil => simp [nodeAddons]
  | cons a addons ih =>
    rw [nodeAddons, List.forall_mem_cons]
    by_cases hp : Placeable w (nodeScope name) a
    · rw [if_pos hp, andThen_none, ih]
      simp [hp]
    · rw [if_neg hp]
      simp [hp]

/-- **Each add-on of a node runs as often as it is listed.** -/
theorem mem_nodeAddons {before : List Text} {e : Event}
    (h : (nodeAddons w name before addons).2 = none) :
    e ∈ (nodeAddons w name before addons).1 ↔ ∃ a times, before.count a ≤ times ∧
      times < before.count a + addons.count a ∧
      e ∈ addonEvents w (.nodeAddon, name) "node".toList name (nodeScope name) times a := by
  induction addons generalizing before with
  | nil =>
    simp only [nodeAddons, List.not_mem_nil, List.count_nil, Nat.add_zero, false_iff]
    rintro ⟨a, times, hle, hlt, _⟩
    omega
  | cons b addons ih =>
    rw [nodeAddons] at h ⊢
    by_cases hp : Placeable w (nodeScope name) b
    · rw [if_pos hp, andThen_none] at h ⊢
      rw [List.mem_append, ih h]
      constructor
      · rintro (he | ⟨a, times, hle, hlt, he⟩)
        · exact ⟨b, before.count b, le_rfl, by rw [List.count_cons_self]; omega, he⟩
        · refine ⟨a, times, le_trans List.count_le_count_cons hle, ?_, he⟩
          rw [List.count_cons] at hlt ⊢
          omega
      · rintro ⟨a, times, hle, hlt, he⟩
        by_cases hfirst : a = b ∧ times = before.count b
        · obtain ⟨rfl, rfl⟩ := hfirst
          exact Or.inl he
        · refine Or.inr ⟨a, times, ?_, ?_, he⟩
          · rw [List.count_cons]
            split
            · rename_i hba
              obtain rfl := eq_of_beq hba
              have : times ≠ before.count b := fun hc => hfirst ⟨rfl, hc⟩
              omega
            · exact hle
          · rw [List.count_cons] at hlt ⊢
            omega
    · rw [if_neg hp] at h
      cases h

theorem exists_of_mem_nodeAddons {before : List Text} {e : Event}
    (h : e ∈ (nodeAddons w name before addons).1) :
    ∃ times a, e ∈ addonEvents w (.nodeAddon, name) "node".toList name (nodeScope name) times a := by
  induction addons generalizing before with
  | nil => exact absurd h List.not_mem_nil
  | cons a addons ih =>
    rw [nodeAddons] at h
    split at h
    · rcases mem_andThen h with h | ⟨_, h⟩
      · exact ⟨_, a, h⟩
      · exact ih h
    · exact absurd h List.not_mem_nil

end AddonRuns

/-! ## The phases after the nodes -/

/-- The nodes a phase takes for failed are those that are. -/
def Marks (w : World) (lab : Lab) (keep : Bool) (failed : List Text) : Prop :=
  ∀ x ∈ lab.nodes, x.1 ∈ failed ↔ NodeFails w keep x

variable {failed : List Text} {k : Text × Kcluster}

/-- A cluster with a node that failed is skipped. -/
theorem installCluster_of_not_complete (hm : Marks w lab keep failed)
    (h : ¬ Complete w lab keep k.1) : ∃ msg,
      installCluster w lab failed k = ([.cluster k.1 FAILED, .error msg], none) := by
  unfold installCluster
  dsimp only
  rw [if_pos]
  · exact ⟨_, rfl⟩
  · intro hnil
    refine h fun x hx hc hf => ?_
    rw [List.map_eq_nil_iff, List.filter_eq_nil_iff] at hnil
    exact hnil x (lab.mem_members.mpr ⟨hx, hc⟩) (decide_eq_true ((hm x hx).mpr hf))

/-- A cluster whose nodes are there misses none. -/
theorem missing_eq_nil (hm : Marks w lab keep failed) {cluName : Text}
    (h : Complete w lab keep cluName) :
    ((lab.members cluName).filter (·.1 ∈ failed)).map Prod.fst = [] := by
  rw [List.map_eq_nil_iff, List.filter_eq_nil_iff]
  intro x hx hf
  obtain ⟨hx, hc⟩ := lab.mem_members.mp hx
  exact h x hx hc ((hm x hx).mp (of_decide_eq_true hf))

theorem installCluster_of_failed (hm : Marks w lab keep failed) (h : Complete w lab keep k.1)
    {r : Raised} (hr : w.installCluster k.1 = some r) : installCluster w lab failed k =
      (installEvents lab k.1 ++ [.cluster k.1 FAILED, .error (installMsg k.1 r)], none) := by
  unfold installCluster
  dsimp only
  rw [if_neg (not_not.mpr (missing_eq_nil hm h)), hr]

theorem installCluster_of_installed (hm : Marks w lab keep failed)
    (h : Installed w lab keep k.1) : installCluster w lab failed k =
      andThen (andThen (installEvents lab k.1 ++ [.cluster k.1 "ok".toList], none)
        fun _ => waitSystemReady lab k)
        fun _ => clusterAddons w (lab.addonNode k) k.1 [] k.2.addons := by
  unfold installCluster
  dsimp only
  rw [if_neg (not_not.mpr (missing_eq_nil hm h.1)), h.2]

/-- An installed cluster has settled before its add-ons run. -/
def Settles (w : World) (lab : Lab) (keep : Bool) (k : Text × Kcluster) : Prop :=
  Installed w lab keep k.1 → (waitSystemReady lab k).2 = none

theorem installCluster_of_settled (hm : Marks w lab keep failed) (hs : Settles w lab keep k)
    (h : Installed w lab keep k.1) : installCluster w lab failed k =
      ((installEvents lab k.1 ++ [.cluster k.1 "ok".toList] ++ (waitSystemReady lab k).1) ++
        (clusterAddons w (lab.addonNode k) k.1 [] k.2.addons).1,
        (clusterAddons w (lab.addonNode k) k.1 [] k.2.addons).2) := by
  rw [installCluster_of_installed hm h, andThen_none, hs h, andThen_none]

theorem installEvents_kind {cluName : Text} {e : Event} (h : e ∈ installEvents lab cluName) :
    e = .turn (.cluster cluName) ∨ ∃ op host, e = .touch op host := by
  rcases List.mem_cons.mp h with rfl | h
  · exact Or.inl rfl
  · obtain ⟨x, _, rfl⟩ := List.mem_map.mp h
    exact Or.inr ⟨_, _, rfl⟩

theorem waitSystemReady_kind {e : Event} (h : e ∈ (waitSystemReady lab k).1) :
    ∃ op host, e = .touch op host := by
  unfold waitSystemReady at h
  dsimp only at h
  split at h
  · exact absurd h List.not_mem_nil
  · split at h
    · exact absurd h List.not_mem_nil
    · exact ⟨_, _, List.mem_singleton.mp h⟩

/-- The three ways a cluster goes. -/
theorem cluster_cases (w : World) (lab : Lab) (keep : Bool) (cluName : Text) :
    ¬ Complete w lab keep cluName ∨
    (Complete w lab keep cluName ∧ ∃ r, w.installCluster cluName = some r) ∨
    Installed w lab keep cluName := by
  by_cases hc : Complete w lab keep cluName
  · cases hr : w.installCluster cluName with
    | none => exact Or.inr (Or.inr ⟨hc, hr⟩)
    | some r => exact Or.inr (Or.inl ⟨hc, r, rfl⟩)
  · exact Or.inl hc

theorem not_installed_of_some {cluName : Text} {r : Raised} (hr : w.installCluster cluName = some r) :
    ¬ Installed w lab keep cluName := fun h => by
  have := h.2
  rw [hr] at this
  cases this

theorem installCluster_returns_iff (hm : Marks w lab keep failed) (hs : Settles w lab keep k) :
    (installCluster w lab failed k).2 = none ↔
      (Installed w lab keep k.1 → ∀ a ∈ k.2.addons, Placeable w (clusterScope k.1) a) := by
  rcases cluster_cases w lab keep k.1 with hc | ⟨hc, r, hr⟩ | hi
  · obtain ⟨msg, he⟩ := installCluster_of_not_complete hm hc
    rw [he]
    exact ⟨fun _ h => absurd h.1 hc, fun _ => rfl⟩
  · rw [installCluster_of_failed hm hc hr]
    exact ⟨fun _ h => absurd h (not_installed_of_some hr), fun _ => rfl⟩
  · rw [installCluster_of_settled hm hs hi]
    dsimp only
    rw [clusterAddons_returns_iff]
    simp [hi]

theorem installCluster_turn (hm : Marks w lab keep failed) (hs : Settles w lab keep k)
    (h : Complete w lab keep k.1) : .turn (.cluster k.1) ∈ (installCluster w lab failed k).1 := by
  have hturn : .turn (.cluster k.1) ∈ installEvents lab k.1 := List.mem_cons_self
  rcases cluster_cases w lab keep k.1 with hc | ⟨_, r, hr⟩ | hi
  · exact absurd h hc
  · rw [installCluster_of_failed hm h hr]
    exact List.mem_append_left _ hturn
  · rw [installCluster_of_settled hm hs hi]
    exact List.mem_append_left _ (List.mem_append_left _ (List.mem_append_left _ hturn))

/-- What an installed cluster and its add-ons write. -/
theorem mem_installCluster_installed (hm : Marks w lab keep failed) (hs : Settles w lab keep k)
    (h : Installed w lab keep k.1) (hp : ∀ a ∈ k.2.addons, Placeable w (clusterScope k.1) a)
    {e : Event} : e ∈ (installCluster w lab failed k).1 ↔ (e ∈ installEvents lab k.1 ∨
      e = .cluster k.1 "ok".toList ∨ e ∈ (waitSystemReady lab k).1) ∨
      ∃ a ∈ k.2.addons, e ∈ addonEvents w (.clusterAddon, lab.addonNode k) "cluster".toList k.1
        (clusterScope k.1) 0 a := by
  rw [installCluster_of_settled hm hs h]
  dsimp only
  rw [List.mem_append, mem_clusterAddons (clusterAddons_returns_iff.mpr fun a ha _ => hp a ha)]
  simp only [List.mem_append, List.mem_singleton, List.not_mem_nil, not_false_eq_true, true_and,
    or_assoc]

/-- **A cluster is recorded as failed** iff it is not installed. -/
theorem installCluster_failed_iff (hm : Marks w lab keep failed) (hs : Settles w lab keep k)
    (hp : Installed w lab keep k.1 → ∀ a ∈ k.2.addons, Placeable w (clusterScope k.1) a) {name : Text} :
    .cluster name FAILED ∈ (installCluster w lab failed k).1 ↔
      name = k.1 ∧ ¬ Installed w lab keep k.1 := by
  have hinst : .cluster name FAILED ∉ installEvents lab k.1 := fun h => by
    rcases installEvents_kind h with h | ⟨_, _, h⟩ <;> cases h
  rcases cluster_cases w lab keep k.1 with hc | ⟨hc, r, hr⟩ | hi
  · obtain ⟨msg, he⟩ := installCluster_of_not_complete hm hc
    have hnot : ¬ Installed w lab keep k.1 := fun h => hc h.1
    rw [he]
    simp [hnot]
  · rw [installCluster_of_failed hm hc hr]
    simp [not_installed_of_some hr, hinst]
  · rw [mem_installCluster_installed hm hs hi (hp hi)]
    refine ⟨fun h => ?_, fun h => absurd hi h.2⟩
    rcases h with (h | h | h) | ⟨a, _, h⟩
    · exact absurd h hinst
    · exact absurd (Event.cluster.inj h).2 (by decide)
    · obtain ⟨_, _, h⟩ := waitSystemReady_kind h
      cases h
    · exact absurd rfl ((addonEvents_kind h).2.1 name FAILED)

/-- **Something that failed is written for a cluster** iff it or one of its add-ons failed. -/
theorem installCluster_fails_iff (hm : Marks w lab keep failed) (hs : Settles w lab keep k)
    (hp : Installed w lab keep k.1 → ∀ a ∈ k.2.addons, Placeable w (clusterScope k.1) a) :
    (∃ e ∈ (installCluster w lab failed k).1, e.fails = true) ↔ ¬ Installed w lab keep k.1 ∨
      ∃ a ∈ k.2.addons, (w.runAddon (clusterScope k.1) 0 a).returncode ≠ 0 := by
  by_cases hi : Installed w lab keep k.1
  · simp only [mem_installCluster_installed hm hs hi (hp hi), hi, not_true_eq_false, false_or]
    constructor
    · rintro ⟨e, (he | rfl | he) | ⟨a, ha, he⟩, hf⟩
      · rcases installEvents_kind he with rfl | ⟨_, _, rfl⟩ <;> cases hf
      · cases hf
      · obtain ⟨_, _, rfl⟩ := waitSystemReady_kind he
        cases hf
      · exact ⟨a, ha, addonEvents_fails_iff.mp ⟨e, he, hf⟩⟩
    · rintro ⟨a, ha, hrc⟩
      obtain ⟨e, he, hf⟩ := addonEvents_fails_iff.mpr hrc
      exact ⟨e, Or.inr ⟨a, ha, he⟩, hf⟩
  · exact ⟨fun _ => Or.inl hi, fun _ =>
      ⟨_, (installCluster_failed_iff hm hs hp).mpr ⟨rfl, hi⟩, rfl⟩⟩

/-- A cluster writes no status of a node. -/
theorem installCluster_kind (hm : Marks w lab keep failed) (hs : Settles w lab keep k) {e : Event}
    (h : e ∈ (installCluster w lab failed k).1) : (∀ n s, e ≠ .node n s) ∧ e ≠ .summary := by
  have hinst : ∀ {e}, e ∈ installEvents lab k.1 → (∀ n s, e ≠ .node n s) ∧ e ≠ .summary := fun he => by
    rcases installEvents_kind he with rfl | ⟨_, _, rfl⟩ <;> simp
  rcases cluster_cases w lab keep k.1 with hc | ⟨hc, r, hr⟩ | hi
  · obtain ⟨msg, he⟩ := installCluster_of_not_complete hm hc
    rw [he] at h
    simp only [List.mem_cons, List.not_mem_nil, or_false] at h
    rcases h with rfl | rfl <;> simp
  · rw [installCluster_of_failed hm hc hr] at h
    simp only [List.mem_append, List.mem_cons, List.not_mem_nil, or_false] at h
    rcases h with h | rfl | rfl
    · exact hinst h
    · simp
    · simp
  · rw [installCluster_of_settled hm hs hi] at h
    simp only [List.mem_append, List.mem_singleton] at h
    rcases h with ((h | rfl) | h) | h
    · exact hinst h
    · simp
    · obtain ⟨_, _, rfl⟩ := waitSystemReady_kind h
      simp
    · obtain ⟨a, he⟩ := exists_of_mem_clusterAddons h
      exact ⟨(addonEvents_kind he).1, (addonEvents_kind he).2.2⟩

section Node

variable (hm : Marks w lab keep failed) (hx : x ∈ lab.nodes)

include hm hx

theorem vmAddons_of_failed (h : NodeFails w keep x) : vmAddons w failed x = ([], none) := by
  unfold vmAddons
  split
  · rfl
  · rw [if_pos ((hm x hx).mpr h)]

theorem vmAddons_of_not_failed (h : ¬ NodeFails w keep x) :
    vmAddons w failed x = nodeAddons w x.1 [] x.2.addons := by
  unfold vmAddons
  split
  · rename_i hnil
    rw [hnil]
    rfl
  · rw [if_neg fun hf => h ((hm x hx).mp hf)]

theorem vmAddons_returns_iff : (vmAddons w failed x).2 = none ↔
    (¬ NodeFails w keep x → ∀ a ∈ x.2.addons, Placeable w (nodeScope x.1) a) := by
  by_cases h : NodeFails w keep x
  · rw [vmAddons_of_failed hm hx h]
    simp [h]
  · rw [vmAddons_of_not_failed hm hx h, nodeAddons_returns_iff]
    simp [h]

theorem mem_vmAddons (hp : ¬ NodeFails w keep x → ∀ a ∈ x.2.addons, Placeable w (nodeScope x.1) a)
    {e : Event} : e ∈ (vmAddons w failed x).1 ↔ ¬ NodeFails w keep x ∧ ∃ a,
      ∃ times < x.2.addons.count a, e ∈ addonEvents w (.nodeAddon, x.1) "node".toList x.1 (nodeScope x.1) times a := by
  by_cases h : NodeFails w keep x
  · rw [vmAddons_of_failed hm hx h]
    simp [h]
  · rw [vmAddons_of_not_failed hm hx h, mem_nodeAddons (nodeAddons_returns_iff.mpr (hp h))]
    simp [h]

theorem vmAddons_kind {e : Event} (h : e ∈ (vmAddons w failed x).1) :
    (∀ n s, e ≠ .node n s) ∧ (∀ n s, e ≠ .cluster n s) ∧ e ≠ .summary := by
  by_cases hf : NodeFails w keep x
  · rw [vmAddons_of_failed hm hx hf] at h
    exact absurd h List.not_mem_nil
  · rw [vmAddons_of_not_failed hm hx hf] at h
    obtain ⟨_, _, he⟩ := exists_of_mem_nodeAddons h
    exact addonEvents_kind he

theorem mem_postCommands {e : Event} : e ∈ (postCommands w failed x).1 ↔ ¬ NodeFails w keep x ∧
    (e = .turn (.post x.1) ∨ e = .touch .postCommand x.1 ∨
      ∃ msg ∈ w.postCommands x.1, e = .error msg) := by
  unfold postCommands
  by_cases h : NodeFails w keep x
  · rw [if_pos ((hm x hx).mpr h)]
    simp [h]
  · rw [if_neg fun hf => h ((hm x hx).mp hf)]
    simp [h, eq_comm]

end Node

theorem postCommands_returns : (postCommands w failed x).2 = none := by
  unfold postCommands
  split <;> rfl

/-! ## The run -/

variable {seed : List Text} {q : Attempt Event Raised}

theorem beforeCreate_eq (hservices : w.services = none)
    (h : lab.kclusters ≠ [] → w.dns = none) :
    beforeCreate w lab seed = (seed.map .error, none) := by
  have hdns : (if lab.kclusters = [] then none else w.dns) = none := by
    split
    · rfl
    · rename_i hne
      exact h hne
  rw [beforeCreate, hdns, hservices]
  simp

/-- The reboot of the kept nodes writes no status. -/
theorem rebootAndWaitKeptNodes_kind {e : Event} (h : e ∈ (rebootAndWaitKeptNodes w lab keep).1) :
    ∃ op host, e = .touch op host := by
  unfold rebootAndWaitKeptNodes at h
  split at h
  · rcases mem_andThen h with h | ⟨_, h⟩
    · obtain ⟨x, _, h⟩ := mem_runAll h
      unfold rebootKept at h
      split at h
      · exact absurd h List.not_mem_nil
      · exact ⟨_, _, List.mem_singleton.mp h⟩
    · obtain ⟨x, _, h⟩ := mem_runAll h
      exact ⟨_, _, List.mem_singleton.mp h⟩
  · exact absurd h List.not_mem_nil

theorem rebootAndWaitKeptNodes_returns
    (h : keep = true → ∀ x ∈ lab.nodes, x.2.inCluster = true → w.waitKept x.1 = none ∧
      (x.2.existing = false → lab.isHarvesterNode x.2 = false →
        w.locateKvmHost x.1 = none ∧ w.rebootVm x.1 = none)) :
    (rebootAndWaitKeptNodes w lab keep).2 = none := by
  unfold rebootAndWaitKeptNodes
  split
  · rename_i hk
    rw [andThen_returns_iff, runAll_returns_iff, runAll_returns_iff]
    refine ⟨fun x hx => ?_, fun x hx => ?_⟩
    · obtain ⟨hx, hc⟩ := List.mem_filter.mp hx
      simp only [Bool.and_eq_true, Bool.not_eq_true'] at hc
      obtain ⟨hlocate, hreboot⟩ := (h hk x hx hc.1.1).2 hc.1.2 hc.2
      unfold rebootKept
      rw [hlocate]
      exact hreboot
    · obtain ⟨hx, hc⟩ := List.mem_filter.mp hx
      exact (h hk x hx hc).1
  · rfl

section Run

variable {parallel : Nat} {created : Log}

/-- **The lists of failed nodes the phases read** are right: no later phase writes a status of a node. -/
theorem marks_andThen {p : Attempt Event Raised} {f : Log → Attempt Event Raised}
    (hm : Marks w lab keep (failedNodes p.1))
    (hf : ∀ e ∈ (f p.1).1, ∀ n s, e ≠ .node n s) :
    Marks w lab keep (failedNodes (andThen p f).1) := by
  intro x hx
  rw [← hm x hx, mem_failedNodes, mem_failedNodes]
  constructor
  · intro h
    rcases mem_andThen h with h | ⟨_, h⟩
    · exact h
    · exact absurd rfl (hf _ h _ _)
  · exact fun h => subset_andThen _ _ h

theorem marks_created (h : created.Perm (lab.nodes.flatMap fun x => (createOneVm w keep x).1)) :
    Marks w lab keep (failedNodes (seed.map .error ++ created)) := by
  intro x hx
  rw [mem_failedNodes, List.mem_append, h.mem_iff, List.mem_flatMap]
  constructor
  · rintro (he | ⟨y, hy, he⟩)
    · obtain ⟨msg, _, he⟩ := List.mem_map.mp he
      cases he
    · obtain ⟨hxy, hf⟩ := createOneVm_failed_iff.mp he
      rw [List.inj_on_of_nodup_map lab.nodup_nodes hx hy hxy]
      exact hf
  · exact fun hf => Or.inr ⟨x, hx, createOneVm_failed_iff.mpr ⟨rfl, hf⟩⟩

/-- The phases of a run that has its nodes, with what each reads as failed. -/
def phases (w : World) (lab : Lab) (created : Log) (f₁ f₂ f₃ : List Text) : Attempt Event Raised :=
  andThen (andThen (andThen (andThen (created, none)
    fun _ => runAll (installCluster w lab f₁) lab.kclusters)
    fun _ => runAll (vmAddons w f₂) lab.nodes)
    fun _ => runAll (postCommands w f₃) lab.nodes)
    fun _ => ([.summary], none)

theorem afterCreate_eq (h : Answers w lab keep)
    (hm : Marks w lab keep (failedNodes created)) : ∃ kept f₁ f₂ f₃,
      (∀ e ∈ kept, ∃ op host, e = .touch op host) ∧ Marks w lab keep f₁ ∧
      Marks w lab keep f₂ ∧ Marks w lab keep f₃ ∧
      afterCreate w lab keep (created, none) = phases w lab (created ++ kept) f₁ f₂ f₃ := by
  obtain ⟨kept, hkind, hkept⟩ : ∃ kept, (∀ e ∈ kept, ∃ op host, e = .touch op host) ∧
      (if lab.kclusters = [] then ([], none) else rebootAndWaitKeptNodes w lab keep) =
        ((kept, none) : Attempt Event Raised) := by
    split
    · exact ⟨[], fun e he => absurd he List.not_mem_nil, rfl⟩
    · rename_i hne
      exact ⟨_, fun e he => rebootAndWaitKeptNodes_kind he,
        Prod.ext rfl (rebootAndWaitKeptNodes_returns fun hk => h.kept hk hne)⟩
  have hclu : ∀ f, (if lab.kclusters = [] then ([], none)
      else runAll (installCluster w lab f) lab.kclusters) =
      runAll (installCluster w lab f) lab.kclusters := fun f => by
    split
    · rename_i hnil
      rw [hnil]
      rfl
    · rfl
  let p₀ : Attempt Event Raised := (created ++ kept, none)
  let p₁ := andThen p₀ fun log => runAll (installCluster w lab (failedNodes log)) lab.kclusters
  let p₂ := andThen p₁ fun log => runAll (vmAddons w (failedNodes log)) lab.nodes
  have hm₀ : Marks w lab keep (failedNodes p₀.1) :=
    marks_andThen (p := (created, none)) (f := fun _ => (kept, none)) hm fun e he n s hc => by
      obtain ⟨_, _, he⟩ := hkind e he
      rw [hc] at he
      cases he
  have hm₁ : Marks w lab keep (failedNodes p₁.1) := marks_andThen hm₀ fun e he => by
    obtain ⟨k, hk, he⟩ := mem_runAll he
    exact (installCluster_kind hm₀ (h.settled k hk) he).1
  have hm₂ : Marks w lab keep (failedNodes p₂.1) := marks_andThen hm₁ fun e he => by
    obtain ⟨x, hx, he⟩ := mem_runAll he
    exact (vmAddons_kind hm₁ hx he).1
  refine ⟨kept, failedNodes p₀.1, failedNodes p₁.1, failedNodes p₂.1, hkind, hm₀, hm₁, hm₂, ?_⟩
  have hlog : p₂ = andThen p₁ fun _ => runAll (vmAddons w (failedNodes p₁.1)) lab.nodes :=
    andThen_const _ _
  calc afterCreate w lab keep (created, none)
      = andThen (andThen p₂ fun log => runAll (postCommands w (failedNodes log)) lab.nodes)
          fun _ => ([.summary], none) := by
        unfold afterCreate
        dsimp only
        simp only [hkept, hclu, andThen_none]
        rfl
    _ = andThen (andThen p₂ fun _ => runAll (postCommands w (failedNodes p₂.1)) lab.nodes)
          fun _ => ([.summary], none) := by rw [andThen_const p₂]
    _ = phases w lab (created ++ kept) (failedNodes p₀.1) (failedNodes p₁.1) (failedNodes p₂.1) :=
        congrArg (fun p => andThen (andThen p fun _ =>
          runAll (postCommands w (failedNodes p₂.1)) lab.nodes) fun _ => ([.summary], none)) hlog

/-- **A run is its phases**, over what the nodes left and the reboot of the kept ones. -/
theorem setupLab_eq (h : Answers w lab keep) {p : Attempt Event Raised}
    (hrun : SetupLab w lab keep parallel seed p) : ∃ created kept f₁ f₂ f₃,
      created.Perm (lab.nodes.flatMap fun x => (createOneVm w keep x).1) ∧
      (∀ e ∈ kept, ∃ op host, e = .touch op host) ∧
      Marks w lab keep f₁ ∧ Marks w lab keep f₂ ∧ Marks w lab keep f₃ ∧
      p = phases w lab (seed.map .error ++ created ++ kept) f₁ f₂ f₃ := by
  obtain ⟨⟨created, raised⟩, hq, rfl⟩ := hrun
  obtain ⟨rfl, hperm⟩ := createVms_spec hq h.ssh
  obtain ⟨kept, f₁, f₂, f₃, hkept, hm₁, hm₂, hm₃, heq⟩ :=
    afterCreate_eq h (marks_created hperm)
  refine ⟨created, kept, f₁, f₂, f₃, hperm, hkept, hm₁, hm₂, hm₃, ?_⟩
  rw [beforeCreate_eq h.services h.dns, andThen_none]
  exact heq

section Phases

variable {f₁ f₂ f₃ : List Text} (hs : ∀ k ∈ lab.kclusters, Settles w lab keep k)
  (hm₁ : Marks w lab keep f₁) (hm₂ : Marks w lab keep f₂)

include hs hm₁ hm₂

theorem phases_returns_iff : (phases w lab created f₁ f₂ f₃).2 = none ↔ Placed w lab keep := by
  unfold phases
  simp only [andThen_returns_iff, runAll_returns_iff, postCommands_returns, implies_true, true_and,
    and_true]
  constructor
  · rintro ⟨hclu, hvm⟩
    exact ⟨fun k hk => (installCluster_returns_iff hm₁ (hs k hk)).mp (hclu k hk),
      fun x hx => (vmAddons_returns_iff hm₂ hx).mp (hvm x hx)⟩
  · exact fun h => ⟨fun k hk => (installCluster_returns_iff hm₁ (hs k hk)).mpr (h.cluster k hk),
      fun x hx => (vmAddons_returns_iff hm₂ hx).mpr (h.node x hx)⟩

/-- What a run that ends with the summary wrote. -/
theorem mem_phases (h : Placed w lab keep) {e : Event} :
    e ∈ (phases w lab created f₁ f₂ f₃).1 ↔ e ∈ created ∨
      (∃ k ∈ lab.kclusters, e ∈ (installCluster w lab f₁ k).1) ∨
      (∃ x ∈ lab.nodes, e ∈ (vmAddons w f₂ x).1) ∨
      (∃ x ∈ lab.nodes, e ∈ (postCommands w f₃ x).1) ∨ e = .summary := by
  have hclu : ∀ k ∈ lab.kclusters, (installCluster w lab f₁ k).2 = none := fun k hk =>
    (installCluster_returns_iff hm₁ (hs k hk)).mpr (h.cluster k hk)
  have hvm : ∀ x ∈ lab.nodes, (vmAddons w f₂ x).2 = none := fun x hx =>
    (vmAddons_returns_iff hm₂ hx).mpr (h.node x hx)
  have hpost : ∀ x ∈ lab.nodes, (postCommands w f₃ x).2 = none := fun x _ => postCommands_returns
  unfold phases
  rw [andThen_log, andThen_log, andThen_log, andThen_none, runAll_log hclu, runAll_log hvm,
    runAll_log hpost]
  · simp only [List.mem_append, List.mem_flatMap, List.mem_singleton, or_assoc]
  · exact andThen_returns_iff.mpr ⟨rfl, runAll_returns_iff.mpr hclu⟩
  · simp only [andThen_returns_iff, runAll_returns_iff]
    exact ⟨⟨trivial, hclu⟩, hvm⟩
  · simp only [andThen_returns_iff, runAll_returns_iff]
    exact ⟨⟨⟨trivial, hclu⟩, hvm⟩, hpost⟩

/-- **The run comes to its summary** iff nothing ends it before. -/
theorem summary_mem_phases_iff (hm₃ : Marks w lab keep f₃) (hc : .summary ∉ created) :
    .summary ∈ (phases w lab created f₁ f₂ f₃).1 ↔ Placed w lab keep := by
  refine ⟨fun h => ?_, fun h => (mem_phases hs hm₁ hm₂ h).mpr (by simp)⟩
  have hret : (phases w lab created f₁ f₂ f₃).2 = none := by
    unfold phases at h ⊢
    rw [andThen_returns_iff]
    refine ⟨?_, rfl⟩
    rcases mem_andThen h with h | ⟨hret, _⟩
    · exfalso
      rcases mem_andThen h with h | ⟨_, h⟩
      · rcases mem_andThen h with h | ⟨_, h⟩
        · rcases mem_andThen h with h | ⟨_, h⟩
          · exact hc h
          · obtain ⟨k, hk, h⟩ := mem_runAll h
            exact (installCluster_kind hm₁ (hs k hk) h).2 rfl
        · obtain ⟨x, hx, h⟩ := mem_runAll h
          exact (vmAddons_kind hm₂ hx h).2.2 rfl
      · obtain ⟨x, hx, h⟩ := mem_runAll h
        rcases ((mem_postCommands hm₃ hx).mp h).2 with h | h | ⟨_, _, h⟩ <;> cases h
    · exact hret
  exact (phases_returns_iff hs hm₁ hm₂).mp hret

end Phases

/-- Where an entry of a run that ends with the summary comes from. -/
def Wrote (w : World) (lab : Lab) (keep : Bool) (seed : List Text) (kept : Log)
    (f₁ f₂ f₃ : List Text) (e : Event) : Prop :=
  (e ∈ seed.map Event.error ∨ (∃ x ∈ lab.nodes, e ∈ (createOneVm w keep x).1) ∨ e ∈ kept) ∨
    (∃ k ∈ lab.kclusters, e ∈ (installCluster w lab f₁ k).1) ∨
    (∃ x ∈ lab.nodes, e ∈ (vmAddons w f₂ x).1) ∨
    (∃ x ∈ lab.nodes, e ∈ (postCommands w f₃ x).1) ∨ e = .summary

section Records

variable {f₁ f₂ f₃ : List Text} {kept log : Log} (hs : ∀ k ∈ lab.kclusters, Settles w lab keep k)
  (hkept : ∀ e ∈ kept, ∃ op host, e = .touch op host)
  (hm₁ : Marks w lab keep f₁) (hm₂ : Marks w lab keep f₂) (hm₃ : Marks w lab keep f₃)
  (hlog : ∀ e, e ∈ log ↔ Wrote w lab keep seed kept f₁ f₂ f₃ e)

include hs hkept hm₁ hm₂ hm₃ hlog

/-- **Only a node that failed is recorded so.** -/
theorem node_failed_iff (hx : x ∈ lab.nodes) : .node x.1 FAILED ∈ log ↔ NodeFails w keep x := by
  rw [hlog]
  constructor
  · rintro ((he | ⟨y, hy, he⟩ | he) | ⟨k, hk, he⟩ | ⟨y, hy, he⟩ | ⟨y, hy, he⟩ | he)
    · obtain ⟨_, _, he⟩ := List.mem_map.mp he
      cases he
    · obtain ⟨hxy, hf⟩ := createOneVm_failed_iff.mp he
      rw [List.inj_on_of_nodup_map lab.nodup_nodes hx hy hxy]
      exact hf
    · obtain ⟨_, _, he⟩ := hkept _ he
      cases he
    · exact absurd rfl ((installCluster_kind hm₁ (hs k hk) he).1 _ _)
    · exact absurd rfl ((vmAddons_kind hm₂ hy he).1 _ _)
    · rcases ((mem_postCommands hm₃ hy).mp he).2 with he | he | ⟨_, _, he⟩ <;> cases he
    · cases he
  · exact fun hf => Or.inl (Or.inr (Or.inl ⟨x, hx, createOneVm_failed_iff.mpr ⟨rfl, hf⟩⟩))

variable (h : Placed w lab keep)

include h

/-- **Only a cluster that is not installed is recorded as failed.** -/
theorem cluster_failed_iff (hk : k ∈ lab.kclusters) :
    .cluster k.1 FAILED ∈ log ↔ ¬ Installed w lab keep k.1 := by
  rw [hlog]
  constructor
  · rintro ((he | ⟨y, hy, he⟩ | he) | ⟨j, hj, he⟩ | ⟨y, hy, he⟩ | ⟨y, hy, he⟩ | he)
    · obtain ⟨_, _, he⟩ := List.mem_map.mp he
      cases he
    · exact absurd rfl ((createOneVm_kind he).1 _ _)
    · obtain ⟨_, _, he⟩ := hkept _ he
      cases he
    · obtain ⟨hkj, hi⟩ := (installCluster_failed_iff hm₁ (hs j hj) (h.cluster j hj)).mp he
      rw [hkj]
      exact hi
    · exact absurd rfl ((vmAddons_kind hm₂ hy he).2.1 _ _)
    · rcases ((mem_postCommands hm₃ hy).mp he).2 with he | he | ⟨_, _, he⟩ <;> cases he
    · cases he
  · exact fun hi => Or.inr (Or.inl ⟨k, hk,
      (installCluster_failed_iff hm₁ (hs k hk) (h.cluster k hk)).mpr ⟨rfl, hi⟩⟩)

/-- **An entry that is a failure** is there iff something failed. -/
theorem fails_iff : (∃ e ∈ log, e.fails = true) ↔ seed ≠ [] ∨ SomeFails w lab keep := by
  constructor
  · rintro ⟨e, he, hf⟩
    rcases (hlog e).mp he with (he | ⟨x, hx, he⟩ | he) | ⟨k, hk, he⟩ | ⟨x, hx, he⟩ | ⟨x, hx, he⟩ | rfl
    · obtain ⟨msg, hmsg, _⟩ := List.mem_map.mp he
      exact Or.inl (List.ne_nil_of_mem hmsg)
    · rcases createOneVm_fails_iff.mp ⟨e, he, hf⟩ with hn | hn
      · exact Or.inr (Or.inl ⟨x, hx, Or.inl hn⟩)
      · exact Or.inr (Or.inl ⟨x, hx, Or.inr (Or.inl hn)⟩)
    · obtain ⟨_, _, rfl⟩ := hkept e he
      cases hf
    · exact Or.inr (Or.inr ⟨k, hk,
        (installCluster_fails_iff hm₁ (hs k hk) (h.cluster k hk)).mp ⟨e, he, hf⟩⟩)
    · obtain ⟨hn, a, times, hlt, he⟩ := (mem_vmAddons hm₂ hx (h.node x hx)).mp he
      have hrc := addonEvents_fails_iff.mp ⟨e, he, hf⟩
      exact Or.inr (Or.inl ⟨x, hx, Or.inr (Or.inr ⟨hn, Or.inr ⟨a, times, hlt, hrc⟩⟩)⟩)
    · obtain ⟨hn, rfl | rfl | ⟨msg, hmsg, rfl⟩⟩ := (mem_postCommands hm₃ hx).mp he
      · cases hf
      · cases hf
      · exact Or.inr (Or.inl ⟨x, hx, Or.inr (Or.inr ⟨hn, Or.inl (List.ne_nil_of_mem hmsg)⟩)⟩)
    · cases hf
  · rintro (hs | ⟨x, hx, hn | hn | ⟨hn, hpost | ⟨a, times, hlt, hrc⟩⟩⟩ | ⟨k, hk, hfail⟩)
    · obtain ⟨msg, hmsg⟩ := List.exists_mem_of_ne_nil _ hs
      exact ⟨.error msg, (hlog _).mpr (Or.inl (Or.inl (List.mem_map_of_mem hmsg))), rfl⟩
    · obtain ⟨e, he, hf⟩ := createOneVm_fails_iff.mpr (Or.inl hn)
      exact ⟨e, (hlog e).mpr (Or.inl (Or.inr (Or.inl ⟨x, hx, he⟩))), hf⟩
    · obtain ⟨e, he, hf⟩ := createOneVm_fails_iff.mpr (Or.inr hn)
      exact ⟨e, (hlog e).mpr (Or.inl (Or.inr (Or.inl ⟨x, hx, he⟩))), hf⟩
    · obtain ⟨msg, hmsg⟩ := List.exists_mem_of_ne_nil _ hpost
      have he := (mem_postCommands hm₃ hx).mpr ⟨hn, Or.inr (Or.inr ⟨msg, hmsg, rfl⟩)⟩
      exact ⟨_, (hlog _).mpr (Or.inr (Or.inr (Or.inr (Or.inl ⟨x, hx, he⟩)))), rfl⟩
    · obtain ⟨e, he, hf⟩ := addonEvents_fails_iff.mpr hrc
      have he := (mem_vmAddons hm₂ hx (h.node x hx)).mpr ⟨hn, a, times, hlt, he⟩
      exact ⟨e, (hlog e).mpr (Or.inr (Or.inr (Or.inl ⟨x, hx, he⟩))), hf⟩
    · obtain ⟨e, he, hf⟩ := (installCluster_fails_iff hm₁ (hs k hk) (h.cluster k hk)).mpr hfail
      exact ⟨e, (hlog e).mpr (Or.inr (Or.inl ⟨k, hk, he⟩)), hf⟩

/-- **A run that ends with the summary isolates what failed.** -/
theorem isolated_of_placed : Isolated w lab keep seed log := by
  have hnode : ∀ x ∈ lab.nodes, ∀ e ∈ (createOneVm w keep x).1, e ∈ log := fun x hx e he =>
    (hlog e).mpr (Or.inl (Or.inr (Or.inl ⟨x, hx, he⟩)))
  have hclu : ∀ k ∈ lab.kclusters, ∀ e ∈ (installCluster w lab f₁ k).1, e ∈ log := fun k hk e he =>
    (hlog e).mpr (Or.inr (Or.inl ⟨k, hk, he⟩))
  have hcluAddon : ∀ k ∈ lab.kclusters, Installed w lab keep k.1 → ∀ a ∈ k.2.addons,
      ∀ e ∈ addonEvents w (.clusterAddon, lab.addonNode k) "cluster".toList k.1 (clusterScope k.1) 0 a,
      e ∈ log := fun k hk hi a ha e he => hclu k hk e
    ((mem_installCluster_installed hm₁ (hs k hk) hi (h.cluster k hk hi)).mpr (Or.inr ⟨a, ha, he⟩))
  have hvm : ∀ x ∈ lab.nodes, ¬ NodeFails w keep x → ∀ a, ∀ times < x.2.addons.count a,
      ∀ e ∈ addonEvents w (.nodeAddon, x.1) "node".toList x.1 (nodeScope x.1) times a, e ∈ log :=
    fun x hx hn a times hlt e he => (hlog e).mpr (Or.inr (Or.inr (Or.inl
      ⟨x, hx, (mem_vmAddons hm₂ hx (h.node x hx)).mpr ⟨hn, a, times, hlt, he⟩⟩)))
  have hpost : ∀ x ∈ lab.nodes, ∀ e ∈ (postCommands w f₃ x).1, e ∈ log := fun x hx e he =>
    (hlog e).mpr (Or.inr (Or.inr (Or.inr (Or.inl ⟨x, hx, he⟩))))
  refine
    { nodeTurn := fun x hx => hnode x hx _ createOneVm_turn
      clusterTurn := fun k hk hc => hclu k hk _ (installCluster_turn hm₁ (hs k hk) hc)
      clusterAddonTurn := fun k hk hi a ha => hcluAddon k hk hi a ha _ addonEvents_turn
      nodeAddonTurn := fun x hx hn a ha =>
        hvm x hx hn a 0 (List.count_pos_iff.mpr ha) _ addonEvents_turn
      postTurn := fun x hx hn => hpost x hx _ ((mem_postCommands hm₃ hx).mpr ⟨hn, Or.inl rfl⟩)
      nodeRecorded := fun x hx => mem_nodes_iff.trans (node_failed_iff hs hkept hm₁ hm₂ hm₃ hlog hx)
      destroyRecorded := fun x hx hr e he => mem_errors_iff.mpr (hnode x hx _ ?_)
      provisionRecorded := fun x hx hr msgs he msg hmsg => mem_errors_iff.mpr (hnode x hx _ ?_)
      clusterRecorded := fun k hk => mem_clusters_iff.trans
        (cluster_failed_iff hs hkept hm₁ hm₂ hm₃ hlog h hk)
      clusterAddonRecorded := fun k hk hi a ha => mem_addons_iff.mpr
        (hcluAddon k hk hi a ha _ addonEvents_status)
      nodeAddonRecorded := fun x hx hn a times hlt => mem_addons_iff.mpr
        (hvm x hx hn a times hlt _ addonEvents_status)
      postRecorded := fun x hx hn msg hmsg => mem_errors_iff.mpr
        (hpost x hx _ ((mem_postCommands hm₃ hx).mpr ⟨hn, Or.inr (Or.inr ⟨msg, hmsg, rfl⟩)⟩))
      failed := failed_iff.trans (fails_iff hs hkept hm₁ hm₂ hm₃ hlog h) }
  · rw [createOneVm_of_recreated hr]
    unfold destroyed
    rw [he]
    exact List.mem_cons_of_mem _ (List.mem_append_left _ List.mem_cons_self)
  · rw [createOneVm_of_recreated hr]
    unfold provisioned
    rw [he]
    exact List.mem_cons_of_mem _ (List.mem_append_right _
      (List.mem_append_left _ (List.mem_map_of_mem hmsg)))

end Records

/-- **A run returns** iff the add-ons it comes to are placed. -/
theorem returns_iff_placed {p : Attempt Event Raised} (h : Answers w lab keep)
    (hrun : SetupLab w lab keep parallel seed p) : p.2 = none ↔ Placed w lab keep := by
  obtain ⟨created, kept, f₁, f₂, f₃, _, _, hm₁, hm₂, _, rfl⟩ := setupLab_eq h hrun
  exact phases_returns_iff h.settled hm₁ hm₂

theorem mem_created {created kept : Log}
    (hperm : created.Perm (lab.nodes.flatMap fun x => (createOneVm w keep x).1)) (e : Event) :
    e ∈ seed.map Event.error ++ created ++ kept ↔ e ∈ seed.map Event.error ∨
      (∃ x ∈ lab.nodes, e ∈ (createOneVm w keep x).1) ∨ e ∈ kept := by
  rw [List.mem_append, List.mem_append, hperm.mem_iff, List.mem_flatMap, or_assoc]

/-- **A run that returns isolates what failed.** -/
theorem isolated_of_run {p : Attempt Event Raised} (h : Answers w lab keep)
    (hrun : SetupLab w lab keep parallel seed p) (hp : Placed w lab keep) :
    Isolated w lab keep seed p.1 := by
  obtain ⟨created, kept, f₁, f₂, f₃, hperm, hkept, hm₁, hm₂, hm₃, rfl⟩ := setupLab_eq h hrun
  refine isolated_of_placed h.settled hkept hm₁ hm₂ hm₃ (fun e => ?_) hp
  rw [mem_phases h.settled hm₁ hm₂ hp, mem_created hperm e]
  exact Iff.rfl

/-- **What a run that returns was answered.** -/
theorem answers_of_returns {p : Attempt Event Raised} (hrun : SetupLab w lab keep parallel seed p)
    (h : p.2 = none) : Answers w lab keep := by
  obtain ⟨q, hq, rfl⟩ := hrun
  unfold afterCreate at h
  dsimp only at h
  simp only [andThen_returns_iff] at h
  obtain ⟨⟨⟨⟨⟨⟨hbefore, hcreate⟩, hreboot⟩, hclu⟩, _⟩, _⟩, _⟩ := h
  have hnodes := (createVms_iff.mp hq).returns_iff.mp hcreate
  have hssh : ∀ x ∈ lab.nodes, x.2.existing = true → w.checkSshConn x.1 = none := fun x hx he => by
    have hret := hnodes x hx
    unfold createOneVm at hret
    rw [if_pos he] at hret
    cases hc : w.checkSshConn x.1 with
    | none => rfl
    | some r =>
      rw [hc] at hret
      cases hret
  unfold beforeCreate at hbefore
  simp only [andThen_returns_iff] at hbefore
  obtain ⟨⟨_, hservices⟩, hdns⟩ := hbefore
  have hdns : lab.kclusters ≠ [] → w.dns = none := fun hne => by rwa [if_neg hne] at hdns
  refine ⟨hservices, hdns, hssh, fun hk hne x hx hin => ?_, fun k hk hinst => ?_⟩
  · rw [if_neg hne] at hreboot
    unfold rebootAndWaitKeptNodes at hreboot
    rw [if_pos hk, andThen_returns_iff, runAll_returns_iff, runAll_returns_iff] at hreboot
    refine ⟨hreboot.2 x (List.mem_filter.mpr ⟨hx, hin⟩), fun he hh => ?_⟩
    have hret := hreboot.1 x (List.mem_filter.mpr ⟨hx, by rw [hin, he, hh]; rfl⟩)
    unfold rebootKept at hret
    cases hl : w.locateKvmHost x.1 with
    | none =>
      rw [hl] at hret
      exact ⟨rfl, hret⟩
    | some r =>
      rw [hl] at hret
      cases hret
  · rw [if_neg (List.ne_nil_of_mem hk), runAll_returns_iff] at hclu
    have hm : Marks w lab keep (failedNodes (andThen (andThen (beforeCreate w lab seed) fun _ => q)
        fun _ => if lab.kclusters = [] then ([], none) else rebootAndWaitKeptNodes w lab keep).1) := by
      refine marks_andThen ?_ fun e he n s hc => ?_
      · rw [beforeCreate_eq hservices hdns, andThen_none]
        exact marks_created (createVms_spec hq hssh).2
      · split at he
        · exact absurd he List.not_mem_nil
        · obtain ⟨_, _, he⟩ := rebootAndWaitKeptNodes_kind he
          rw [hc] at he
          cases he
    have hret := hclu k hk
    rw [installCluster_of_installed hm hinst, andThen_returns_iff, andThen_returns_iff] at hret
    exact hret.1.2

/-- **When a run returns**: everything outside the handlers answers, and its add-ons are placed. -/
theorem setupLab_returns_iff {p : Attempt Event Raised}
    (hrun : SetupLab w lab keep parallel seed p) :
    p.2 = none ↔ Answers w lab keep ∧ Placed w lab keep :=
  ⟨fun h => have ha := answers_of_returns hrun h
    ⟨ha, (returns_iff_placed ha hrun).mp h⟩, fun h => (returns_iff_placed h.1 hrun).mpr h.2⟩

/-- A world in which nothing fails. -/
def answering : World where
  services := none
  dns := none
  checkSshConn := fun _ => none
  vmIsReusable := fun _ => .ok false
  destroyVm := fun _ => none
  provisionVm := fun _ => .ok []
  locateKvmHost := fun _ => none
  rebootVm := fun _ => none
  waitKept := fun _ => none
  installCluster := fun _ => none
  addonInstaller := fun _ => true
  requirementIssue := fun _ _ => false
  runAddon := fun _ _ _ => ⟨0, false⟩
  postCommands := fun _ => []

/-- A cluster of one node, and a node on its own. -/
def twoNodes : Lab where
  nodes := [("a".toList, ⟨false, some "k".toList, "server".toList, []⟩),
    ("b".toList, ⟨false, none, "server".toList, ["ui".toList]⟩)]
  kclusters := [("k".toList, ⟨"k3s".toList, [], ["ui".toList]⟩)]
  nodup_nodes := by decide
  nodup_kclusters := by decide
  harvester_nodes := by decide

/-- The first node cannot be provisioned. -/
def unprovisioned : World :=
  { answering with
    provisionVm := fun name => if name = "a".toList then .error .systemExit else .ok [] }

/-- The run that creates the nodes of a lab one after the other. -/
def sequentialRun (w : World) (lab : Lab) : Attempt Event Raised :=
  afterCreate w lab false
    (andThen (beforeCreate w lab []) fun _ => runAll (createOneVm w false) lab.nodes)

end Run

end LabInABox.Setup
