import LabInABox.Setup.Isolation

/-!
# What is run against a failed node

What the phases after `phase_create_vms` run against a node that is recorded as `FAILED`.

* `created` is any log the phases before may leave: any combination of statuses.
* The later phases each read the failed nodes of the report again. Two do not look: the reboot of the
  kept nodes, which goes to every node of a cluster, and the wait and the add-ons of a cluster that is
  installed, which go to its `mgm_node` although that need not be one of its nodes.

Results:
* `touch_installCluster`: what is run for a cluster is run against its nodes, none of which failed, or
  against `clusterHosts`.
* `untouched_iff`: when nothing is run against a failed node.
-/

namespace LabInABox.Setup

open Text

/-- What an installed cluster comes to besides its own nodes: the server it waits on, and the node its
add-ons run from. A Harvester cluster raises before. -/
def clusterHosts (lab : Lab) (k : Text × Kcluster) : List Text :=
  if lab.kclusterNode k ≠ [] ∧ k.2.cluType = CLU_TYPE then []
  else (if lab.kclusterNode k = [] then [] else [lab.kclusterNode k]) ++
    if k.2.addons = [] then [] else [lab.addonNode k]

/-- The rest of a run, whatever its operations answer, runs nothing against a failed node. -/
def Untouched (lab : Lab) (keep : Bool) (created : Log) : Prop :=
  ∀ (w : World) (op : Op) (host : Text),
    .touch op host ∈ (afterCreate w lab keep (created, none)).1 → host ∉ failedNodes created

/-- With `--keep` and a cluster no failed node has a cluster, and no cluster whose nodes are all there
names a failed node. -/
structure Spared (lab : Lab) (keep : Bool) (failed : List Text) : Prop where
  kept : keep = true → lab.kclusters ≠ [] → ∀ x ∈ lab.nodes, x.2.inCluster = true → x.1 ∉ failed
  named : ∀ k ∈ lab.kclusters, (∀ x ∈ lab.members k.1, x.1 ∉ failed) →
    ∀ host ∈ clusterHosts lab k, host ∉ failed

variable {w : World} {lab : Lab} {keep : Bool} {failed : List Text} {k : Text × Kcluster}
  {x : Text × NodeCfg} {op : Op} {host : Text}

/-! ## What each phase runs -/

theorem locateKvmHost_of_rebootKept (h : (rebootKept w x).2 = none) :
    w.locateKvmHost x.1 = none := by
  unfold rebootKept at h
  cases hl : w.locateKvmHost x.1 with
  | none => rfl
  | some r =>
    rw [hl] at h
    cases h

/-- The reboot comes to nodes of a cluster. One whose host it cannot locate ends the phase. -/
theorem touch_rebootAndWait (h : .touch op host ∈ (rebootAndWaitKeptNodes w lab keep).1) :
    keep = true ∧ ∃ x ∈ lab.nodes, x.2.inCluster = true ∧ host = x.1 ∧
      (x.2.existing = false → lab.isHarvesterNode x.2 = false → w.locateKvmHost x.1 = none) := by
  unfold rebootAndWaitKeptNodes at h
  split at h
  · rename_i hk
    refine ⟨hk, ?_⟩
    rcases mem_andThen h with h | ⟨hret, h⟩
    · obtain ⟨x, hx, h⟩ := mem_runAll h
      obtain ⟨hx, hc⟩ := List.mem_filter.mp hx
      simp only [Bool.and_eq_true] at hc
      unfold rebootKept at h
      split at h
      · exact absurd h List.not_mem_nil
      · rename_i hl
        exact ⟨x, hx, hc.1.1, (Event.touch.inj (List.mem_singleton.mp h)).2, fun _ _ => hl⟩
    · obtain ⟨x, hx, h⟩ := mem_runAll h
      obtain ⟨hx, hc⟩ := List.mem_filter.mp hx
      refine ⟨x, hx, hc, (Event.touch.inj (List.mem_singleton.mp h)).2, fun he hh => ?_⟩
      refine locateKvmHost_of_rebootKept (runAll_returns_iff.mp hret x ?_)
      exact List.mem_filter.mpr ⟨hx, by rw [hc, he, hh]; rfl⟩
  · exact absurd h List.not_mem_nil

/-- The reboot returns only when it locates each host. -/
theorem locateKvmHost_of_returns (h : (rebootAndWaitKeptNodes w lab true).2 = none) (hx : x ∈ lab.nodes)
    (hin : x.2.inCluster = true) (he : x.2.existing = false) (hh : lab.isHarvesterNode x.2 = false) :
    w.locateKvmHost x.1 = none := by
  unfold rebootAndWaitKeptNodes at h
  rw [if_pos rfl, andThen_returns_iff, runAll_returns_iff] at h
  exact locateKvmHost_of_rebootKept (h.1 x (List.mem_filter.mpr ⟨hx, by rw [hin, he, hh]; rfl⟩))

theorem touch_addonEvents {target : Op × Text} {kind name scope addon : Text} {times : Nat}
    (h : .touch op host ∈ addonEvents w target kind name scope times addon) : host = target.2 := by
  unfold addonEvents at h
  dsimp only at h
  simp only [List.mem_append, List.mem_cons, List.not_mem_nil, or_false, reduceCtorEq, false_or] at h
  rcases h with h | h
  · exact (Event.touch.inj h).2
  · split at h
    · cases List.mem_singleton.mp h
    · exact absurd h List.not_mem_nil

theorem touch_mem_addonEvents {kind name scope addon : Text} {times : Nat} :
    .touch op host ∈ addonEvents w (op, host) kind name scope times addon :=
  List.mem_cons_of_mem _ List.mem_cons_self

theorem touch_waitSystemReady (h : .touch op host ∈ (waitSystemReady lab k).1) :
    host ∈ clusterHosts lab k := by
  unfold waitSystemReady at h
  dsimp only at h
  split at h
  · exact absurd h List.not_mem_nil
  · rename_i hs
    split at h
    · exact absurd h List.not_mem_nil
    · rename_i hc
      rw [(Event.touch.inj (List.mem_singleton.mp h)).2]
      unfold clusterHosts
      rw [if_neg (fun hand => hc hand.2), if_neg hs]
      exact List.mem_append_left _ List.mem_cons_self

theorem addonNode_mem_clusterHosts (hret : (waitSystemReady lab k).2 = none)
    (ha : k.2.addons ≠ []) : lab.addonNode k ∈ clusterHosts lab k := by
  have hset : ¬ (lab.kclusterNode k ≠ [] ∧ k.2.cluType = CLU_TYPE) := fun h => by
    unfold waitSystemReady at hret
    dsimp only at hret
    rw [if_neg h.1, if_pos h.2] at hret
    cases hret
  unfold clusterHosts
  rw [if_neg hset, if_neg ha]
  exact List.mem_append_right _ List.mem_cons_self

/-- **What is run for a cluster** is run against its nodes, which are all there, or against the node
that stands for it. -/
theorem touch_installCluster (h : .touch op host ∈ (installCluster w lab failed k).1) :
    (∀ x ∈ lab.members k.1, x.1 ∉ failed) ∧
      ((∃ x ∈ lab.members k.1, host = x.1) ∨ host ∈ clusterHosts lab k) := by
  have hinst : .touch op host ∈ installEvents lab k.1 → ∃ x ∈ lab.members k.1, host = x.1 := fun h => by
    rcases List.mem_cons.mp h with h | h
    · cases h
    · obtain ⟨x, hx, h⟩ := List.mem_map.mp h
      exact ⟨x, hx, (Event.touch.inj h).2.symm⟩
  unfold installCluster at h
  dsimp only at h
  split at h
  · simp at h
  · rename_i hmiss
    rw [not_not, List.map_eq_nil_iff, List.filter_eq_nil_iff] at hmiss
    refine ⟨fun x hx hf => hmiss x hx (decide_eq_true hf), ?_⟩
    split at h
    · simp only [List.mem_append, List.mem_cons, List.not_mem_nil, or_false, reduceCtorEq] at h
      exact Or.inl (hinst h)
    · rcases mem_andThen h with h | ⟨hret, h⟩
      · rcases mem_andThen h with h | ⟨_, h⟩
        · simp only [List.mem_append, List.mem_singleton, or_false, reduceCtorEq] at h
          exact Or.inl (hinst h)
        · exact Or.inr (touch_waitSystemReady h)
      · rw [andThen_returns_iff] at hret
        obtain ⟨a, he⟩ := exists_of_mem_clusterAddons h
        have hne : k.2.addons ≠ [] := fun hnil => by
          rw [hnil] at h
          exact absurd h List.not_mem_nil
        rw [touch_addonEvents he]
        exact Or.inr (addonNode_mem_clusterHosts hret.2 hne)

theorem touch_vmAddons (h : .touch op host ∈ (vmAddons w failed x).1) :
    x.1 ∉ failed ∧ host = x.1 := by
  unfold vmAddons at h
  split at h
  · exact absurd h List.not_mem_nil
  · split at h
    · exact absurd h List.not_mem_nil
    · rename_i hf
      obtain ⟨_, _, he⟩ := exists_of_mem_nodeAddons h
      exact ⟨hf, touch_addonEvents he⟩

theorem touch_postCommands (h : .touch op host ∈ (postCommands w failed x).1) :
    x.1 ∉ failed ∧ host = x.1 := by
  unfold postCommands at h
  split at h
  · exact absurd h List.not_mem_nil
  · rename_i hf
    simp only [List.mem_cons, List.mem_map, reduceCtorEq, false_or, and_false, exists_false,
      or_false] at h
    exact ⟨hf, (Event.touch.inj h).2⟩

/-! ## The rest of a run -/

variable {created : Log}

theorem failedNodes_subset {log log' : Log} (h : log ⊆ log') : failedNodes log ⊆ failedNodes log' :=
  fun _ hn => mem_failedNodes.mpr (h (mem_failedNodes.mp hn))

/-- Where what is run after the nodes were created comes from. -/
theorem touch_afterCreate (h : .touch op host ∈ (afterCreate w lab keep (created, none)).1) :
    .touch op host ∈ created ∨
    (lab.kclusters ≠ [] ∧ .touch op host ∈ (rebootAndWaitKeptNodes w lab keep).1) ∨
    ∃ failed, failedNodes created ⊆ failed ∧
      ((∃ k ∈ lab.kclusters, (rebootAndWaitKeptNodes w lab keep).2 = none ∧
        .touch op host ∈ (installCluster w lab failed k).1) ∨
      (∃ x ∈ lab.nodes, .touch op host ∈ (vmAddons w failed x).1) ∨
      ∃ x ∈ lab.nodes, .touch op host ∈ (postCommands w failed x).1) := by
  have hsub : ∀ f : Log → Attempt Event Raised, created ⊆ (andThen (created, none) f).1 :=
    fun f => subset_andThen (created, none) f
  unfold afterCreate at h
  dsimp only at h
  rcases mem_andThen h with h | ⟨_, h⟩
  · rcases mem_andThen h with h | ⟨_, h⟩
    · rcases mem_andThen h with h | ⟨_, h⟩
      · rcases mem_andThen h with h | ⟨hret, h⟩
        · rcases mem_andThen h with h | ⟨_, h⟩
          · exact Or.inl h
          · split at h
            · exact absurd h List.not_mem_nil
            · rename_i hne
              exact Or.inr (Or.inl ⟨hne, h⟩)
        · split at h
          · exact absurd h List.not_mem_nil
          · rename_i hne
            obtain ⟨k, hk, h⟩ := mem_runAll h
            rw [if_neg hne] at hret
            exact Or.inr (Or.inr ⟨_, failedNodes_subset (hsub _), Or.inl ⟨k, hk, hret, h⟩⟩)
      · obtain ⟨x, hx, h⟩ := mem_runAll h
        refine Or.inr (Or.inr ⟨_, failedNodes_subset ?_, Or.inr (Or.inl ⟨x, hx, h⟩)⟩)
        exact List.Subset.trans (hsub _) (subset_andThen _ _)
    · obtain ⟨x, hx, h⟩ := mem_runAll h
      refine Or.inr (Or.inr ⟨_, failedNodes_subset ?_, Or.inr (Or.inr ⟨x, hx, h⟩)⟩)
      exact List.Subset.trans (hsub _)
        (List.Subset.trans (subset_andThen _ _) (subset_andThen _ _))
  · cases List.mem_singleton.mp h

/-- **A spared lab** is left alone where it failed. -/
theorem untouched_of_spared (hc : ∀ op host, .touch op host ∉ created)
    (h : Spared lab keep (failedNodes created)) : Untouched lab keep created := by
  intro w op host ht
  rcases touch_afterCreate ht with
    ht | ⟨hne, ht⟩ | ⟨failed, hsub, ⟨k, hk, _, ht⟩ | ⟨x, hx, ht⟩ | ⟨x, hx, ht⟩⟩
  · exact absurd ht (hc op host)
  · obtain ⟨hkeep, x, hx, hin, rfl, _⟩ := touch_rebootAndWait ht
    exact h.kept hkeep hne x hx hin
  · obtain ⟨hall, ⟨x, hx, rfl⟩ | hhost⟩ := touch_installCluster ht
    · exact fun hf => hall x hx (hsub hf)
    · exact h.named k hk (fun x hx hf => hall x hx (hsub hf)) host hhost
  · obtain ⟨hf, rfl⟩ := touch_vmAddons ht
    exact fun hin => hf (hsub hin)
  · obtain ⟨hf, rfl⟩ := touch_postCommands ht
    exact fun hin => hf (hsub hin)

/-! ## Runs that touch a failed node -/

/-- In this world one cluster alone is installed, and each add-on can be run. -/
structure Installs (w : World) (cluName : Text) : Prop where
  this : w.installCluster cluName = none
  others : ∀ c, c ≠ cluName → w.installCluster c ≠ none
  placeable : ∀ scope addon, Placeable w scope addon

/-- Clusters that cannot be installed do not end a run. -/
theorem Installs.returns {cluName : Text} (hw : Installs w cluName) (h : k.1 ≠ cluName) :
    (installCluster w lab failed k).2 = none := by
  unfold installCluster
  dsimp only
  split
  · rfl
  · obtain ⟨r, hr⟩ := Option.ne_none_iff_exists'.mp (hw.others k.1 h)
    rw [hr]

/-- **The node that stands for a cluster** is come to once the cluster is installed. -/
theorem clusterHosts_touched (hw : Installs w k.1) (hall : ∀ x ∈ lab.members k.1, x.1 ∉ failed)
    (h : host ∈ clusterHosts lab k) :
    ∃ op, .touch op host ∈ (installCluster w lab failed k).1 := by
  have hmiss : ((lab.members k.1).filter (·.1 ∈ failed)).map Prod.fst = [] := by
    rw [List.map_eq_nil_iff, List.filter_eq_nil_iff]
    exact fun x hx hf => hall x hx (of_decide_eq_true hf)
  unfold installCluster
  dsimp only
  rw [if_neg (not_not.mpr hmiss), hw.this]
  unfold clusterHosts at h
  split at h
  · exact absurd h List.not_mem_nil
  · rename_i hset
    have hwait : (waitSystemReady lab k).2 = none := by
      unfold waitSystemReady
      dsimp only
      split
      · rfl
      · rename_i hs
        rw [if_neg fun hc => hset ⟨hs, hc⟩]
    rcases List.mem_append.mp h with h | h
    · split at h
      · exact absurd h List.not_mem_nil
      · rename_i hs
        rw [List.mem_singleton.mp h]
        refine ⟨.systemWait, subset_andThen _ _ ?_⟩
        rw [andThen_none]
        unfold waitSystemReady
        dsimp only
        rw [if_neg hs, if_neg fun hc => hset ⟨hs, hc⟩]
        exact List.mem_append_right _ List.mem_cons_self
    · split at h
      · exact absurd h List.not_mem_nil
      · rename_i hne
        rw [List.mem_singleton.mp h]
        refine ⟨.clusterAddon, ?_⟩
        obtain ⟨a, as, ha⟩ := List.exists_cons_of_ne_nil hne
        rw [andThen_log (andThen_returns_iff.mpr ⟨rfl, hwait⟩), ha]
        refine List.mem_append_right _ ?_
        rw [clusterAddons, if_neg List.not_mem_nil, if_pos (hw.placeable _ _)]
        exact subset_andThen _ _ touch_mem_addonEvents

/-- With `--keep` a node of a cluster is waited for. -/
theorem touched_of_inCluster (hkeep : keep = true) (hne : lab.kclusters ≠ []) (hx : x ∈ lab.nodes)
    (hin : x.2.inCluster = true)
    (hret : ∀ y ∈ lab.nodes, y.2.inCluster = true → w.waitKept y.1 = none ∧
      (y.2.existing = false → lab.isHarvesterNode y.2 = false →
        w.locateKvmHost y.1 = none ∧ w.rebootVm y.1 = none)) :
    .touch .sshWait x.1 ∈ (afterCreate w lab keep (created, none)).1 := by
  unfold afterCreate
  dsimp only
  rw [if_neg hne, andThen_none]
  refine subset_andThen _ _ (subset_andThen _ _ (subset_andThen _ _ (subset_andThen _ _ ?_)))
  refine List.mem_append_right _ ?_
  unfold rebootAndWaitKeptNodes
  rw [if_pos hkeep]
  have hfirst : ∀ y ∈ lab.nodes.filter fun x =>
      x.2.inCluster && !x.2.existing && !lab.isHarvesterNode x.2, (rebootKept w y).2 = none :=
    fun y hy => by
      obtain ⟨hy, hc⟩ := List.mem_filter.mp hy
      simp only [Bool.and_eq_true, Bool.not_eq_true'] at hc
      obtain ⟨hlocate, hreboot⟩ := (hret y hy hc.1.1).2 hc.1.2 hc.2
      unfold rebootKept
      rw [hlocate]
      exact hreboot
  have hwait : ∀ y ∈ lab.nodes.filter (·.2.inCluster), (waitKept w y).2 = none := fun y hy =>
    (hret y (List.mem_filter.mp hy).1 (List.mem_filter.mp hy).2).1
  rw [andThen_log (runAll_returns_iff.mpr hfirst), runAll_log hwait]
  refine List.mem_append_right _ ?_
  exact List.mem_flatMap.mpr ⟨x, List.mem_filter.mpr ⟨hx, hin⟩, List.mem_cons_self⟩

/-- The node that stands for a cluster whose nodes are all there is come to. -/
theorem touched_of_named (hw : Installs w k.1) (hret : (rebootAndWaitKeptNodes w lab keep).2 = none)
    (hk : k ∈ lab.kclusters) (hall : ∀ x ∈ lab.members k.1, x.1 ∉ failedNodes created)
    (hhost : host ∈ clusterHosts lab k) :
    ∃ op, .touch op host ∈ (afterCreate w lab keep (created, none)).1 := by
  obtain ⟨pre, post, hsplit⟩ := List.append_of_mem hk
  have hne : lab.kclusters ≠ [] := List.ne_nil_of_mem hk
  let kept := (rebootAndWaitKeptNodes w lab keep).1
  -- the reboot of the kept nodes writes no status, so the nodes of the cluster are still there
  have hfailed : failedNodes (created ++ kept) ⊆ failedNodes created := fun n hn => by
    rw [mem_failedNodes] at hn ⊢
    rcases List.mem_append.mp hn with hn | hn
    · exact hn
    · obtain ⟨_, _, hn⟩ := rebootAndWaitKeptNodes_kind hn
      cases hn
  have hthere : ∀ x ∈ lab.members k.1, x.1 ∉ failedNodes (created ++ kept) := fun x hx hf =>
    hall x hx (hfailed hf)
  obtain ⟨op, ht⟩ := clusterHosts_touched hw hthere hhost
  refine ⟨op, ?_⟩
  unfold afterCreate
  dsimp only
  rw [if_neg hne, andThen_none]
  refine subset_andThen _ _ (subset_andThen _ _ (subset_andThen _ _ ?_))
  have hkept : (created ++ kept, (rebootAndWaitKeptNodes w lab keep).2) =
      (created ++ kept, none) := Prod.ext rfl hret
  rw [hkept, andThen_none, if_neg hne, hsplit]
  refine List.mem_append_right _ (mem_runAll_of_returns (fun j hj => ?_) ht)
  have hnd := lab.nodup_kclusters
  rw [hsplit, List.map_append, List.map_cons] at hnd
  refine hw.returns fun hjk => ?_
  exact (List.nodup_append.mp hnd).2.2 _ (List.mem_map_of_mem hj) _ List.mem_cons_self hjk

/-- A world in which one cluster alone can be installed. -/
def onlyInstalls (cluName : Text) : World :=
  { answering with installCluster := fun c => if c = cluName then none else some .systemExit }

theorem installs_onlyInstalls (cluName : Text) : Installs (onlyInstalls cluName) cluName where
  this := if_pos rfl
  others := fun c hc => by
    have hfail : (onlyInstalls cluName).installCluster c = some .systemExit := if_neg hc
    exact hfail ▸ Option.some_ne_none _
  placeable := fun _ _ => ⟨rfl, rfl⟩

/-- **When nothing is run against a failed node.** -/
theorem untouched_iff (hc : ∀ op host, .touch op host ∉ created) :
    Untouched lab keep created ↔ Spared lab keep (failedNodes created) := by
  refine ⟨fun h => ⟨fun hkeep hne x hx hin => ?_, fun k hk hall host hhost => ?_⟩,
    untouched_of_spared hc⟩
  · exact h (onlyInstalls []) .sshWait x.1
      (touched_of_inCluster hkeep hne hx hin fun _ _ _ => ⟨rfl, fun _ _ => ⟨rfl, rfl⟩⟩)
  · have hret : (rebootAndWaitKeptNodes (onlyInstalls k.1) lab keep).2 = none :=
      rebootAndWaitKeptNodes_returns fun _ _ _ _ => ⟨rfl, fun _ _ => ⟨rfl, rfl⟩⟩
    obtain ⟨op, ht⟩ := touched_of_named (installs_onlyInstalls k.1) hret hk hall hhost
    exact h (onlyInstalls k.1) op host ht

/-- What the nodes of a lab leave, created one after the other. -/
def createdLog (w : World) (lab : Lab) (keep : Bool) : Log :=
  (runAll (createOneVm w keep) lab.nodes).1

/-- The first node is kept by a backend that cannot be asked. -/
def unaskable : World :=
  { answering with
    vmIsReusable := fun name => if name = "a".toList then .error (.runtimeError []) else .ok true }

/-- A cluster whose add-ons run from a node that is not one of its own. -/
def managed : Lab where
  nodes := [("a".toList, ⟨false, none, "server".toList, []⟩),
    ("b".toList, ⟨false, some "k".toList, "server".toList, []⟩)]
  kclusters := [("k".toList, ⟨"k3s".toList, "a".toList, ["ui".toList]⟩)]
  nodup_nodes := by decide
  nodup_kclusters := by decide
  harvester_nodes := by decide

theorem untouched_iff_unclustered :
    Untouched twoNodes true [.node "b".toList FAILED] := by
  refine (untouched_iff fun op host h => by cases List.mem_singleton.mp h).mpr ⟨?_, ?_⟩
  · decide
  · decide

/-- With `--keep` a node whose backend could not be asked is rebooted; without it the add-ons of another
cluster run from a node that was not provisioned. -/
theorem failed_touched :
    ¬ Untouched twoNodes true (createdLog unaskable twoNodes true) ∧
    ¬ Untouched managed false (createdLog unprovisioned managed false) :=
  ⟨fun h => h answering .reboot "a".toList (by decide) (by decide),
    fun h => h answering .clusterAddon "a".toList (by decide) (by decide)⟩

end LabInABox.Setup
