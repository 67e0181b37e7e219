import LabInABox.Cluster.Plan

/-!
# The add-ons of a lab

Model of the walks over a lab definition that collect its add-ons: `collect_addon_names`
(`libs/apps.py`), whose add-ons `validate_addon_configs` validates before any VM is created,
`schemas_of` (`libs/migrations.py`) for a lab, whose pending migrations `require_current` checks, and
what a run installs (`_install_cluster_addons` and `phase_vm_addons` in `scripts/setup_lab.py`).

Results:
* `mem_collectAddonNames_iff`, `addonSchema_mem_schemasOf_iff`: what the first two walks collect.
* `runs_iff`: what a run installs is what the lists name and what the kclusters' fields pick.
* `listsAgree_iff`: the walks agree exactly when every add-on that is picked is in some list, and no
  list names a section of the definition itself.
* `picked_longhorn_missed`: a K3s kcluster with `clu_storage` "longhorn" runs an add-on that is neither
  validated nor among the schemas.
-/

namespace LabInABox.Cluster

open Text

variable (plugin : Text → Plugin) (lab : Lab)

/-! ## The walks -/

/-- Every entry of every add-on list, of the kclusters and then of the nodes. -/
def Lab.entries : List Entry :=
  (lab.kclusters.flatMap fun k => k.2.addons) ++ lab.nodes.flatMap fun n => n.2.addons

/-- `collect_addon_names(definition)`. -/
def collectAddonNames : Except Die (List Text) :=
  (addonNames lab.entries).map fun names => sorted names.eraseDups

/-- `_BASE_SECTIONS`. -/
def baseSections : List Text :=
  ["common".toList, "nodes".toList, "disabled_nodes".toList, "kclusters".toList, "cluster".toList,
    "pxe".toList]

/-- `LAB_VERSIONS_KEY`. -/
def labVersionsKey : Text := "schema_versions".toList

/-- `"addon:" + n`. -/
def addonSchema (addon : Text) : Text := "addon:".toList ++ addon

/-- `schemas_of("lab", data)`. -/
def schemasOf : Except Die (List Text) :=
  (collectAddonNames lab).map fun names =>
    "lab".toList :: sorted (((names ++ lab.sections).eraseDups.filter fun n =>
      n ∉ baseSections ∧ n ≠ labVersionsKey).map addonSchema)

/-- A run installs the add-on: it is a service of a kcluster, or an entry of a kcluster's or a node's
list. -/
def Runs (addon : Text) : Prop :=
  (∃ k ∈ lab.kclusters, ∃ services,
    clusterServices plugin k.1 (lab.cluSection k.1) = .ok services ∧ addon ∈ services) ∨
  (∃ k ∈ lab.kclusters, Listed k.2.addons addon) ∨ ∃ n ∈ lab.nodes, Listed n.2.addons addon

/-- Whatever a run installs is validated first, and its schema is one the lab is written against. -/
def ListsAgree : Prop :=
  ∀ names schemas, collectAddonNames lab = .ok names → schemasOf lab = .ok schemas →
    ∀ addon, Runs plugin lab addon → addon ∈ names ∧ addonSchema addon ∈ schemas

/-- A field of some kcluster, or the default, picks the add-on. -/
def Picked (addon : Text) : Prop :=
  ∃ k ∈ lab.kclusters, ¬ PlanRefused plugin k.2 ∧ ∃ distro, k.2.distro = some distro ∧
    ∃ c ∈ clusterChoices, Picks plugin k.2 distro c addon

variable {plugin lab}

/-! ## What they collect -/

theorem listed_entries_iff {addon : Text} : Listed lab.entries addon ↔
    (∃ k ∈ lab.kclusters, Listed k.2.addons addon) ∨ ∃ n ∈ lab.nodes, Listed n.2.addons addon := by
  unfold Listed Lab.entries
  simp only [List.mem_append, List.mem_flatMap, or_and_right, exists_or]
  refine or_congr ?_ ?_
  · constructor
    · rintro ⟨e, ⟨k, hk, he⟩, h⟩
      exact ⟨k, hk, e, he, h⟩
    · rintro ⟨k, hk, e, he, h⟩
      exact ⟨e, ⟨k, hk, he⟩, h⟩
  · constructor
    · rintro ⟨e, ⟨n, hn, he⟩, h⟩
      exact ⟨n, hn, e, he, h⟩
    · rintro ⟨n, hn, e, he, h⟩
      exact ⟨e, ⟨n, hn, he⟩, h⟩

theorem mem_collectAddonNames_iff {names : List Text} (h : collectAddonNames lab = .ok names)
    {addon : Text} : addon ∈ names ↔ Listed lab.entries addon := by
  unfold collectAddonNames at h
  cases hn : addonNames lab.entries with
  | error e => rw [hn] at h; exact absurd h nofun
  | ok ns =>
    rw [hn] at h
    obtain rfl := Except.ok.inj h
    rw [mem_sorted, List.mem_eraseDups, mem_addonNames hn]

theorem collectAddonNames_isOk_iff :
    (∃ names, collectAddonNames lab = .ok names) ↔ WellFormed lab.entries := by
  rw [← addonNames_isOk_iff]
  unfold collectAddonNames
  cases addonNames lab.entries with
  | error e => exact ⟨nofun, nofun⟩
  | ok ns => exact ⟨fun _ => ⟨ns, rfl⟩, fun _ => ⟨_, rfl⟩⟩

theorem addonSchema_mem_schemasOf_iff {schemas : List Text} (h : schemasOf lab = .ok schemas)
    {addon : Text} : addonSchema addon ∈ schemas ↔
      (Listed lab.entries addon ∨ addon ∈ lab.sections) ∧ addon ∉ baseSections ∧
        addon ≠ labVersionsKey := by
  unfold schemasOf at h
  cases hn : collectAddonNames lab with
  | error e => rw [hn] at h; exact absurd h nofun
  | ok names =>
    rw [hn] at h
    obtain rfl := Except.ok.inj h
    have hinj : Function.Injective addonSchema := fun a b h => List.append_cancel_left h
    have hlab : addonSchema addon ≠ "lab".toList := by
      intro h
      have hhead : some 'a' = some 'l' := congrArg List.head? h
      exact absurd hhead (by decide)
    rw [List.mem_cons, or_iff_right hlab, mem_sorted, List.mem_map_of_injective hinj, List.mem_filter,
      List.mem_eraseDups, List.mem_append, mem_collectAddonNames_iff hn, decide_eq_true_eq]

theorem schemasOf_nodup {schemas : List Text} (h : schemasOf lab = .ok schemas) : schemas.Nodup := by
  unfold schemasOf at h
  obtain ⟨names, _, rfl⟩ := map_eq_ok.mp h
  have hinj : Function.Injective addonSchema := fun a b h => List.append_cancel_left h
  rw [List.nodup_cons, mem_sorted, List.mem_map]
  constructor
  · rintro ⟨addon, _, he⟩
    have hhead : some 'a' = some 'l' := congrArg List.head? he
    exact absurd hhead (by decide)
  · exact (List.perm_insertionSort _ _).nodup_iff.mpr (((nodup_eraseDups _).filter _).map hinj)

/-- The schemas depend on the names of the lists and on the sections besides them only. -/
theorem schemasOf_congr_names {lab' : Lab} (hc : collectAddonNames lab = collectAddonNames lab')
    (hs : ∀ names, collectAddonNames lab' = .ok names →
      ∀ n, n ∈ names ∨ n ∈ lab.sections ↔ n ∈ names ∨ n ∈ lab'.sections) :
    schemasOf lab = schemasOf lab' := by
  unfold schemasOf
  rw [hc]
  cases hn : collectAddonNames lab' with
  | error e => rfl
  | ok names =>
    have hinj : Function.Injective addonSchema := fun a b h => List.append_cancel_left h
    refine congrArg (fun l => Except.ok ("lab".toList :: l)) (sorted_congr ?_ ?_ fun s => ?_)
    · exact ((nodup_eraseDups _).filter _).map hinj
    · exact ((nodup_eraseDups _).filter _).map hinj
    · simp only [List.mem_map, List.mem_filter, List.mem_eraseDups, List.mem_append]
      exact exists_congr fun n => and_congr_left fun _ => and_congr_left fun _ => hs names hn n

/-- The schemas of two definitions that name the same add-ons and sections. -/
theorem schemasOf_congr {lab' : Lab} (he : lab.entries = lab'.entries)
    (hs : ∀ n, Listed lab.entries n ∨ n ∈ lab.sections ↔ Listed lab'.entries n ∨ n ∈ lab'.sections) :
    schemasOf lab = schemasOf lab' := by
  have hc : collectAddonNames lab = collectAddonNames lab' := by
    unfold collectAddonNames
    rw [he]
  refine schemasOf_congr_names hc fun names hn n => ?_
  rw [mem_collectAddonNames_iff hn, ← hs n, he]

/-- **What a run installs**: what the lists name, and what the kclusters' fields pick. -/
theorem runs_iff {addon : Text} :
    Runs plugin lab addon ↔ Picked plugin lab addon ∨ Listed lab.entries addon := by
  unfold Runs Picked
  rw [listed_entries_iff]
  refine or_congr (exists_congr fun k => and_congr_right fun hk => ?_) Iff.rfl
  rw [Lab.cluSection_of_mem hk]
  unfold clusterServices
  obtain ⟨hr, e, he⟩ | ⟨hr, plan, hp, hmem⟩ := @clusterPlan_spec plugin k.1 k.2
  · rw [he]
    exact ⟨fun ⟨_, h, _⟩ => absurd h nofun, fun h => absurd hr h.1⟩
  · rw [hp, and_iff_right hr]
    constructor
    · rintro ⟨services, h, ha⟩
      obtain rfl := Except.ok.inj h
      obtain ⟨p, hp, rfl⟩ := List.mem_map.mp ha
      obtain ⟨distro, hd, c, hc, _, hpick⟩ := (hmem p).mp hp
      exact ⟨distro, hd, c, hc, hpick⟩
    · rintro ⟨distro, hd, c, hc, hpick⟩
      exact ⟨_, rfl, List.mem_map.mpr ⟨(c.need, addon),
        (hmem (c.need, addon)).mpr ⟨distro, hd, c, hc, rfl, hpick⟩, rfl⟩⟩

variable (plugin lab)

/-- **The walks agree** exactly when every add-on picked for a kcluster is in some list and no list names
a section of the definition, or an entry ends the walk. -/
theorem listsAgree_iff : ListsAgree plugin lab ↔
    ¬ WellFormed lab.entries ∨
      (∀ addon, Picked plugin lab addon → Listed lab.entries addon) ∧
      ∀ addon, Listed lab.entries addon → addon ∉ baseSections ∧ addon ≠ labVersionsKey := by
  by_cases hw : WellFormed lab.entries
  swap
  · refine ⟨fun _ => Or.inl hw, fun _ names schemas hn => ?_⟩
    exact absurd (collectAddonNames_isOk_iff.mp ⟨names, hn⟩) hw
  rw [or_iff_right (not_not_intro hw)]
  obtain ⟨names, hn⟩ := collectAddonNames_isOk_iff.mpr hw
  obtain ⟨schemas, hs⟩ : ∃ schemas, schemasOf lab = .ok schemas := by
    unfold schemasOf
    rw [hn]
    exact ⟨_, rfl⟩
  constructor
  · intro h
    refine ⟨fun addon hp => ?_, fun addon hl => ?_⟩
    · exact (mem_collectAddonNames_iff hn).mp
        (h names schemas hn hs addon (runs_iff.mpr (Or.inl hp))).1
    · exact ((addonSchema_mem_schemasOf_iff hs).mp
        (h names schemas hn hs addon (runs_iff.mpr (Or.inr hl))).2).2
  · rintro ⟨hpick, hbase⟩ names' schemas' hn' hs' addon hrun
    have hl : Listed lab.entries addon := (runs_iff.mp hrun).elim (hpick addon) id
    exact ⟨(mem_collectAddonNames_iff hn').mpr hl,
      (addonSchema_mem_schemasOf_iff hs').mpr ⟨Or.inl hl, hbase addon hl⟩⟩

/-- A K3s kcluster that takes its storage from Longhorn, which no list of the lab names. -/
def longhornLab : Lab where
  kclusters := [("c1".toList,
    ⟨[("clu_type".toList, "k3s".toList), ("clu_storage".toList, "longhorn".toList)], []⟩)]
  nodes := [("n1".toList, ⟨some "c1".toList, [], none, []⟩)]
  sections := ["common".toList, "kclusters".toList, "nodes".toList]
  nodup_kclusters := by decide
  nodup_nodes := by decide

theorem picked_longhorn_missed :
    Runs (fun _ => defaultPlugin) longhornLab "longhorn".toList ∧
      collectAddonNames longhornLab = .ok [] ∧ schemasOf longhornLab = .ok ["lab".toList] ∧
      ¬ ListsAgree (fun _ => defaultPlugin) longhornLab := by
  have hs : clusterServices (fun _ => defaultPlugin) "c1".toList (longhornLab.cluSection "c1".toList) =
      .ok ["longhorn".toList] := by decide
  have hrun : Runs (fun _ => defaultPlugin) longhornLab "longhorn".toList :=
    Or.inl ⟨_, List.mem_cons_self, _, hs, List.mem_cons_self⟩
  have hn : collectAddonNames longhornLab = .ok [] := by decide
  have hsch : schemasOf longhornLab = .ok ["lab".toList] := by decide
  refine ⟨hrun, hn, hsch, fun h => ?_⟩
  exact absurd (h [] _ hn hsch _ hrun).1 List.not_mem_nil

end LabInABox.Cluster
