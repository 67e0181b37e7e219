import LabInABox.Attempt
import LabInABox.Cluster.Addons
import LabInABox.Cluster.Provides

/-!
# Running the add-ons of the lists

Model of the loops over the add-on lists in `_install_cluster_addons` and `phase_vm_addons`
(`scripts/setup_lab.py`): the elements of a list as they are, names or mappings, and what each loop makes
of them.

* The log of a loop is the names of the add-ons it ran, in order. A run that exits with an error does not
  end the loop.
* `addonInstaller` says that an add-on has a script, and `nodeKind` is `targets.node_kind`.

Results:
* `clusterAddons_eq`: the loop of a kcluster runs each name once, in the order of first occurrence.
* `addonsRun_iff`: every listed add-on is run exactly when no kcluster lists a mapping, where each has a
  script and meets its requirements.
-/

namespace LabInABox.Cluster

open Text

/-- Why a loop ends before the end of its list. -/
inductive Halt
  | typeError
  | die (e : Die)
  | notFound (addon : Text)
  | issue (addon : Text) (i : Issue)
  deriving DecidableEq

/-- The entry as a string, which is what `" ".join` takes. -/
def Entry.str? : Entry → Option Text
  | plain addon => some addon
  | mapping _ => none

section Loops

variable (plugin : Text → Plugin) (addonInstaller : Text → Bool) (nodeKind : Text → Text) (lab : Lab)

/-- The loop of `_install_cluster_addons`, after some add-ons. -/
def clusterAddons (k : Text × Kcluster) : List Text → List Text → Attempt Text Halt
  | _, [] => ([], none)
  | installed, addon :: addons =>
    if addon ∈ installed then clusterAddons k installed addons
    else if addonInstaller addon = false then ([], some (.notFound addon))
    else
      match clusterProvides plugin k.1 k.2 with
      | .error e => ([], some (.die e))
      | .ok provides =>
        match requirementIssue (plugin addon) targetContainer (k.2.get "clu_type".toList) (some provides) with
        | some i => ([], some (.issue addon i))
        | none => andThen ([addon], none) fun _ => clusterAddons k (addon :: installed) addons

/-- `_install_cluster_addons`. -/
def installClusterAddons (k : Text × Kcluster) : Attempt Text Halt :=
  match clusterServices plugin k.1 k.2 with
  | .error e => ([], some (.die e))
  | .ok services =>
    let addons := services.map Entry.plain ++ k.2.addons
    if addons = [] then ([], none)
    else
      -- the list is joined for a message before the loop
      match addons.mapM Entry.str? with
      | none => ([], some .typeError)
      | some names => clusterAddons plugin addonInstaller k [] names

/-- An element of the loop of `phase_vm_addons`. -/
def vmAddon (vmName : Text) (entry : Entry) : Attempt Text Halt :=
  match addonEntryName entry with
  | .error e => ([], some (.die e))
  | .ok addon =>
    if addonInstaller addon = false then ([], some (.notFound addon))
    else
      match requirementIssue (plugin addon) (nodeKind vmName) [] none with
      | some i => ([], some (.issue addon i))
      | none => ([addon], none)

/-- The loop of `phase_vm_addons` over the list of a node. -/
def vmAddons (n : Text × Node) : Attempt Text Halt :=
  runAll (vmAddon plugin addonInstaller nodeKind n.1) n.2.addons

/-! ## What is asked of the loops -/

/-- Every add-on that a list or a service names has a script and meets its requirements. -/
def Ready : Prop :=
  (∀ k ∈ lab.kclusters, ∃ services provides, clusterServices plugin k.1 k.2 = .ok services ∧
    clusterProvides plugin k.1 k.2 = .ok provides ∧
      ∀ addon ∈ services ++ k.2.addons.flatMap Entry.keys, addonInstaller addon = true ∧
        requirementIssue (plugin addon) targetContainer (k.2.get "clu_type".toList) (some provides) = none) ∧
  ∀ n ∈ lab.nodes, ∀ addon ∈ n.2.addons.flatMap Entry.keys, addonInstaller addon = true ∧
    requirementIssue (plugin addon) (nodeKind n.1) [] none = none

/-- **Every list is run**: no loop ends early, that of a kcluster runs its services and then the names of
its list, each once and in order, that of a node the names of its list, and `collect_addon_names` reports
the names of the lists. -/
def AddonsRun : Prop :=
  ∃ reported, collectAddonNames lab = .ok reported ∧
    (∀ k ∈ lab.kclusters, ∃ services names, clusterServices plugin k.1 k.2 = .ok services ∧
      addonNames k.2.addons = .ok names ∧ names ⊆ reported ∧
        installClusterAddons plugin addonInstaller k = ((services ++ names).eraseDups, none)) ∧
    ∀ n ∈ lab.nodes, ∃ names, addonNames n.2.addons = .ok names ∧ names ⊆ reported ∧
      vmAddons plugin addonInstaller nodeKind n = (names, none)

/-- Every entry is a name. -/
def Plain (entries : List Entry) : Prop := ∀ e ∈ entries, ∃ addon, e = .plain addon

end Loops

/-! ## The loops -/

section Runs

variable {plugin : Text → Plugin} {addonInstaller : Text → Bool} {nodeKind : Text → Text} {lab : Lab}

theorem mapM_str?_eq_some_iff : ∀ {entries : List Entry} {names : List Text},
    entries.mapM Entry.str? = some names ↔ entries = names.map Entry.plain
  | [], names => by
    rw [List.mapM_nil, eq_comm (a := ([] : List Entry)), List.map_eq_nil_iff, eq_comm]
    exact Option.some_inj
  | e :: entries, names => by
    rw [List.mapM_cons]
    cases e with
    | mapping keys =>
      refine ⟨fun h => (by cases h), fun h => ?_⟩
      cases names with
      | nil => cases h
      | cons name names => cases h
    | plain addon =>
      cases names with
      | nil =>
        refine ⟨fun h => ?_, fun h => (by cases h)⟩
        cases hm : entries.mapM Entry.str? with
        | none =>
          rw [hm] at h
          cases h
        | some ns =>
          rw [hm] at h
          cases h
      | cons name names =>
        rw [List.map_cons, List.cons.injEq, Entry.plain.injEq, ← mapM_str?_eq_some_iff]
        cases entries.mapM Entry.str? with
        | none => exact ⟨fun h => (by cases h), fun h => (by cases h.2)⟩
        | some ns =>
          show some (addon :: ns) = some (name :: names) ↔ _
          rw [Option.some_inj, Option.some_inj, List.cons.injEq]

theorem plain_iff {entries : List Entry} : Plain entries ↔ ∃ names, entries.mapM Entry.str? = some names := by
  simp only [mapM_str?_eq_some_iff]
  constructor
  · intro h
    induction entries with
    | nil => exact ⟨[], rfl⟩
    | cons e entries ih =>
      obtain ⟨⟨addon, rfl⟩, hrest⟩ := List.forall_mem_cons.mp h
      obtain ⟨names, rfl⟩ := ih hrest
      exact ⟨addon :: names, rfl⟩
  · rintro ⟨names, rfl⟩ e he
    obtain ⟨name, _, rfl⟩ := List.mem_map.mp he
    exact ⟨name, rfl⟩

theorem addonNames_map_plain : ∀ names : List Text, addonNames (names.map Entry.plain) = .ok names
  | [] => rfl
  | name :: names => by
    have h := addonNames_map_plain names
    unfold addonNames at h ⊢
    rw [List.map_cons, List.mapM_cons, h]
    rfl

/-- **The loop of a kcluster** runs each name once, in the order of first occurrence. -/
theorem clusterAddons_eq {k : Text × Kcluster} {provides : List Need} {names : List Text}
    (hp : clusterProvides plugin k.1 k.2 = .ok provides)
    (h : ∀ addon ∈ names, addonInstaller addon = true ∧
      requirementIssue (plugin addon) targetContainer (k.2.get "clu_type".toList) (some provides) = none)
    (installed : List Text) :
    clusterAddons plugin addonInstaller k installed names =
      ((names.filter fun a => !installed.contains a).eraseDups, none) := by
  induction names generalizing installed with
  | nil => rfl
  | cons addon names ih =>
    obtain ⟨⟨hi, hr⟩, hrest⟩ := List.forall_mem_cons.mp h
    unfold clusterAddons
    by_cases hmem : addon ∈ installed
    · rw [if_pos hmem, ih hrest, List.filter_cons_of_neg]
      simpa using hmem
    · have hfilter : (names.filter fun a => !(addon :: installed).contains a) =
          (names.filter fun a => !installed.contains a).filter fun a => !a == addon := by
        rw [List.filter_filter]
        refine List.filter_congr fun a _ => ?_
        rw [List.contains_cons, Bool.not_or]
      rw [if_neg hmem, if_neg (by rw [hi]; decide), hp]
      dsimp only
      rw [hr]
      dsimp only
      rw [andThen_none, ih hrest, List.filter_cons_of_pos (by simpa using hmem), List.eraseDups_cons, hfilter]
      rfl

theorem vmAddons_eq {n : Text × Node} {names : List Text} (hn : addonNames n.2.addons = .ok names)
    (h : ∀ addon ∈ n.2.addons.flatMap Entry.keys, addonInstaller addon = true ∧
      requirementIssue (plugin addon) (nodeKind n.1) [] none = none) :
    vmAddons plugin addonInstaller nodeKind n = (names, none) := by
  unfold vmAddons
  generalize n.2.addons = entries at hn h
  induction entries generalizing names with
  | nil =>
    obtain rfl := Except.ok.inj hn
    rfl
  | cons e entries ih =>
    unfold addonNames at hn ih
    rw [List.mapM_cons] at hn
    obtain ⟨addon, he, hn⟩ := bind_eq_ok.mp hn
    obtain ⟨rest, hrest, hn⟩ := bind_eq_ok.mp hn
    obtain rfl := Except.ok.inj hn
    obtain ⟨hi, hr⟩ := h addon (by
      rw [List.flatMap_cons, addonEntryName_eq_ok.mp he]
      exact List.mem_cons_self)
    have hvm : vmAddon plugin addonInstaller nodeKind n.1 e = ([addon], none) := by
      unfold vmAddon
      rw [he]
      dsimp only
      rw [if_neg (by rw [hi]; decide), hr]
    rw [runAll, hvm, andThen_none, ih hrest fun a ha => h a (by
      rw [List.flatMap_cons]
      exact List.mem_append_right _ ha)]
    rfl

theorem collectAddonNames_of_wellFormed (h : WellFormed lab.entries) :
    ∃ reported, collectAddonNames lab = .ok reported ∧ ∀ addon, addon ∈ reported ↔ Listed lab.entries addon := by
  obtain ⟨reported, hr⟩ := collectAddonNames_isOk_iff.mpr h
  exact ⟨reported, hr, fun addon => mem_collectAddonNames_iff hr⟩

/-- A list of entries within those of the lab has its names, and they are reported. -/
theorem exists_addonNames {entries : List Entry} {reported : List Text} (h : WellFormed lab.entries)
    (hr : ∀ addon, addon ∈ reported ↔ Listed lab.entries addon) (hsub : entries ⊆ lab.entries) :
    ∃ names, addonNames entries = .ok names ∧ names ⊆ reported := by
  obtain ⟨names, hn⟩ := addonNames_isOk_iff.mpr fun e he => h e (hsub he)
  refine ⟨names, hn, fun addon ha => ?_⟩
  obtain ⟨e, he, hkeys⟩ := (mem_addonNames hn).mp ha
  exact (hr addon).mpr ⟨e, hsub he, hkeys⟩

/-- The loop of a kcluster that lists names only. -/
theorem installClusterAddons_plain {k : Text × Kcluster} {services names : List Text} {provides : List Need}
    (hk : k.2.addons = names.map Entry.plain) (hs : clusterServices plugin k.1 k.2 = .ok services)
    (hp : clusterProvides plugin k.1 k.2 = .ok provides)
    (h : ∀ addon ∈ services ++ k.2.addons.flatMap Entry.keys, addonInstaller addon = true ∧
      requirementIssue (plugin addon) targetContainer (k.2.get "clu_type".toList) (some provides) = none) :
    installClusterAddons plugin addonInstaller k = ((services ++ names).eraseDups, none) := by
  have hkeys : (names.map Entry.plain).flatMap Entry.keys = names := by
    rw [List.flatMap_map]
    exact List.flatMap_singleton' names
  have hmap : (services.map Entry.plain ++ names.map Entry.plain).mapM Entry.str? = some (services ++ names) := by
    rw [mapM_str?_eq_some_iff, List.map_append]
  rw [hk, hkeys] at h
  unfold installClusterAddons
  rw [hs]
  dsimp only
  rw [hk, hmap]
  dsimp only
  split
  · rename_i hnil
    rw [← List.map_append, List.map_eq_nil_iff] at hnil
    rw [hnil]
    rfl
  · have hfilter : (services ++ names).filter (fun a => !([] : List Text).contains a) = services ++ names :=
      List.filter_eq_self.mpr fun a _ => rfl
    rw [clusterAddons_eq hp h, hfilter]

/-- A mapping in the list of a kcluster ends its loop before the first add-on. -/
theorem installClusterAddons_mapping {k : Text × Kcluster} {services : List Text} (hk : ¬ Plain k.2.addons)
    (hs : clusterServices plugin k.1 k.2 = .ok services) :
    installClusterAddons plugin addonInstaller k = ([], some .typeError) := by
  have hne : services.map Entry.plain ++ k.2.addons ≠ [] := by
    intro h
    rw [List.append_eq_nil_iff] at h
    rw [h.2] at hk
    exact hk fun e he => absurd he List.not_mem_nil
  have hnone : (services.map Entry.plain ++ k.2.addons).mapM Entry.str? = none := by
    rw [Option.eq_none_iff_forall_ne_some]
    intro names hn
    refine hk fun e he => ?_
    exact plain_iff.mpr ⟨names, hn⟩ e (List.mem_append_right _ he)
  unfold installClusterAddons
  rw [hs]
  dsimp only
  rw [if_neg hne, hnone]

/-- **The lists are run** exactly when no kcluster lists a mapping, where every add-on has a script and meets
its requirements. -/
theorem addonsRun_iff (hw : WellFormed lab.entries) (hr : Ready plugin addonInstaller nodeKind lab) :
    AddonsRun plugin addonInstaller nodeKind lab ↔ ∀ k ∈ lab.kclusters, Plain k.2.addons := by
  obtain ⟨hclusters, hnodes⟩ := hr
  constructor
  · rintro ⟨_, _, hrun, _⟩ k hk
    by_contra hplain
    obtain ⟨services, names, hs, _, _, hloop⟩ := hrun k hk
    rw [installClusterAddons_mapping hplain hs] at hloop
    exact absurd (congrArg Prod.snd hloop) (Option.some_ne_none _)
  · intro hplain
    obtain ⟨reported, hreported, hmem⟩ := collectAddonNames_of_wellFormed hw
    refine ⟨reported, hreported, fun k hk => ?_, fun n hn => ?_⟩
    · have hsub : k.2.addons ⊆ lab.entries := fun e he =>
        List.mem_append_left _ (List.mem_flatMap.mpr ⟨k, hk, he⟩)
      obtain ⟨names, hnames, hrep⟩ := exists_addonNames hw hmem hsub
      obtain ⟨services, provides, hs, hp, hready⟩ := hclusters k hk
      obtain ⟨names', hplain'⟩ := plain_iff.mp (hplain k hk)
      rw [mapM_str?_eq_some_iff] at hplain'
      have hsame : names' = names := by
        rw [hplain', addonNames_map_plain] at hnames
        exact Except.ok.inj hnames
      rw [hsame] at hplain'
      exact ⟨services, names, hs, hnames, hrep, installClusterAddons_plain hplain' hs hp hready⟩
    · have hsub : n.2.addons ⊆ lab.entries := fun e he =>
        List.mem_append_right _ (List.mem_flatMap.mpr ⟨n, hn, he⟩)
      obtain ⟨names, hnames, hrep⟩ := exists_addonNames hw hmem hsub
      exact ⟨names, hnames, hrep, vmAddons_eq hnames (hnodes n hn)⟩

end Runs

/-- A kcluster that lists an add-on, or one with its own configuration. -/
def rancherLab (entry : Entry) : Lab where
  kclusters := [("c1".toList, ⟨[("clu_type".toList, "k3s".toList)], [entry]⟩)]
  nodes := [("n1".toList, ⟨some "c1".toList, [], none, [.mapping ["vlan".toList]]⟩)]
  sections := []
  nodup_kclusters := List.nodup_singleton _
  nodup_nodes := List.nodup_singleton _

/-- An add-on that runs anywhere. -/
def anyPlugin : Plugin := { defaultPlugin with targets := ["container".toList, "vm".toList] }

theorem ready_rancherLab {entry : Entry} (h : entry = .plain "rancher".toList ∨ entry = .mapping ["rancher".toList]) :
    Ready (fun _ => anyPlugin) (fun _ => true) (fun _ => "vm".toList) (rancherLab entry) := by
  constructor
  · intro k hk
    obtain rfl := List.mem_singleton.mp hk
    rcases h with rfl | rfl
    · exact ⟨[], [clusterIngress, clusterStorageclass], by decide, by decide, by decide⟩
    · exact ⟨[], [clusterIngress, clusterStorageclass], by decide, by decide, by decide⟩
  · intro n hn
    obtain rfl := List.mem_singleton.mp hn
    decide

theorem addonsRun_iff_rancherLab :
    AddonsRun (fun _ => anyPlugin) (fun _ => true) (fun _ => "vm".toList) (rancherLab (.plain "rancher".toList)) := by
  refine (addonsRun_iff ?_ (ready_rancherLab (Or.inl rfl))).mpr fun k hk => ?_
  · decide
  · obtain rfl := List.mem_singleton.mp hk
    exact fun e he => ⟨_, List.mem_singleton.mp he⟩

/-- A mapping in the list of a kcluster. -/
theorem mapping_not_run : ¬ ∀ lab : Lab, WellFormed lab.entries →
    Ready (fun _ => anyPlugin) (fun _ => true) (fun _ => "vm".toList) lab →
      AddonsRun (fun _ => anyPlugin) (fun _ => true) (fun _ => "vm".toList) lab := by
  intro h
  obtain ⟨_, _, hrun, _⟩ := h (rancherLab (.mapping ["rancher".toList])) (by decide)
    (ready_rancherLab (Or.inr rfl))
  obtain ⟨services, names, hs, _, _, hloop⟩ := hrun _ List.mem_cons_self
  have hmapping : ¬ Plain [Entry.mapping ["rancher".toList]] := by
    intro hplain
    obtain ⟨addon, he⟩ := hplain _ List.mem_cons_self
    cases he
  rw [installClusterAddons_mapping hmapping hs] at hloop
  exact absurd (congrArg Prod.snd hloop) (Option.some_ne_none _)

end LabInABox.Cluster
