import LabInABox.Cluster.Lab

/-!
# What a kcluster is given to cover its needs

Model of `cluster_plan` (`libs/k8s.py`) with what it calls (`cluster_needs`, `cluster_choice`), and of
the distributions of `DISTROS` with what each bundles.

* `plugin` is what `load_plugin` gives for an add-on. The add-ons are programs of their own, and what
  they declare about themselves is a parameter.

Results:
* `planFor_spec`: one need is refused (`Refused`), or what is planned for it is what its field or the
  default picks (`Picks`), both read off the fields of the kcluster and its add-on list.
* `clusterPlan_spec`: the same of the whole plan.
-/

namespace LabInABox.Cluster

open Text

/-! ## Add-ons and distributions -/

/-- What a cluster has or lacks: one of the two below, or a name that no distribution knows. -/
abbrev Need := Text

/-- `CLUSTER_INGRESS`. -/
def clusterIngress : Need := "ingress".toList

/-- `CLUSTER_STORAGECLASS`. -/
def clusterStorageclass : Need := "storageclass".toList

/-- What an add-on declares: `requires_kubernetes` is empty for any distribution. -/
structure Plugin where
  targets : List Text
  requiresKubernetes : List Text
  requiresCluster : List Need
  providesCluster : List Need

/-- `DEFAULT_PLUGIN`. -/
def defaultPlugin : Plugin where
  targets := ["container".toList]
  requiresKubernetes := []
  requiresCluster := []
  providesCluster := []

/-- A `K8sDistro`: what it brings, and whether it can be told to leave that out. -/
structure Distro where
  name : Text
  bundled : List Need
  bundledChoice : List (Need × Text)
  canDisableBundled : Bool

/-- `distro.bundled_choice.get(need)`. -/
def Distro.own (distro : Distro) (need : Need) : Option Text := distro.bundledChoice.lookup need

/-- `HarvesterDistro`. -/
def harvester : Distro where
  name := "harvester".toList
  bundled := [clusterIngress, clusterStorageclass]
  bundledChoice := [(clusterIngress, "nginx".toList), (clusterStorageclass, "longhorn".toList)]
  canDisableBundled := false

/-- `K3sDistro`. -/
def k3s : Distro where
  name := "k3s".toList
  bundled := [clusterIngress, clusterStorageclass]
  bundledChoice := [(clusterIngress, "traefik".toList), (clusterStorageclass, "local-path".toList)]
  canDisableBundled := true

/-- `KubeadmDistro`. -/
def kubeadm : Distro where
  name := "kubeadm".toList
  bundled := []
  bundledChoice := []
  canDisableBundled := true

/-- `RKE2Distro`. -/
def rke2 : Distro where
  name := "rke2".toList
  bundled := [clusterIngress]
  bundledChoice := [(clusterIngress, "nginx".toList)]
  canDisableBundled := true

/-- `DISTROS`. -/
def distros : List (Text × Distro) :=
  [("harvester".toList, harvester), ("k3s".toList, k3s), ("kubeadm".toList, kubeadm),
    ("rke2".toList, rke2)]

/-- `_known_distro(clu_type)`. -/
def knownDistro (cluType : Text) : Option Distro := distros.lookup cluType

/-- `_known_distro(clu_cfg.get("clu_type"))`. -/
def Kcluster.distro (cfg : Kcluster) : Option Distro := knownDistro (cfg.get "clu_type".toList)

/-- A row of `_CLUSTER_CHOICES`: the add-on each value of the field stands for. -/
structure Choice where
  need : Need
  field : Text
  choices : List (Text × Text)
  default : Text

/-- `INGRESS_ADDONS` and `DEFAULT_INGRESS`. -/
def ingressChoice : Choice where
  need := clusterIngress
  field := "clu_ingress".toList
  choices := [("nginx".toList, "nginx".toList), ("traefik".toList, "traefik".toList),
    ("none".toList, [])]
  default := "nginx".toList

/-- `STORAGE_ADDONS` and `DEFAULT_STORAGE`. -/
def storageChoice : Choice where
  need := clusterStorageclass
  field := "clu_storage".toList
  choices := [("longhorn".toList, "longhorn".toList), ("local-path".toList, "local_path".toList),
    ("none".toList, [])]
  default := "longhorn".toList

/-- `_CLUSTER_CHOICES`. -/
def clusterChoices : List Choice := [ingressChoice, storageChoice]

/-! ## The plan -/

variable (plugin : Text → Plugin) (cluName : Text) (cfg : Kcluster) (distro : Distro)

/-- `cluster_needs(definition, clu_name)`. -/
def clusterNeeds : Except Die (List Need) :=
  (addonNames cfg.addons).map fun names => names.flatMap fun addon => (plugin addon).requiresCluster

/-- `str(clu_cfg.get(field) or "").strip().lower()`. -/
def asked (c : Choice) : Text := lower (strip (cfg.get c.field))

/-- `str(clu_cfg.get(field) or own or default).strip().lower()`. -/
def reading (own : Option Text) (c : Choice) : Text :=
  let value := cfg.get c.field
  lower (strip (if value = [] then own.getD c.default else value))

/-- `cluster_choice(definition, clu_name, need)`. -/
def clusterChoice (need : Need) : Except Die Text :=
  match clusterChoices.find? fun c => c.need = need with
  | none => .ok []
  | some c =>
    let choice := reading cfg (cfg.distro.bind fun distro => distro.own need) c
    if choice ∈ c.choices.map Prod.fst then .ok choice
    else .error (.unknown cluName c.field choice (c.choices.map Prod.fst))

/-- The loop body of `cluster_plan` for one need: what is planned for it, if anything. -/
def planFor (listed : List Text) (required : List Need) (c : Choice) :
    Except Die (Option (Need × Text)) :=
  if asked cfg c = [] ∧ (c.need ∈ distro.bundled ∨ c.need ∉ required) then .ok none
  else
    match clusterChoice cluName cfg c.need with
    | .error e => .error e
    | .ok choice =>
      if distro.own c.need = some choice then .ok none
      else if c.need ∈ distro.bundled ∧ distro.canDisableBundled = false then
        .error (.replaced cluName c.field choice distro.name ((distro.own c.need).getD "None".toList))
      else
        let addon := (c.choices.lookup choice).getD []
        if addon ≠ [] ∧ addon ∉ listed then .ok (some (c.need, addon)) else .ok none

/-- `cluster_plan(definition, clu_name)`. -/
def clusterPlan : Except Die (List (Need × Text)) :=
  match cfg.distro with
  | none => .ok []
  | some distro => do
    let listed ← addonNames cfg.addons
    let required ← clusterNeeds plugin cfg
    let plan ← clusterChoices.mapM (planFor cluName cfg distro listed required)
    return plan.reduceOption

/-- `cluster_services(definition, clu_name)`. -/
def clusterServices : Except Die (List Text) :=
  (clusterPlan plugin cluName cfg).map fun plan => plan.map Prod.snd

/-! ## What the fields and the add-on list say -/

/-- A listed add-on requires the need. -/
def Required (need : Need) : Prop :=
  ∃ addon, Listed cfg.addons addon ∧ need ∈ (plugin addon).requiresCluster

/-- The need is passed over: the lab asks for nothing, and the distribution brings it or nothing
requires it. -/
def PassedOver (c : Choice) : Prop :=
  asked cfg c = [] ∧ (c.need ∈ distro.bundled ∨ ¬ Required plugin cfg c.need)

/-- The need is refused: its field names nothing, or something else than the distribution's own where
that cannot be left out. -/
def Refused (c : Choice) : Prop :=
  ¬ PassedOver plugin cfg distro c ∧
    (reading cfg (distro.own c.need) c ∉ c.choices.map Prod.fst ∨
      distro.own c.need ≠ some (reading cfg (distro.own c.need) c) ∧
        c.need ∈ distro.bundled ∧ distro.canDisableBundled = false)

/-- The field of the need, or the default, picks the add-on: it is not the distribution's own and is not
in the kcluster's list. -/
def Picks (c : Choice) (addon : Text) : Prop :=
  ¬ PassedOver plugin cfg distro c ∧
    distro.own c.need ≠ some (reading cfg (distro.own c.need) c) ∧
      c.choices.lookup (reading cfg (distro.own c.need) c) = some addon ∧
        addon ≠ [] ∧ ¬ Listed cfg.addons addon

/-- The plan of the kcluster is refused. -/
def PlanRefused : Prop :=
  ∃ distro, cfg.distro = some distro ∧
    (¬ WellFormed cfg.addons ∨ ∃ c ∈ clusterChoices, Refused plugin cfg distro c)

variable {plugin cluName cfg distro}

theorem mem_clusterNeeds {required : List Need} (h : clusterNeeds plugin cfg = .ok required)
    {need : Need} : need ∈ required ↔ Required plugin cfg need := by
  unfold clusterNeeds at h
  cases hn : addonNames cfg.addons with
  | error e => rw [hn] at h; exact absurd h nofun
  | ok names =>
    rw [hn] at h
    obtain rfl := Except.ok.inj h
    simp only [List.mem_flatMap, mem_addonNames hn, Required]

theorem clusterChoice_eq {c : Choice} (hc : c ∈ clusterChoices) (hd : cfg.distro = some distro) :
    clusterChoice cluName cfg c.need =
      let choice := reading cfg (distro.own c.need) c
      if choice ∈ c.choices.map Prod.fst then .ok choice
      else .error (.unknown cluName c.field choice (c.choices.map Prod.fst)) := by
  have hf : clusterChoices.find? (fun c' => c'.need = c.need) = some c := by
    simp only [clusterChoices, List.mem_cons, List.not_mem_nil, or_false] at hc
    rcases hc with rfl | rfl <;> rfl
  unfold clusterChoice
  rw [hf, hd]
  rfl

section PlanFor

variable {listed : List Text} {required : List Need} {c : Choice}

/-- **One need**: it is refused, or what is planned is what the field, or the default, picks. -/
theorem planFor_spec (hc : c ∈ clusterChoices) (hd : cfg.distro = some distro)
    (hl : ∀ addon, addon ∈ listed ↔ Listed cfg.addons addon)
    (hr : c.need ∈ required ↔ Required plugin cfg c.need) :
    (Refused plugin cfg distro c ∧ ∃ e, planFor cluName cfg distro listed required c = .error e) ∨
    (¬ Refused plugin cfg distro c ∧ ∃ o, planFor cluName cfg distro listed required c = .ok o ∧
      ∀ p, o = some p ↔ p.1 = c.need ∧ Picks plugin cfg distro c p.2) := by
  have hpass : (asked cfg c = [] ∧ (c.need ∈ distro.bundled ∨ c.need ∉ required)) ↔
      PassedOver plugin cfg distro c := by
    unfold PassedOver
    rw [not_congr hr]
  unfold planFor
  by_cases hp : PassedOver plugin cfg distro c
  · rw [if_pos (hpass.mpr hp)]
    refine Or.inr ⟨fun h => h.1 hp, none, rfl, fun p => ⟨nofun, fun h => ?_⟩⟩
    exact absurd hp h.2.1
  rw [if_neg (mt hpass.mp hp), clusterChoice_eq hc hd]
  dsimp only
  by_cases hm : reading cfg (distro.own c.need) c ∈ c.choices.map Prod.fst
  swap
  · rw [if_neg hm]
    exact Or.inl ⟨⟨hp, Or.inl hm⟩, _, rfl⟩
  rw [if_pos hm]
  dsimp only
  by_cases ho : distro.own c.need = some (reading cfg (distro.own c.need) c)
  · rw [if_pos ho]
    refine Or.inr ⟨fun h => h.2.elim (fun h => h hm) fun h => h.1 ho, none, rfl, fun p =>
      ⟨nofun, fun h => ?_⟩⟩
    exact absurd ho h.2.2.1
  rw [if_neg ho]
  by_cases hb : c.need ∈ distro.bundled ∧ distro.canDisableBundled = false
  · rw [if_pos hb]
    exact Or.inl ⟨⟨hp, Or.inr ⟨ho, hb⟩⟩, _, rfl⟩
  rw [if_neg hb]
  obtain ⟨addon, ha⟩ := exists_lookup_of_mem hm
  have hpick : ∀ a, Picks plugin cfg distro c a ↔ a = addon ∧ addon ≠ [] ∧ addon ∉ listed := by
    intro a
    unfold Picks
    rw [ha, hl]
    constructor
    · rintro ⟨_, _, ha', hne, hnl⟩
      obtain rfl := Option.some.inj ha'
      exact ⟨rfl, hne, hnl⟩
    · rintro ⟨rfl, hne, hnl⟩
      exact ⟨hp, ho, rfl, hne, hnl⟩
  rw [ha, Option.getD_some]
  refine Or.inr ⟨fun h => h.2.elim (fun h => h hm) fun h => hb h.2, ?_⟩
  by_cases hadd : addon ≠ [] ∧ addon ∉ listed
  · rw [if_pos hadd]
    refine ⟨_, rfl, fun p => ?_⟩
    rw [hpick, Option.some.injEq]
    constructor
    · rintro rfl
      exact ⟨rfl, rfl, hadd⟩
    · rintro ⟨hneed, haddon, _⟩
      exact Prod.ext hneed.symm haddon.symm
  · rw [if_neg hadd]
    refine ⟨_, rfl, fun p => ⟨nofun, fun h => ?_⟩⟩
    exact absurd ((hpick p.2).mp h.2).2 hadd

end PlanFor

theorem clusterNeeds_eq {names : List Text} (hn : addonNames cfg.addons = .ok names) :
    clusterNeeds plugin cfg = .ok (names.flatMap fun addon => (plugin addon).requiresCluster) := by
  unfold clusterNeeds
  rw [hn]
  rfl

theorem clusterPlan_eq (hd : cfg.distro = some distro) {names : List Text}
    (hn : addonNames cfg.addons = .ok names) :
    clusterPlan plugin cluName cfg = (clusterChoices.mapM (planFor cluName cfg distro names
      (names.flatMap fun addon => (plugin addon).requiresCluster))).map List.reduceOption := by
  unfold clusterPlan
  rw [hd]
  dsimp only
  rw [hn, clusterNeeds_eq hn]
  dsimp only [bind, Except.bind]
  cases clusterChoices.mapM (planFor cluName cfg distro names _) <;> rfl

/-- **The plan**: it is refused, or it holds what the fields and the defaults pick. -/
theorem clusterPlan_spec :
    (PlanRefused plugin cfg ∧ ∃ e, clusterPlan plugin cluName cfg = .error e) ∨
    (¬ PlanRefused plugin cfg ∧ ∃ plan, clusterPlan plugin cluName cfg = .ok plan ∧
      ∀ p, p ∈ plan ↔ ∃ distro, cfg.distro = some distro ∧
        ∃ c ∈ clusterChoices, p.1 = c.need ∧ Picks plugin cfg distro c p.2) := by
  unfold PlanRefused
  cases hd : cfg.distro with
  | none =>
    have hplan : clusterPlan plugin cluName cfg = .ok [] := by
      unfold clusterPlan
      rw [hd]
    rw [hplan]
    exact Or.inr ⟨nofun, [], rfl, fun p => ⟨nofun, nofun⟩⟩
  | some distro =>
    simp only [Option.some.injEq, exists_eq_left']
    cases hn : addonNames cfg.addons with
    | error e =>
      have hw : ¬ WellFormed cfg.addons := by
        rw [← addonNames_isOk_iff, hn]
        nofun
      refine Or.inl ⟨Or.inl hw, e, ?_⟩
      unfold clusterPlan
      rw [hd]
      dsimp only
      rw [hn]
      rfl
    | ok names =>
      have hw : WellFormed cfg.addons := addonNames_isOk_iff.mp ⟨names, hn⟩
      rw [clusterPlan_eq hd hn, or_iff_right (not_not_intro hw)]
      have hspec := mapM_select fun c hc => @planFor_spec plugin cluName cfg distro names _ c hc hd
        (fun addon => mem_addonNames hn) (mem_clusterNeeds (clusterNeeds_eq hn))
      obtain ⟨hr, e, he⟩ | ⟨hr, os, hos, hpick⟩ := hspec
      · rw [he]
        exact Or.inl ⟨hr, e, rfl⟩
      · rw [hos]
        exact Or.inr ⟨hr, os.reduceOption, rfl, hpick⟩

end LabInABox.Cluster
