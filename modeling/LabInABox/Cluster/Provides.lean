import LabInABox.Cluster.Plan

/-!
# What a kcluster is taken to provide

Model of `cluster_disabled` and `cluster_provides` (`libs/k8s.py`) and of `requirement_issue`
(`libs/apps.py`), which weighs an add-on's `requires_cluster` against what the kcluster provides.

`ProvidesSound` says that what `cluster_provides` promises is supplied on the installed cluster: the
distribution brings it and was not told to leave it out, an add-on is planned for it, or a listed
add-on provides it.

Results:
* `mem_clusterDisabled_iff`, `mem_clusterProvides_iff`: what is left out, and what is promised.
* `requirementIssue_container`: an add-on without an issue requires promised needs only.
* `providesSound_iff`: the promise is kept exactly when each bundled need is kept, replaced or provided
  (`Covered`), or the plan is refused.
* `none_breaks_promise`: with `clu_ingress` "none" an RKE2 cluster is promised the ingress controller
  it is installed without.
-/

namespace LabInABox.Cluster

open Text

/-! ## What is left out, and what is promised -/

/-- `cluster_disabled(clu_ctx, distro)`. -/
def clusterDisabled (cfg : Kcluster) (distro : Distro) : List Need :=
  clusterChoices.filterMap fun c =>
    match distro.own c.need with
    | none => none
    | some own => if reading cfg (some own) c = own then none else some c.need

variable (plugin : Text → Plugin) (cluName : Text) (cfg : Kcluster)

/-- `cluster_provides(definition, clu_name)`. -/
def clusterProvides : Except Die (List Need) := do
  let bundled := match cfg.distro with
    | none => []
    | some distro => distro.bundled
  let plan ← clusterPlan plugin cluName cfg
  let names ← addonNames cfg.addons
  return bundled ++ plan.map Prod.fst ++ names.flatMap fun addon => (plugin addon).providesCluster

/-- A listed add-on provides the need. -/
def Provided (need : Need) : Prop :=
  ∃ addon, Listed cfg.addons addon ∧ need ∈ (plugin addon).providesCluster

/-! ## What an add-on requires -/

/-- `TARGET_CONTAINER`. -/
def targetContainer : Text := "container".toList

/-- `_NEEDS_TEXT`. -/
def needsText : List (Need × Text × Text) :=
  [(clusterIngress, "an ingress controller".toList, "clu_ingress".toList),
    (clusterStorageclass, "a default storage class".toList, "clu_storage".toList)]

/-- What is wrong with a placement. -/
inductive Issue
  | target (targetKind : Text) (supported : List Text)
  | distribution (required : List Text) (cluType : Text)
  | missing (what field : Text) (need : Need)
  deriving DecidableEq

/-- A list of names as Python shows it. -/
def showNames (names : List Text) : Text :=
  '[' :: ", ".toList.intercalate (names.map fun n => '\'' :: n ++ ['\'']) ++ [']']

/-- The text of an issue. -/
def Issue.text : Issue → Text
  | target targetKind supported => "does not support target '".toList ++ targetKind ++
      "' — supported: ".toList ++
      (if supported = [] then "none".toList else ", ".toList.intercalate supported)
  | distribution required cluType => "requires a Kubernetes distribution in ".toList ++
      showNames required ++ " — cluster is '".toList ++ cluType ++ "'".toList
  | missing what field need => "needs ".toList ++ what ++
      " and this kcluster has none — set ".toList ++ field ++
      " on it, or add an add-on that provides '".toList ++ need ++ "'".toList

/-- `requirement_issue(plugin, target_kind, clu_type, provides)`. -/
def requirementIssue (plugin : Plugin) (targetKind cluType : Text) (provides : Option (List Need)) :
    Option Issue :=
  if targetKind ∉ plugin.targets then some (.target targetKind plugin.targets)
  else if targetKind = targetContainer then
    if plugin.requiresKubernetes ≠ [] ∧ cluType ∉ plugin.requiresKubernetes then
      some (.distribution plugin.requiresKubernetes cluType)
    else
      match provides with
      | none => none
      | some provides =>
        (plugin.requiresCluster.find? fun need => need ∉ provides).map fun need =>
          let (what, field) := (needsText.lookup need).getD (need, [])
          .missing what (if field = [] then need else field) need
  else none

/-- **An add-on without an issue** on a kcluster requires what is promised only. -/
theorem requirementIssue_container {p : Plugin} {cluType : Text} {provides : List Need}
    (h : requirementIssue p targetContainer cluType (some provides) = none) :
    ∀ need ∈ p.requiresCluster, need ∈ provides := by
  unfold requirementIssue at h
  split at h
  · exact absurd h nofun
  · rw [if_pos rfl] at h
    split at h
    · exact absurd h nofun
    · rw [Option.map_eq_none_iff, List.find?_eq_none] at h
      intro need hneed
      simpa using h need hneed

/-! ## The promise -/

/-- The need is supplied on the installed cluster. -/
def Supplied (plan : List (Need × Text)) (need : Need) : Prop :=
  (∃ distro, cfg.distro = some distro ∧ need ∈ distro.bundled ∧ need ∉ clusterDisabled cfg distro) ∨
    (∃ addon, (need, addon) ∈ plan) ∨ Provided plugin cfg need

/-- What `cluster_provides` promises is supplied, and so is all that an add-on requires which passes
its check against the promise. -/
def ProvidesSound : Prop :=
  ∀ plan provides, clusterPlan plugin cluName cfg = .ok plan →
    clusterProvides plugin cluName cfg = .ok provides →
      (∀ need ∈ provides, Supplied plugin cfg plan need) ∧
      ∀ (p : Plugin) (cluType : Text),
        requirementIssue p targetContainer cluType (some provides) = none →
          ∀ need ∈ p.requiresCluster, Supplied plugin cfg plan need

/-- A bundled need is kept, replaced by an add-on the kcluster does not list, or provided by one it
lists. -/
def Covered (distro : Distro) (c : Choice) : Prop :=
  cfg.get c.field = [] ∨ distro.own c.need = some (asked cfg c) ∨
    (∃ addon, c.choices.lookup (asked cfg c) = some addon ∧ addon ≠ [] ∧
      ¬ Listed cfg.addons addon) ∨
    Provided plugin cfg c.need

variable {plugin cluName cfg} {distro : Distro} {c : Choice}

theorem mem_distros (hd : cfg.distro = some distro) : distro ∈ distros.map Prod.snd := by
  obtain ⟨l₁, l₂, h, _⟩ := List.lookup_eq_some_iff.mp hd
  rw [h, List.map_append]
  exact List.mem_append_right _ List.mem_cons_self

/-- Every need a distribution bundles has a row, and a value that stands for the distribution's own. -/
theorem exists_own_of_bundled (hd : cfg.distro = some distro) {need : Need}
    (hb : need ∈ distro.bundled) :
    (∃ c ∈ clusterChoices, c.need = need) ∧ ∃ own, distro.own need = some own := by
  have hall : ∀ d ∈ distros.map Prod.snd, ∀ n ∈ d.bundled,
      (∃ c ∈ clusterChoices, c.need = n) ∧ (d.own n).isSome = true := by decide
  obtain ⟨hc, ho⟩ := hall distro (mem_distros hd) need hb
  exact ⟨hc, Option.isSome_iff_exists.mp ho⟩

theorem eq_of_need_eq {c c' : Choice} (hc : c ∈ clusterChoices) (hc' : c' ∈ clusterChoices)
    (h : c.need = c'.need) : c = c' := by
  have hne : ingressChoice.need ≠ storageChoice.need := by decide
  simp only [clusterChoices, List.mem_cons, List.not_mem_nil, or_false] at hc hc'
  rcases hc with rfl | rfl <;> rcases hc' with rfl | rfl
  · rfl
  · exact absurd h hne
  · exact absurd h.symm hne
  · rfl

/-- The value that stands for a distribution's own is written as it is read. -/
theorem lower_strip_own (hd : cfg.distro = some distro) {need : Need} {own : Text}
    (ho : distro.own need = some own) : lower (strip own) = own := by
  have hall : ∀ d ∈ distros.map Prod.snd, ∀ e ∈ d.bundledChoice, lower (strip e.2) = e.2 := by
    decide
  obtain ⟨l₁, l₂, h, _⟩ := List.lookup_eq_some_iff.mp ho
  refine hall distro (mem_distros hd) (need, own) ?_
  rw [h]
  exact List.mem_append_right _ List.mem_cons_self

theorem reading_own (own : Text) (c : Choice) :
    reading cfg (some own) c = if cfg.get c.field = [] then lower (strip own) else asked cfg c := by
  unfold reading asked
  by_cases h : cfg.get c.field = []
  · simp only [if_pos h, Option.getD_some]
  · simp only [if_neg h]

theorem mem_clusterDisabled_iff (hc : c ∈ clusterChoices) :
    c.need ∈ clusterDisabled cfg distro ↔
      ∃ own, distro.own c.need = some own ∧ reading cfg (some own) c ≠ own := by
  unfold clusterDisabled
  rw [List.mem_filterMap]
  constructor
  · rintro ⟨c', hc', h⟩
    cases ho : distro.own c'.need with
    | none => rw [ho] at h; exact absurd h nofun
    | some own =>
      simp only [ho] at h
      split_ifs at h with hr
      obtain rfl := eq_of_need_eq hc hc' (Option.some.inj h).symm
      exact ⟨own, ho, hr⟩
  · rintro ⟨own, ho, hr⟩
    refine ⟨c, hc, ?_⟩
    simp only [ho, if_neg hr]

/-- A bundled need is left in when its field is empty or names the distribution's own. -/
theorem not_mem_clusterDisabled_iff (hd : cfg.distro = some distro) (hc : c ∈ clusterChoices)
    (hb : c.need ∈ distro.bundled) :
    c.need ∉ clusterDisabled cfg distro ↔
      cfg.get c.field = [] ∨ distro.own c.need = some (asked cfg c) := by
  obtain ⟨_, own, ho⟩ := exists_own_of_bundled hd hb
  rw [mem_clusterDisabled_iff hc, ho, Option.some.injEq]
  simp only [Option.some.injEq, exists_eq_left', not_not]
  rw [reading_own]
  by_cases h : cfg.get c.field = []
  · rw [if_pos h]
    exact ⟨fun _ => Or.inl h, fun _ => lower_strip_own hd ho⟩
  · rw [if_neg h, or_iff_right h, eq_comm]

/-- A bundled need is picked an add-on when its field names one the kcluster does not list. -/
theorem picks_bundled_iff (hd : cfg.distro = some distro) (hb : c.need ∈ distro.bundled)
    {addon : Text} :
    Picks plugin cfg distro c addon ↔ asked cfg c ≠ [] ∧ distro.own c.need ≠ some (asked cfg c) ∧
      c.choices.lookup (asked cfg c) = some addon ∧ addon ≠ [] ∧ ¬ Listed cfg.addons addon := by
  obtain ⟨_, own, ho⟩ := exists_own_of_bundled hd hb
  have hpass : PassedOver plugin cfg distro c ↔ asked cfg c = [] :=
    and_iff_left (Or.inl hb)
  unfold Picks
  rw [hpass]
  refine and_congr_right fun hne => ?_
  have hf : cfg.get c.field ≠ [] := by
    intro hf
    apply hne
    unfold asked
    rw [hf]
    rfl
  rw [ho, reading_own, if_neg hf]

theorem mem_clusterProvides_iff {plan : List (Need × Text)} {provides : List Need}
    (hp : clusterPlan plugin cluName cfg = .ok plan)
    (h : clusterProvides plugin cluName cfg = .ok provides) {need : Need} :
    need ∈ provides ↔ (∃ distro, cfg.distro = some distro ∧ need ∈ distro.bundled) ∨
      (∃ addon, (need, addon) ∈ plan) ∨ Provided plugin cfg need := by
  unfold clusterProvides at h
  rw [hp] at h
  cases hn : addonNames cfg.addons with
  | error e => rw [hn] at h; exact absurd h nofun
  | ok names =>
    rw [hn] at h
    obtain rfl := Except.ok.inj h
    unfold Provided
    simp only [List.mem_append, List.mem_flatMap, mem_addonNames hn, List.mem_map, Prod.exists,
      exists_and_right, exists_eq_right, or_assoc]
    refine or_congr ?_ Iff.rfl
    cases cfg.distro with
    | none => simp
    | some distro => simp

theorem exists_clusterProvides {plan : List (Need × Text)} (hd : cfg.distro = some distro)
    (hr : ¬ PlanRefused plugin cfg) (hp : clusterPlan plugin cluName cfg = .ok plan) :
    ∃ provides, clusterProvides plugin cluName cfg = .ok provides := by
  have hw : WellFormed cfg.addons := by
    by_contra hw
    exact hr ⟨distro, hd, Or.inl hw⟩
  obtain ⟨names, hn⟩ := addonNames_isOk_iff.mpr hw
  unfold clusterProvides
  rw [hp, hn]
  exact ⟨_, rfl⟩

/-- What the plan covers of the bundled needs. -/
theorem exists_mem_plan_iff {plan : List (Need × Text)} (hd : cfg.distro = some distro)
    (hc : c ∈ clusterChoices) (hmem : ∀ p, p ∈ plan ↔ ∃ distro, cfg.distro = some distro ∧
      ∃ c ∈ clusterChoices, p.1 = c.need ∧ Picks plugin cfg distro c p.2) :
    (∃ addon, (c.need, addon) ∈ plan) ↔ ∃ addon, Picks plugin cfg distro c addon := by
  refine exists_congr fun addon => ?_
  rw [hmem]
  constructor
  · rintro ⟨distro', hd', c', hc', hneed, hpick⟩
    obtain rfl := Option.some.inj (hd.symm.trans hd')
    obtain rfl := eq_of_need_eq hc hc' hneed
    exact hpick
  · intro hpick
    exact ⟨distro, hd, c, hc, rfl, hpick⟩

/-- **A bundled need** is supplied exactly when it is covered. -/
theorem supplied_iff_covered {plan : List (Need × Text)} (hd : cfg.distro = some distro)
    (hc : c ∈ clusterChoices) (hb : c.need ∈ distro.bundled)
    (hmem : ∀ p, p ∈ plan ↔ ∃ distro, cfg.distro = some distro ∧
      ∃ c ∈ clusterChoices, p.1 = c.need ∧ Picks plugin cfg distro c p.2) :
    Supplied plugin cfg plan c.need ↔ Covered plugin cfg distro c := by
  have hkept : (∃ d, cfg.distro = some d ∧ c.need ∈ d.bundled ∧ c.need ∉ clusterDisabled cfg d) ↔
      cfg.get c.field = [] ∨ distro.own c.need = some (asked cfg c) := by
    rw [← not_mem_clusterDisabled_iff hd hc hb, hd]
    simp only [Option.some.injEq, exists_eq_left', and_iff_right hb]
  have hne : ∀ addon, c.choices.lookup (asked cfg c) = some addon → asked cfg c ≠ [] := by
    have hall : ∀ c ∈ clusterChoices, c.choices.lookup [] = none := by decide
    intro addon h he
    rw [he, hall c hc] at h
    exact absurd h nofun
  unfold Supplied Covered
  rw [hkept, exists_mem_plan_iff hd hc hmem]
  simp only [picks_bundled_iff hd hb]
  constructor
  · rintro ((h | h) | ⟨addon, _, _, hl, ha, hn⟩ | h)
    · exact Or.inl h
    · exact Or.inr (Or.inl h)
    · exact Or.inr (Or.inr (Or.inl ⟨addon, hl, ha, hn⟩))
    · exact Or.inr (Or.inr (Or.inr h))
  · rintro (h | h | ⟨addon, hl, ha, hn⟩ | h)
    · exact Or.inl (Or.inl h)
    · exact Or.inl (Or.inr h)
    · by_cases ho : distro.own c.need = some (asked cfg c)
      · exact Or.inl (Or.inr ho)
      · exact Or.inr (Or.inl ⟨addon, hne addon hl, ho, hl, ha, hn⟩)
    · exact Or.inr (Or.inr h)

variable (plugin cluName cfg)

/-- **Every promise is kept** exactly when every bundled need is covered, or the plan is refused. -/
theorem providesSound_iff : ProvidesSound plugin cluName cfg ↔
    PlanRefused plugin cfg ∨ ∀ distro, cfg.distro = some distro →
      ∀ c ∈ clusterChoices, c.need ∈ distro.bundled → Covered plugin cfg distro c := by
  obtain ⟨hr, e, he⟩ | ⟨hr, plan, hp, hmem⟩ :=
    @clusterPlan_spec plugin cluName cfg
  · refine ⟨fun _ => Or.inl hr, fun _ plan provides hp => ?_⟩
    rw [he] at hp
    exact absurd hp nofun
  rw [or_iff_right hr]
  constructor
  · intro hs distro hd c hc hb
    obtain ⟨provides, hpr⟩ := exists_clusterProvides hd hr hp
    refine (supplied_iff_covered hd hc hb hmem).mp ((hs plan provides hp hpr).1 c.need ?_)
    exact (mem_clusterProvides_iff hp hpr).mpr (Or.inl ⟨distro, hd, hb⟩)
  · intro hcov plan' provides hp' hpr
    obtain rfl := Except.ok.inj (hp.symm.trans hp')
    have hall : ∀ need ∈ provides, Supplied plugin cfg plan need := by
      intro need hneed
      obtain ⟨distro, hd, hb⟩ | h := (mem_clusterProvides_iff hp hpr).mp hneed
      · obtain ⟨⟨c, hc, rfl⟩, _⟩ := exists_own_of_bundled hd hb
        exact (supplied_iff_covered hd hc hb hmem).mpr (hcov distro hd c hc hb)
      · exact Or.inr h
    exact ⟨hall, fun p cluType hi need hneed =>
      hall need (requirementIssue_container hi need hneed)⟩

/-- An RKE2 kcluster whose `clu_ingress` is "none", and an add-on that requires an ingress controller. -/
theorem none_breaks_promise :
    let cfg : Kcluster :=
      ⟨[("clu_type".toList, "rke2".toList), ("clu_ingress".toList, "none".toList)],
        [.plain "rancher".toList]⟩
    let plugin : Text → Plugin := fun _ => { defaultPlugin with requiresCluster := [clusterIngress] }
    clusterProvides plugin "c1".toList cfg = .ok [clusterIngress] ∧
      clusterDisabled cfg rke2 = [clusterIngress] ∧ clusterPlan plugin "c1".toList cfg = .ok [] ∧
      requirementIssue (plugin "rancher".toList) targetContainer "rke2".toList
        (some [clusterIngress]) = none ∧
      ¬ ProvidesSound plugin "c1".toList cfg := by
  intro cfg plugin
  have hpr : clusterProvides plugin "c1".toList cfg = .ok [clusterIngress] := by decide
  have hdis : clusterDisabled cfg rke2 = [clusterIngress] := by decide
  have hp : clusterPlan plugin "c1".toList cfg = .ok [] := by decide
  have hi : requirementIssue (plugin "rancher".toList) targetContainer "rke2".toList
      (some [clusterIngress]) = none := by decide
  refine ⟨hpr, hdis, hp, hi, fun hs => ?_⟩
  obtain ⟨distro, hd, _, hn⟩ | ⟨addon, ha⟩ | ⟨addon, _, ha⟩ :=
    (hs [] [clusterIngress] hp hpr).1 clusterIngress List.mem_cons_self
  · have hrke2 : cfg.distro = some rke2 := rfl
    obtain rfl := Option.some.inj (hrke2.symm.trans hd)
    rw [hdis] at hn
    exact hn List.mem_cons_self
  · exact absurd ha List.not_mem_nil
  · exact absurd ha List.not_mem_nil

end LabInABox.Cluster
