import LabInABox.Schema.Steps

/-!
# What a lab's Rancher is installed from

What `rancher_2_0` (`libs/migrations.py`) leaves of the effective configuration of each placement of the
"rancher" add-on: its section, and the section overlaid by an override, as `addon_node_config`
(`libs/k8s.py`) reads them.

* The section is edited first, and is what every override then inherits from.

Results:
* `overrides_overOverrides`: the walk edits each override by itself.
* `rancherKept_iff`: each placement installs what it did exactly when no override changes or empties the
  release of a section that set one, where it inherits what the section was given for it (`Fits`).
-/

namespace LabInABox.Schema

open Text

/-! ## The placements -/

/-- `"rancher"`. -/
def rancher : Text := "rancher".toList

/-- `"rancher_rel"`. -/
def rancherRel : Text := "rancher_rel".toList

/-- `"rancher_repo_url"`. -/
def rancherRepoUrl : Text := "rancher_repo_url".toList

/-- `"rancher_helm_chart"`. -/
def rancherHelmChart : Text := "rancher_helm_chart".toList

/-- The overrides of an add-on in an entry. -/
def AddonEntry.overrides (name : Text) : AddonEntry → List Config
  | plain _ => []
  | mapping items => items.filterMap fun p =>
    match p.2 with
    | .config c => if p.1 = name then some c else none
    | .plain _ => none

/-- The overrides of an add-on in the lists of some kclusters or nodes. -/
def overridesOf (name : Text) (owners : List (Text × Owner)) : List Config :=
  owners.flatMap fun o => o.2.addons.flatMap (AddonEntry.overrides name)

/-- The overrides of an add-on in a definition. -/
def Definition.overrides (d : Definition) (name : Text) : List Config :=
  overridesOf name d.kclusters ++ overridesOf name d.nodes

/-- The text of the release. -/
def relText (cfg : Config) : Text := ((cfg rancherRel).map Value.str).getD []

/-- **A placement installs what it did**: with a release, from the repository it had, or the stable one, and
the chart it had, or that of its release; without one, from the same. -/
def Kept (before after : Config) : Prop :=
  if isSet (before rancherRel) = true then
    after rancherRepoUrl =
      (if isSet (before rancherRepoUrl) = true then before rancherRepoUrl else some (.text rancherStableUrl)) ∧
    after rancherHelmChart =
      (if isSet (before rancherHelmChart) = true then before rancherHelmChart
        else some (.text (relText before ++ "/rancher".toList)))
  else after rancherRepoUrl = before rancherRepoUrl ∧ after rancherHelmChart = before rancherHelmChart

/-- Every placement of a definition installs what it did. -/
def RancherKept (d d' : Definition) : Prop :=
  Kept (d.inherited rancher) (d'.inherited rancher) ∧
    List.Forall₂ (fun o o' => Kept (effectiveConfig (d.inherited rancher) o)
      (effectiveConfig (d'.inherited rancher) o')) (d.overrides rancher) (d'.overrides rancher)

/-- **An override fits its section**, where the section sets a release: an override with a release of another
name has a chart of its own or inherits one that was there, and one that empties the release has a repository
and a chart of its own or inherits those that were there. -/
def Fits (inherited override : Config) : Prop :=
  isSet (inherited rancherRel) = true → (override rancherRel).isSome = true →
    if isSet (override rancherRel) = true then
      (override rancherHelmChart).isSome = true ∨ isSet (inherited rancherHelmChart) = true ∨
        relText override = relText inherited
    else
      ((override rancherRepoUrl).isSome = true ∨ isSet (inherited rancherRepoUrl) = true) ∧
        ((override rancherHelmChart).isSome = true ∨ isSet (inherited rancherHelmChart) = true)

/-! ## The walk -/

section Walk

variable {name : Text} {e : Edit Text Config}

theorem AddonEntry.overrides_edit (a : AddonEntry) :
    (AddonEntry.edit name e a).1.overrides name = (a.overrides name).map fun c => (e c).1 := by
  cases a with
  | plain addon => rfl
  | mapping items =>
    unfold AddonEntry.edit AddonEntry.overrides Edit.list
    dsimp only
    rw [List.filterMap_map, List.map_filterMap]
    refine List.filterMap_congr fun p _ => ?_
    obtain ⟨n, sec⟩ := p
    unfold Function.comp Edit.onKey Edit.values
    dsimp only
    by_cases hn : n = name
    · rw [if_pos hn]
      cases sec with
      | plain v => rfl
      | config c =>
        unfold Section.edit
        dsimp only
        rw [if_pos hn, if_pos hn]
        rfl
    · rw [if_neg hn]
      cases sec with
      | plain v => rfl
      | config c =>
        unfold Edit.skip
        dsimp only
        rw [if_neg hn]
        rfl

theorem overridesOf_edit (owners : List (Text × Owner)) :
    overridesOf name (Edit.list (Edit.values fun _ => Owner.edit name e) owners).1 =
      (overridesOf name owners).map fun c => (e c).1 := by
  unfold overridesOf Edit.list
  rw [List.flatMap_map, List.map_flatMap]
  refine List.flatMap_congr fun o _ => ?_
  unfold Edit.values Owner.edit Edit.list
  dsimp only
  rw [List.flatMap_map, List.map_flatMap]
  exact List.flatMap_congr fun a _ => AddonEntry.overrides_edit a

/-- **Each override is edited by itself**, with the section it inherits from. -/
theorem overrides_overOverrides (e : Config → Edit Text Config) (d : Definition) :
    (overOverrides name e d).1.overrides name =
      (d.overrides name).map fun c => (e (d.inherited name) c).1 := by
  unfold Definition.overrides overOverrides onOwners
  dsimp only
  rw [overridesOf_edit, overridesOf_edit, List.map_append]

theorem inherited_overOverrides (e : Config → Edit Text Config) (d : Definition) :
    (overOverrides name e d).1.inherited name = d.inherited name := rfl

theorem overrides_onSection (s : Edit Text Section) (d : Definition) :
    (onSection name s d).1.overrides name = d.overrides name := by
  unfold Definition.overrides
  rw [(onSection_rest name s d).1, (onSection_rest name s d).2.1]

theorem inherited_onSection_self (he : (e fun _ => none).1 = fun _ => none) (d : Definition) :
    (onSection name (Section.edit e) d).1.inherited name = (e (d.inherited name)).1 := by
  unfold Definition.inherited
  rw [lookup_onSection, if_pos rfl]
  cases d.sections.lookup name with
  | none => exact he.symm
  | some sec =>
    cases sec with
    | config c => rfl
    | plain v => exact he.symm

end Walk

/-! ## One key of a placement -/

section Keys

theorem isSet_text {t : Text} (h : t ≠ []) : isSet (some (.text t)) = true := decide_eq_true h

theorem or_self_of_isSet {s t : Option Value} (h : isSet s = true) : s.or t = s := by
  cases s with
  | none => cases h
  | some v => rfl

/-- What a placement is given for a key that it leaves unset. -/
def given (release : Bool) (value : Option Value) (new : Text) (own : Option Value) : Option Value :=
  if release = true ∧ isSet value = false then some (.text new) else own

variable {s o : Option Value} {n m : Text} {release : Bool}

theorem given_of_isSet (h : isSet s = true) : given release s n o = o :=
  if_neg fun hc => absurd (h.symm.trans hc.2) (by decide)

theorem given_false (value own : Option Value) (new : Text) : given false value new own = own :=
  if_neg fun hc => (by cases hc.1)

/-- **A key of a placement with a release**: what it had or the new value, unless it inherits another new
value. -/
theorem given_or_of_release (hn : n ≠ []) :
    (given true (o.or (given release s n s)) m o).or (given release s n s) =
        (if isSet (o.or s) = true then o.or s else some (.text m)) ↔
      (o.isSome = true ∨ release = false ∨ isSet s = true ∨ n = m) := by
  cases o with
  | some v =>
    refine iff_of_true ?_ (Or.inl rfl)
    rw [Option.some_or, Option.some_or]
    cases hv : isSet (some v) with
    | true =>
      rw [given_of_isSet hv, Option.some_or]
      rfl
    | false =>
      unfold given
      rw [if_pos ⟨rfl, hv⟩]
      rfl
  | none =>
    rw [Option.none_or, Option.none_or]
    cases hs : isSet s with
    | true =>
      refine iff_of_true ?_ (Or.inr (Or.inr (Or.inl rfl)))
      rw [given_of_isSet hs, given_of_isSet hs]
      rfl
    | false =>
      cases release with
      | false =>
        refine iff_of_true ?_ (Or.inr (Or.inl rfl))
        have hs' : given false s n s = s := if_neg fun hc => (by cases hc.1)
        have ho : given true s m none = some (.text m) := if_pos ⟨rfl, hs⟩
        rw [hs', ho]
        rfl
      | true =>
        have hs' : given true s n s = some (.text n) := if_pos ⟨rfl, hs⟩
        rw [hs', given_of_isSet (isSet_text hn)]
        constructor
        · intro h
          exact Or.inr (Or.inr (Or.inr (Value.text.inj (Option.some.inj h))))
        · rintro (h | h | h | h)
          · cases h
          · cases h
          · cases h
          · rw [h]
            rfl

/-- **A key of a placement without a release**: what it had, unless it inherits a new value. -/
theorem given_or_of_not_release (hn : n ≠ []) :
    o.or (given release s n s) = o.or s ↔ (o.isSome = true ∨ release = false ∨ isSet s = true) := by
  cases o with
  | some v => exact iff_of_true rfl (Or.inl rfl)
  | none =>
    rw [Option.none_or, Option.none_or]
    cases hs : isSet s with
    | true => exact iff_of_true (given_of_isSet hs) (Or.inr (Or.inr rfl))
    | false =>
      cases release with
      | false => exact iff_of_true (if_neg fun hc => (by cases hc.1)) (Or.inr (Or.inl rfl))
      | true =>
        have hs' : given true s n s = some (.text n) := if_pos ⟨rfl, hs⟩
        rw [hs']
        constructor
        · intro h
          rw [← h, isSet_text hn] at hs
          cases hs
        · rintro (h | h | h) <;> cases h

end Keys

/-! ## The edit of a placement -/

section Placement

variable {inherited cfg : Config}

theorem rancherEdit_apply (inherited cfg : Config) (k : Text) : (rancherEdit inherited cfg).1 k =
    if k = rancherHelmChart then
      given (isSet (effectiveConfig inherited cfg rancherRel)) (effectiveConfig inherited cfg rancherHelmChart)
        (relText (effectiveConfig inherited cfg) ++ "/rancher".toList) (cfg k)
    else if k = rancherRepoUrl then
      given (isSet (effectiveConfig inherited cfg rancherRel)) (effectiveConfig inherited cfg rancherRepoUrl)
        rancherStableUrl (cfg k)
    else cfg k := by
  have hkeys : rancherHelmChart ≠ rancherRepoUrl := by decide
  cases hrel : isSet (effectiveConfig inherited cfg rancherRel) with
  | false =>
    have he : rancherEdit inherited cfg = (cfg, []) := if_neg (by
      show ¬ isSet (effectiveConfig inherited cfg rancherRel) = true
      rw [hrel]
      decide)
    rw [he, given_false, given_false, ite_self, ite_self]
  | true =>
    have he : (rancherEdit inherited cfg).1 k = _ :=
      (congrArg (fun r : Config × List Text => r.1 k) (if_pos hrel)).trans (setUnset_fst_apply _ _ _ k)
    rw [he, setUnset_fst_apply]
    change (if k = rancherHelmChart ∧ isSet (effectiveConfig inherited cfg rancherHelmChart) = false then
        some (.text (relText (effectiveConfig inherited cfg) ++ "/rancher".toList))
      else if k = rancherRepoUrl ∧ isSet (effectiveConfig inherited cfg rancherRepoUrl) = false then
        some (.text rancherStableUrl) else cfg k) = _
    unfold given
    by_cases hc : k = rancherHelmChart
    · rw [if_pos hc, hc]
      simp only [true_and, hkeys, false_and, if_false]
    · simp only [hc, false_and, if_false, true_and]
      by_cases hu : k = rancherRepoUrl
      · rw [if_pos hu]
        simp only [hu, true_and]
      · rw [if_neg hu, if_neg fun h => hu h.1]

/-- The release is left. -/
theorem rancherEdit_rel (inherited cfg : Config) : (rancherEdit inherited cfg).1 rancherRel = cfg rancherRel := by
  rw [rancherEdit_apply, if_neg (by decide), if_neg (by decide)]

theorem rancherEdit_chart (inherited cfg : Config) : (rancherEdit inherited cfg).1 rancherHelmChart =
    given (isSet (effectiveConfig inherited cfg rancherRel)) (effectiveConfig inherited cfg rancherHelmChart)
      (relText (effectiveConfig inherited cfg) ++ "/rancher".toList) (cfg rancherHelmChart) := by
  rw [rancherEdit_apply, if_pos rfl]

theorem rancherEdit_url (inherited cfg : Config) : (rancherEdit inherited cfg).1 rancherRepoUrl =
    given (isSet (effectiveConfig inherited cfg rancherRel)) (effectiveConfig inherited cfg rancherRepoUrl)
      rancherStableUrl (cfg rancherRepoUrl) := by
  rw [rancherEdit_apply, if_neg (by decide), if_pos rfl]

theorem effectiveConfig_none (cfg : Config) : effectiveConfig (fun _ => none) cfg = cfg := by
  funext k
  exact Option.or_none

/-- **The section itself** installs what it did. -/
theorem kept_section (cfg : Config) : Kept cfg (rancherEdit (fun _ => none) cfg).1 := by
  unfold Kept
  rw [rancherEdit_url, rancherEdit_chart, effectiveConfig_none]
  unfold given
  cases isSet (cfg rancherRel) with
  | false => exact ⟨if_neg fun h => (by cases h.1), if_neg fun h => (by cases h.1)⟩
  | true =>
    rw [if_pos rfl]
    constructor
    · cases isSet (cfg rancherRepoUrl) <;> rfl
    · cases isSet (cfg rancherHelmChart) <;> rfl

theorem stableUrl_ne_nil : rancherStableUrl ≠ [] := List.cons_ne_nil _ _

theorem chart_ne_nil (t : Text) : t ++ "/rancher".toList ≠ [] :=
  List.append_ne_nil_of_right_ne_nil _ (List.cons_ne_nil _ _)

/-- **An override** installs what it did, with the section that was edited, exactly when it fits. -/
theorem kept_override_iff (s o : Config) :
    Kept (effectiveConfig s o) (effectiveConfig (rancherEdit (fun _ => none) s).1
      (rancherEdit (rancherEdit (fun _ => none) s).1 o).1) ↔ Fits s o := by
  generalize hs' : (rancherEdit (fun _ => none) s).1 = s'
  have hrel : s' rancherRel = s rancherRel := by
    rw [← hs']
    exact rancherEdit_rel _ s
  have hurl : s' rancherRepoUrl = given (isSet (s rancherRel)) (s rancherRepoUrl) rancherStableUrl (s rancherRepoUrl) := by
    rw [← hs', rancherEdit_url, effectiveConfig_none]
  have hchart : s' rancherHelmChart = given (isSet (s rancherRel)) (s rancherHelmChart)
      (relText s ++ "/rancher".toList) (s rancherHelmChart) := by
    rw [← hs', rancherEdit_chart, effectiveConfig_none]
  have heff : effectiveConfig s' o rancherRel = effectiveConfig s o rancherRel := by
    unfold effectiveConfig
    rw [hrel]
  have htext : relText (effectiveConfig s' o) = relText (effectiveConfig s o) := by
    unfold relText
    rw [heff]
  have hafter (k : Text) : effectiveConfig s' (rancherEdit s' o).1 k = ((rancherEdit s' o).1 k).or (s' k) := rfl
  have hbefore (k : Text) : effectiveConfig s o k = (o k).or (s k) := rfl
  have hmiddle (k : Text) : effectiveConfig s' o k = (o k).or (s' k) := rfl
  unfold Kept Fits
  rw [hafter, hafter, rancherEdit_url, rancherEdit_chart, heff, htext, hmiddle rancherRepoUrl,
    hmiddle rancherHelmChart, hurl, hchart, hbefore rancherRepoUrl, hbefore rancherHelmChart]
  cases ho : o rancherRel with
  | none =>
    -- the release is that of the section
    have hsame : effectiveConfig s o rancherRel = s rancherRel := by rw [hbefore, ho, Option.none_or]
    have hsametext : relText (effectiveConfig s o) = relText s := by
      unfold relText
      rw [hsame]
    refine iff_of_true ?_ fun _ h => (by cases h)
    rw [hsame, hsametext]
    cases isSet (s rancherRel) with
    | true =>
      rw [if_pos rfl, given_or_of_release stableUrl_ne_nil, given_or_of_release (chart_ne_nil _)]
      exact ⟨Or.inr (Or.inr (Or.inr rfl)), Or.inr (Or.inr (Or.inr rfl))⟩
    | false =>
      rw [if_neg (by decide)]
      simp only [given_false, and_self]
  | some v =>
    have hown : effectiveConfig s o rancherRel = o rancherRel := by rw [hbefore, ho, Option.some_or]
    have howntext : relText (effectiveConfig s o) = relText o := by
      unfold relText
      rw [hown]
    rw [hown, howntext, ho]
    cases hv : isSet (some v) with
    | true =>
      rw [if_pos rfl, given_or_of_release stableUrl_ne_nil, given_or_of_release (chart_ne_nil _),
        List.append_cancel_right_eq]
      cases isSet (s rancherRel) with
      | false => exact iff_of_true ⟨Or.inr (Or.inl rfl), Or.inr (Or.inl rfl)⟩ fun h => (by cases h)
      | true =>
        constructor
        · rintro ⟨_, h⟩ _ _
          rw [if_pos rfl]
          rcases h with h | h | h | h
          · exact Or.inl h
          · cases h
          · exact Or.inr (Or.inl h)
          · exact Or.inr (Or.inr h.symm)
        · intro h
          refine ⟨Or.inr (Or.inr (Or.inr rfl)), ?_⟩
          have h := h rfl rfl
          rw [if_pos rfl] at h
          rcases h with h | h | h
          · exact Or.inl h
          · exact Or.inr (Or.inr (Or.inl h))
          · exact Or.inr (Or.inr (Or.inr h.symm))
    | false =>
      rw [if_neg (by decide), given_false, given_false, given_or_of_not_release stableUrl_ne_nil,
        given_or_of_not_release (chart_ne_nil _)]
      cases isSet (s rancherRel) with
      | false => exact iff_of_true ⟨Or.inr (Or.inl rfl), Or.inr (Or.inl rfl)⟩ fun h => (by cases h)
      | true =>
        have hne : ¬ false = true := by decide
        constructor
        · rintro ⟨hu, hc⟩ _ _
          rw [if_neg hne]
          exact ⟨hu.imp_right fun h => h.resolve_left (by decide), hc.imp_right fun h => h.resolve_left (by decide)⟩
        · intro h
          have h := h rfl rfl
          rw [if_neg hne] at h
          exact ⟨h.1.imp_right Or.inr, h.2.imp_right Or.inr⟩

end Placement

theorem rancher_2_0_eq (d : Definition) : (rancher_2_0.edit d).1 =
    (overOverrides rancher rancherEdit (onSection rancher (Section.edit (rancherEdit fun _ => none)) d).1).1 := rfl

theorem inherited_rancher_2_0 (d : Definition) :
    (rancher_2_0.edit d).1.inherited rancher = (rancherEdit (fun _ => none) (d.inherited rancher)).1 := by
  rw [rancher_2_0_eq, inherited_overOverrides, inherited_onSection_self rfl]

theorem overrides_rancher_2_0 (d : Definition) : (rancher_2_0.edit d).1.overrides rancher =
    (d.overrides rancher).map fun o =>
      (rancherEdit (rancherEdit (fun _ => none) (d.inherited rancher)).1 o).1 := by
  rw [rancher_2_0_eq, overrides_overOverrides, overrides_onSection, inherited_onSection_self rfl]

/-- **Every placement installs what it did** exactly when every override fits the section. -/
theorem rancherKept_iff (d : Definition) :
    RancherKept d (rancher_2_0.edit d).1 ↔ ∀ o ∈ d.overrides rancher, Fits (d.inherited rancher) o := by
  unfold RancherKept
  rw [inherited_rancher_2_0, overrides_rancher_2_0, and_iff_right (kept_section _), List.forall₂_map_right_iff,
    List.forall₂_same]
  exact forall₂_congr fun o _ => kept_override_iff _ o

/-- A configuration that sets the release only. -/
def releaseConfig (release : Text) : Config := fun k => if k = rancherRel then some (.text release) else none

/-- A section with a release, and a node whose override has another. -/
def twoReleases : Definition where
  sections := Finmap.singleton rancher (.config (releaseConfig "rancher-stable".toList))
  kclusters := []
  nodes := [("n1".toList, ⟨fun _ => none, [.mapping [(rancher, .config (releaseConfig "rancher-latest".toList))]]⟩)]
  versions := fun _ => none
  nodup_kclusters := List.nodup_nil
  nodup_nodes := List.nodup_singleton _

/-- **An override with a release of its own** is given the chart of the section's. -/
theorem twoReleases_not_kept : ¬ RancherKept twoReleases (rancher_2_0.edit twoReleases).1 := by
  have hinherited : twoReleases.inherited rancher = releaseConfig "rancher-stable".toList := by
    unfold Definition.inherited twoReleases
    rw [Finmap.lookup_singleton_eq]
    rfl
  have hoverrides : twoReleases.overrides rancher = [releaseConfig "rancher-latest".toList] := by
    unfold Definition.overrides overridesOf twoReleases AddonEntry.overrides
    simp
  rintro ⟨_, hall⟩
  rw [inherited_rancher_2_0, overrides_rancher_2_0, hinherited, hoverrides, List.map_singleton] at hall
  cases hall with
  | cons hkept _ =>
    have hfits := (kept_override_iff _ _).mp hkept (by decide) (by decide)
    rw [if_pos (by decide)] at hfits
    exact absurd hfits (by decide)

end LabInABox.Schema
