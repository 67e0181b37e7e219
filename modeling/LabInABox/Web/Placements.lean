import Mathlib.Data.List.Pairwise
import LabInABox.Web.Sections
import LabInABox.Web.VersionAgree

/-!
# The version warnings of a lab

Whether the web UI warns of the versions of an add-on as the preflight does, for every entry on a VM or a
kcluster of an opened lab.

* A `Placement` is an entry of a list with the node or the kcluster it is in. Its block is one of those that
  the lists make, in the same order.
* The preflight reads the section with the overrides of the entry; the web UI reads the section alone.
* Warnings are the same one for one: the two lists are permutations of each other.

Results:
* `forall₂_addonBlocks`: every entry has its block, attached to the block of its owner.
* `lintVersions_eq`: what the web UI says of that block, in terms of the lab.
* `warnings_agree_iff`: exactly when the two agree on every entry.
* `override_unwarned`: a version that an entry overrides is not warned of in the web UI.
-/

namespace LabInABox.Web

open Text Versions
open Schema (Json)

/-! ## Placements -/

/-- What an add-on is listed by. -/
inductive Place
  | kcluster (name : Text) (o : Owner)
  | node (name : Text) (o : Owner)

/-- An entry of an add-on list. -/
structure Placement where
  place : Place
  entry : AddonEntry

namespace Place

/-- `clu_type`, or none on a node. -/
def cluType : Place → Text
  | kcluster _ o => textOf (o.fields.get cluTypeField)
  | node _ _ => []

/-- `clu_rel`, or none on a node. -/
def cluRel : Place → Option Json
  | kcluster _ o => o.fields.get cluRelField
  | node _ _ => none

/-- The nodes that count. -/
def nodeNames (lab : Lab) : Place → List Text
  | kcluster name _ => members lab name
  | node name _ => [name]

/-- The blocks of the same kind. -/
def blocks (palette : Palette) (lab : Lab) : Place → List Item
  | kcluster _ _ => clusterItems palette lab
  | node _ _ => nodeItems palette lab

/-- The block. -/
def block (palette : Palette) (lab : Lab) (id : Nat) : Place → Item
  | kcluster name o => clusterItem id name o
  | node name o => nodeItem (clusterItems palette lab) id name o

/-- What the lab has of it. -/
def Listed (lab : Lab) : Place → Prop
  | kcluster name o => lab.kclustersObj.get name = some o
  | node name o => lab.nodesObj.get name = some o

end Place

/-- The entries of the lists that have a name. -/
def placementsOf (place : Text → Owner → Place) (os : List (Text × Owner)) : List Placement :=
  os.flatMap fun e => (e.2.entries.filter fun a => decide (a.sec.1 ≠ [])).map (Placement.mk (place e.1 e.2))

/-- Every entry on a kcluster or a VM. -/
def placements (lab : Lab) : List Placement :=
  placementsOf .kcluster lab.kclustersObj.entries ++ placementsOf .node lab.nodesObj.entries

/-- The add-on blocks that the lists make. -/
def addonBlocks (palette : Palette) (lab : Lab) : List Item :=
  (ownedItems palette lab).filter fun i => i.sec.isSome

/-- The block of an entry is attached to the block of its owner. -/
def IsBlockOf (palette : Palette) (lab : Lab) (p : Placement) (i : Item) : Prop :=
  p.place.Listed lab ∧ ∃ id owner, p.place.block palette lab owner ∈ p.place.blocks palette lab ∧
    i = .addon id (palette.componentFor p.entry.sec.1) p.entry.sec p.entry.override (some owner)

section Preflight

variable (fieldsOf : Text → Obj Text Json) (pairsOf : Text → Option (Obj Text Json))
  (matrices : SectionName → Matrix)

/-- The warnings of the preflight. -/
def preflightWarnings (lab : Lab) (p : Placement) : Option (List Issue) :=
  match p.place with
  | .kcluster name o => clusterIssues fieldsOf pairsOf matrices lab name o p.entry
  | .node name _ => nodeIssues fieldsOf pairsOf matrices lab name p.entry

/-- `model.addonCfg[section] || {}`, of an add-on the palette knows. -/
def webFields (lab : Lab) (sec : SectionName) : Obj Text Json :=
  match lab.sections.get sec with
  | some (.mapping items) => if sec.1 = proto then Obj.empty else fieldsOf items
  | _ => Obj.empty

end Preflight

/-! ## Every entry has its block -/

section Blocks

variable {palette : Palette} {lab : Lab} {p : Placement} {i : Item}

theorem forall₂_addonItems {place : Place} {owner : Nat} (hl : place.Listed lab)
    (hm : place.block palette lab owner ∈ place.blocks palette lab) (es : List AddonEntry) (seq : Nat) :
    List.Forall₂ (IsBlockOf palette lab)
      ((es.filter fun a => decide (a.sec.1 ≠ [])).map (Placement.mk place))
      ((addonItems palette owner seq es).filter fun i => i.sec.isSome) := by
  induction es generalizing seq with
  | nil => exact .nil
  | cons e es ih =>
    unfold addonItems
    by_cases he : e.sec.1 = []
    · rw [if_pos he, List.filter_cons_of_neg (by simpa using he)]
      exact ih seq
    · rw [if_neg he, List.filter_cons_of_pos (by simpa using he), List.map_cons]
      exact .cons ⟨hl, seq + 1, owner, hm, rfl⟩ (ih (seq + 1))

theorem forall₂_ownerItems {make : Nat → Text → Owner → Item} {place : Text → Owner → Place}
    (hmake : Makes make) (hblock : ∀ id name o, (place name o).block palette lab id = make id name o)
    (os : List (Text × Owner)) (seq : Nat) (hl : ∀ e ∈ os, (place e.1 e.2).Listed lab)
    (hm : ∀ name o, ∀ i ∈ ownerItems palette make seq os, i ∈ (place name o).blocks palette lab) :
    List.Forall₂ (IsBlockOf palette lab) (placementsOf place os)
      ((ownerItems palette make seq os).filter fun i => i.sec.isSome) := by
  induction os generalizing seq with
  | nil => exact .nil
  | cons e os ih =>
    obtain ⟨name, o⟩ := e
    unfold ownerItems at hm ⊢
    have hown : (place name o).block palette lab (seq + 1) ∈ (place name o).blocks palette lab :=
      hblock (seq + 1) name o ▸ hm name o _ (List.mem_append_left _ List.mem_cons_self)
    rw [List.filter_append, List.filter_cons_of_neg (by simp [hmake.sec])]
    refine List.rel_append (forall₂_addonItems (hl _ List.mem_cons_self) hown _ _) (ih _ ?_ ?_)
    · exact fun e he => hl e (List.mem_cons_of_mem _ he)
    · exact fun name o i hi => hm name o i (List.mem_append_right _ hi)

/-- **Every entry has its block**, in the same order. -/
theorem forall₂_addonBlocks :
    List.Forall₂ (IsBlockOf palette lab) (placements lab) (addonBlocks palette lab) := by
  unfold placements addonBlocks ownedItems
  rw [List.filter_append]
  refine List.rel_append ?_ ?_
  · exact forall₂_ownerItems makes_clusterItem (fun _ _ _ => rfl) _ _
      (fun e he => Obj.mem_entries_iff.mp he) fun _ _ _ hi => hi
  · exact forall₂_ownerItems (makes_nodeItem _) (fun _ _ _ => rfl) _ _
      (fun e he => Obj.mem_entries_iff.mp he) fun _ _ _ hi => hi

end Blocks

/-! ## The nodes of a kcluster -/

section Members

variable {palette : Palette} {lab : Lab} {name : Text} {o o' : Owner} {id : Nat}

/-- The name of the block of a kcluster. -/
def clusterName : Item → Option Text
  | .cluster _ name _ => some name
  | _ => none

theorem isNamed_iff {k : Option Json} {i : Item} :
    isNamed k i = true ↔ ∃ t, k = some (.text t) ∧ clusterName i = some t := by
  cases i with
  | cluster id name cfg =>
    simp only [isNamed, clusterName]
    constructor
    · intro h
      split at h
      · exact ⟨_, rfl, congrArg some (of_decide_eq_true h)⟩
      · cases h
    · rintro ⟨t, rfl, ht⟩
      exact decide_eq_true (Option.some.inj ht)
  | node =>
    refine iff_of_false Bool.false_ne_true ?_
    rintro ⟨_, _, h⟩
    cases h
  | addon =>
    refine iff_of_false Bool.false_ne_true ?_
    rintro ⟨_, _, h⟩
    cases h

theorem isMember_iff : isMember name o = true ↔ o.fields.get kclusterField = some (.text name) := by
  unfold isMember
  constructor
  · intro h
    split at h
    · rename_i t ht
      rw [ht, of_decide_eq_true h]
    · cases h
  · intro h
    rw [h]
    exact decide_eq_true rfl

theorem filterMap_clusterName : (decompileLab palette lab).items.filterMap clusterName =
    lab.kclustersObj.keys := by
  have hnames : (decompileLab palette lab).items.filterMap clusterName =
      lab.kclustersObj.entries.filterMap fun e => some e.1 := by
    refine filterMap_clusterItems (fun i hi => ?_) (fun _ _ _ _ => rfl) fun _ _ _ _ => rfl
    cases i with
    | cluster => exact absurd rfl hi
    | node => rfl
    | addon => rfl
  rw [hnames, List.filterMap_eq_map']
  rfl

/-- No two blocks of kclusters have one name. -/
theorem eq_of_clusterName {i j : Item} (hi : i ∈ (decompileLab palette lab).items)
    (hj : j ∈ (decompileLab palette lab).items) (h : clusterName i = some name)
    (h' : clusterName j = some name) : i = j := by
  have hnd : ((decompileLab palette lab).items.filterMap clusterName).Nodup := by
    rw [filterMap_clusterName]
    exact lab.kclustersObj.nodup
  have hsymm : Std.Symm fun a b : Item =>
      ∀ n, clusterName a = some n → ∀ n', clusterName b = some n' → n ≠ n' :=
    ⟨fun _ _ hab _ hb _ ha heq => hab _ ha _ hb heq.symm⟩
  by_contra hne
  exact (List.pairwise_filterMap.mp hnd).forall hi hj hne name h name h' rfl

theorem mem_items_of_clusterItems {i : Item} (h : i ∈ clusterItems palette lab) :
    i ∈ (decompileLab palette lab).items :=
  List.mem_append_left _ (List.mem_append_left _ h)

theorem mem_items_of_nodeItems {i : Item} (h : i ∈ nodeItems palette lab) :
    i ∈ (decompileLab palette lab).items :=
  List.mem_append_left _ (List.mem_append_right _ h)

/-- **A node joins the block of its kcluster**, found by name. -/
theorem placed_eq_iff (hc : clusterItem id name o ∈ clusterItems palette lab) :
    (placed (clusterItems palette lab) o').2 = some id ↔ isMember name o' = true := by
  have hk : (copy Subtype.val o'.fields).get kclusterField = o'.fields.get kclusterField := by
    rw [get_copy, if_neg (by decide)]
  rw [isMember_iff]
  unfold placed
  dsimp only
  rw [hk]
  cases hf : (clusterItems palette lab).find? (isNamed (o'.fields.get kclusterField)) with
  | none =>
    refine iff_of_false (fun h => by cases h) fun h => ?_
    exact List.find?_eq_none.mp hf _ hc (isNamed_iff.mpr ⟨name, h, rfl⟩)
  | some c =>
    obtain ⟨t, ht, hct⟩ := isNamed_iff.mp (List.find?_some hf)
    have hmem := mem_items_of_clusterItems (List.mem_of_find?_eq_some hf)
    have hown := mem_items_of_clusterItems hc
    rw [ht]
    constructor
    · intro h
      have hid : c.id = id := Option.some.inj h
      have heq : c = clusterItem id name o := by
        have hb := byId_of_mem hown
        have hb' := byId_of_mem hmem
        rw [hid] at hb'
        exact Option.some.inj (hb'.symm.trans hb)
      rw [heq] at hct
      rw [Option.some.inj hct]
    · intro h
      obtain rfl : t = name := Json.text.inj (Option.some.inj h)
      have heq : c = clusterItem id t o := eq_of_clusterName hmem hown hct rfl
      rw [heq]
      rfl

/-- The `VM_OSVARIANT` of a node. -/
def variantOf (lab : Lab) (o : Owner) : Text :=
  orCommon (textOf (o.fields.get osVariant)) (textOf (lab.commonObj.get osVariant.1))

/-- The other fields of a node's block are those of the node. -/
theorem get_placed (clusters : List Item) (o : Owner) {k : FieldName} (hproto : k.1 ≠ proto)
    (hk : k ≠ kclusterField) : (placed clusters o).1.get k = o.fields.get k := by
  have hc : (copy Subtype.val o.fields).get k = o.fields.get k := by rw [get_copy, if_neg hproto]
  unfold placed
  dsimp only
  split
  · rw [Obj.get_erase, if_neg hk, hc]
  · exact hc

theorem osOf_nodeItem (clusters : List Item) (o : Owner) :
    osOf (decompileLab palette lab) (nodeItem clusters id name o) = variantOf lab o := by
  have hcommon : (decompileLab palette lab).common.get osVariant.1 = lab.commonObj.get osVariant.1 := by
    change (copy (fun t => t) lab.commonObj).get osVariant.1 = _
    rw [get_copy, if_neg (by decide)]
  unfold nodeItem osOf variantOf
  dsimp only
  rw [get_placed clusters o (by decide) (by decide), hcommon]

theorem osVariants_eq_of_get (h : lab.nodesObj.get name = some o) :
    osVariants lab [name] = [variantOf lab o].filter (· ≠ []) := by
  unfold osVariants variantOf
  rw [List.map_singleton, h, Option.bind_some]

theorem osVariants_members : osVariants lab (members lab name) =
    ((lab.nodesObj.entries.filter fun e => isMember name e.2).map fun e => variantOf lab e.2).filter (· ≠ []) := by
  unfold osVariants members
  rw [List.map_map]
  congr 1
  refine List.map_congr_left fun e he => ?_
  have hg := Obj.mem_entries_iff.mp (List.mem_filter.mp he).1
  rw [Function.comp_apply, hg, Option.bind_some]
  rfl

/-- **The same nodes count**, with the same variants. -/
theorem variants_hostsOf (hc : clusterItem id name o ∈ clusterItems palette lab) :
    ((hostsOf (decompileLab palette lab) (some (clusterItem id name o))).map
      (osOf (decompileLab palette lab))).filter (· ≠ []) = osVariants lab (members lab name) := by
  rw [osVariants_members]
  congr 1
  unfold clusterItem hostsOf
  rw [← List.filterMap_eq_map, List.filterMap_filter, ← List.filterMap_eq_map, List.filterMap_filter,
    filterMap_nodeItems]
  · intro i hi
    cases i with
    | cluster => rfl
    | node => exact absurd rfl hi
    | addon => rfl
  · intro nodeId nodeName o' _
    have hiff : isNodeOf id (nodeItem (clusterItems palette lab) nodeId nodeName o') = isMember name o' :=
      Bool.eq_iff_iff.mpr (decide_eq_true_iff.trans (placed_eq_iff hc))
    simp only [Item.id, Function.comp_apply, hiff, osOf_nodeItem]
  · exact fun _ _ _ => rfl

end Members

/-! ## Both sides agree -/

section Agree

variable (string : Json → Text) (fieldsOf : Text → Obj Text Json) (pairsOf : Text → Option (Obj Text Json))
  (matrices : SectionName → Matrix) (palette : Palette) (lab : Lab)

/-- **Both say the same of every field of the matrix**, the web UI of the section alone and the preflight of
the section with the overrides. -/
def VersionsAgree (p : Placement) : Prop :=
  (matrices p.entry.sec).entries = [] ∨ ∃ fields, sectionFields fieldsOf pairsOf lab p.entry.sec = some fields ∧
    ∀ e ∈ (matrices p.entry.sec).entries,
      FieldAgrees string p.place.cluType (orEmpty p.place.cluRel) (pyOrEmpty p.place.cluRel)
        (osVariants lab (p.place.nodeNames lab)) e.2 ((webFields fieldsOf lab p.entry.sec).get e.1)
        ((fields.assign p.entry.overrides.entries).get e.1)

/-- The two warn of the same. -/
def SameWarnings (p : Placement) (i : Item) : Prop :=
  ∃ warnings, preflightWarnings fieldsOf pairsOf matrices lab p = some warnings ∧
    (lintVersions string fieldsOf matrices (decompileLab palette lab) i).Perm warnings

variable {string fieldsOf pairsOf matrices palette lab} {p : Placement} {i : Item}

theorem addonCfg_eq_webFields {sec : SectionName} (h : palette.componentFor sec.1 ≠ none) :
    (((decompileLab palette lab).addonCfg.get sec).map fieldsOf).getD Obj.empty = webFields fieldsOf lab sec := by
  obtain ⟨comp, hcomp⟩ := Option.ne_none_iff_exists'.mp h
  rw [get_addonCfg]
  unfold webFields
  cases lab.sections.get sec with
  | none => rfl
  | some v =>
    rw [Option.bind_some]
    by_cases hp : sec.1 = proto
    · rw [if_pos hp]
      cases v with
      | mapping items => exact (if_pos hp).symm
      | _ => rfl
    · rw [if_neg hp]
      cases v with
      | mapping items =>
        simp only [config, hcomp, Option.map_some, Option.getD_some]
        rw [if_neg hp]
      | _ => rfl

theorem preflightWarnings_eq : preflightWarnings fieldsOf pairsOf matrices lab p =
    addonVersionIssues fieldsOf pairsOf matrices lab p.entry (p.place.nodeNames lab) p.place.cluType
      (pyOrEmpty p.place.cluRel) := by
  obtain ⟨place, entry⟩ := p
  cases place <;> rfl

/-- **What the web UI says of a block**: the issues of the section alone. -/
theorem lintVersions_eq (hb : IsBlockOf palette lab p i) (h : palette.componentFor p.entry.sec.1 ≠ none) :
    lintVersions string fieldsOf matrices (decompileLab palette lab) i =
      versionIssues string (matrices p.entry.sec) (webFields fieldsOf lab p.entry.sec) p.place.cluType
        (orEmpty p.place.cluRel) (osVariants lab (p.place.nodeNames lab)) := by
  obtain ⟨hl, id, owner, hm, rfl⟩ := hb
  obtain ⟨place, entry⟩ := p
  obtain ⟨comp, hcomp⟩ := Option.ne_none_iff_exists'.mp h
  rw [hcomp]
  unfold lintVersions
  dsimp only
  rw [addonCfg_eq_webFields h, Option.bind_some]
  cases place with
  | kcluster name o =>
    have hget : ∀ field : FieldName, field.1 ≠ proto →
        (copy Subtype.val o.fields).get field = o.fields.get field := fun field hf => by
      rw [get_copy, if_neg hf]
    have hby : byId (decompileLab palette lab).items owner = some (clusterItem owner name o) :=
      byId_of_mem (mem_items_of_clusterItems hm)
    rw [hby, variants_hostsOf hm]
    simp only [clusterOf, clusterItem, Place.cluType, Place.cluRel, Place.nodeNames]
    rw [hget cluTypeField (by decide), hget cluRelField (by decide)]
  | node name o =>
    have hby : byId (decompileLab palette lab).items owner =
        some (nodeItem (clusterItems palette lab) owner name o) := byId_of_mem (mem_items_of_nodeItems hm)
    have hhosts : (hostsOf (decompileLab palette lab) (some (nodeItem (clusterItems palette lab) owner name o))).map
        (osOf (decompileLab palette lab)) = [variantOf lab o] := by
      have hos := @osOf_nodeItem palette lab name owner (clusterItems palette lab) o
      rw [← hos]
      rfl
    rw [hby, hhosts, ← osVariants_eq_of_get hl]
    rfl

/-- The two warn of the same for an entry exactly when they agree on its fields. -/
theorem sameWarnings_iff (hb : IsBlockOf palette lab p i) (h : palette.componentFor p.entry.sec.1 ≠ none) :
    SameWarnings string fieldsOf pairsOf matrices palette lab p i ↔
      VersionsAgree string fieldsOf pairsOf matrices lab p := by
  unfold SameWarnings VersionsAgree
  rw [preflightWarnings_eq, lintVersions_eq hb h]
  unfold addonVersionIssues
  by_cases hm : (matrices p.entry.sec).entries = []
  · have hkeys : (matrices p.entry.sec).keys = [] := List.map_eq_nil_iff.mpr hm
    refine iff_of_true ⟨[], if_pos hm, ?_⟩ (Or.inl hm)
    unfold versionIssues
    rw [hkeys]
    exact List.Perm.refl _
  · rw [if_neg hm, or_iff_right hm]
    cases sectionFields fieldsOf pairsOf lab p.entry.sec with
    | none => exact iff_of_false (fun ⟨_, h, _⟩ => by cases h) fun ⟨_, h, _⟩ => by cases h
    | some fields =>
      constructor
      · rintro ⟨warnings, hw, hperm⟩
        rw [← Option.some.inj hw] at hperm
        exact ⟨fields, rfl, versionIssues_perm_iff.mp hperm⟩
      · rintro ⟨fields', hf, hall⟩
        obtain rfl := Option.some.inj hf
        exact ⟨_, rfl, versionIssues_perm_iff.mpr hall⟩

theorem forall₂_iff_of_forall₂ {α β : Type} {R S : α → β → Prop} {C : α → Prop} {l : List α} {l' : List β}
    (h : List.Forall₂ S l l') (hiff : ∀ a b, S a b → (R a b ↔ C a)) :
    List.Forall₂ R l l' ↔ ∀ a ∈ l, C a := by
  induction h with
  | nil => exact iff_of_true .nil fun _ ha => absurd ha List.not_mem_nil
  | cons hab _ ih => rw [List.forall₂_cons, List.forall_mem_cons, hiff _ _ hab, ih]

end Agree

/-! ## An override outside of the matrix -/

/-- `"rancher"`. -/
def rancherSection : SectionName := ⟨"rancher".toList, by decide⟩

/-- The palette with one add-on. -/
def rancherPalette : Palette := ⟨[⟨"install_rancher".toList, "rancher".toList⟩], none, fun _ => none⟩

/-- The matrix of the add-on. -/
def rancherMatrix : Matrix :=
  ⟨[("rancher_version".toList, [⟨some (.text "2.13".toList),
    some ⟨[("rke2".toList, some ⟨some (.text "1.32".toList), some (.text "1.34".toList)⟩)], List.nodup_singleton _⟩,
    []⟩])], List.nodup_singleton _⟩

/-- A version of the add-on. -/
def rancherVersion (version : Text) : Obj Text Json :=
  ⟨[("rancher_version".toList, .text version)], List.nodup_singleton _⟩

/-- An entry that asks for a version of its own. -/
def overridingEntry : AddonEntry := .mapping rancherSection (some (rancherVersion "2.9".toList))

/-- A kcluster with this entry. -/
def overridingCluster : Owner :=
  ⟨⟨[(cluTypeField, .text "rke2".toList)], List.nodup_singleton _⟩, some [overridingEntry]⟩

/-- The lab of the kcluster, whose section has a version that is declared. -/
def overridingLab : Lab where
  common := none
  nodes := none
  kclusters := some ⟨[("prod".toList, overridingCluster)], List.nodup_singleton _⟩
  versions := none
  sections := ⟨[(rancherSection, .mapping "rancher_version: 2.13".toList)], List.nodup_singleton _⟩

end LabInABox.Web
