import LabInABox.Web.Opened

/-!
# The sections and versions of an opened lab

What is saved of the top-level sections of an opened lab and of the versions it records: a section the
palette knows becomes an add-on block, any other one is kept as it is where nothing hides it.

Results:
* `get_sections_of_config`, `get_sections_of_extra`, `get_sections_of_none`: the sections that are saved.
* `version_reopened`: the versions that are saved. `getD_version_of_first`: those of a definition that
  records none.
-/

namespace LabInABox.Web

open Text
open Schema (Json)

variable {palette : Palette} {lab : Lab}

/-! ## The add-ons that have a block -/

/-- Every entry of every add-on list, of the kclusters and then of the nodes. -/
def Lab.entries (lab : Lab) : List AddonEntry :=
  (lab.kclustersObj.entries.flatMap fun e => e.2.entries) ++
    lab.nodesObj.entries.flatMap fun e => e.2.entries

/-- What holds of the blocks that are made holds of every block. -/
theorem forall_items {P : Item → Prop} (hcluster : ∀ id name o, P (clusterItem id name o))
    (hnode : ∀ clusters id name o, P (nodeItem clusters id name o))
    (haddon : ∀ id sec override parent,
      P (.addon id (palette.componentFor sec.1) sec override parent)) :
    ∀ i ∈ (decompileLab palette lab).items, P i := by
  have ha : ∀ parent es seq, ∀ i ∈ addonItems palette parent seq es, P i := by
    intro parent es
    induction es with
    | nil => exact fun _ _ h => absurd h List.not_mem_nil
    | cons e es ih =>
      intro seq
      unfold addonItems
      split
      · exact ih seq
      · exact List.forall_mem_cons.mpr ⟨haddon _ _ _ _, ih (seq + 1)⟩
  have ho : ∀ make : Nat → Text → Owner → Item, (∀ id name o, P (make id name o)) → ∀ os seq,
      ∀ i ∈ ownerItems palette make seq os, P i := by
    intro make hmake os
    induction os with
    | nil => exact fun _ _ h => absurd h List.not_mem_nil
    | cons e os ih =>
      intro seq
      unfold ownerItems
      exact List.forall_mem_append.mpr ⟨List.forall_mem_cons.mpr ⟨hmake _ _ _, ha _ _ _⟩, ih _⟩
  have hs : ∀ items es seq, ∀ i ∈ sectionItems palette items seq es, P i := by
    intro items es
    induction es with
    | nil => exact fun _ _ h => absurd h List.not_mem_nil
    | cons e es ih =>
      intro seq
      unfold sectionItems
      split
      · exact List.forall_mem_cons.mpr ⟨haddon _ _ _ _, ih (seq + 1)⟩
      · exact ih seq
  rw [items_eq]
  exact List.forall_mem_append.mpr ⟨List.forall_mem_append.mpr ⟨ho _ hcluster _ _, ho _ (hnode _) _ _⟩,
    hs _ _ _⟩

theorem filterMap_sec_addonItems (parent : Nat) (es : List AddonEntry) (seq : Nat) :
    (addonItems palette parent seq es).filterMap Item.sec =
      (es.map AddonEntry.sec).filter fun sec => decide (sec.1 ≠ []) := by
  induction es generalizing seq with
  | nil => rfl
  | cons e es ih =>
    unfold addonItems
    rw [List.map_cons]
    by_cases he : e.sec.1 = []
    · rw [if_pos he, ih, List.filter_cons_of_neg (by simpa using he)]
    · rw [if_neg he, List.filter_cons_of_pos (by simpa using he), List.filterMap_cons, ih]
      rfl

theorem filterMap_sec_ownerItems {make : Nat → Text → Owner → Item} (hm : Makes make)
    (os : List (Text × Owner)) (seq : Nat) : (ownerItems palette make seq os).filterMap Item.sec =
      ((os.flatMap fun e => e.2.entries).map AddonEntry.sec).filter fun sec => decide (sec.1 ≠ []) := by
  induction os generalizing seq with
  | nil => rfl
  | cons e os ih =>
    rw [ownerItems, List.filterMap_append, List.filterMap_cons, hm.sec, filterMap_sec_addonItems, ih,
      List.flatMap_cons, List.map_append, List.filter_append]

/-- The blocks of the lists, by the add-ons they are of. -/
theorem filterMap_sec_ownedItems : (ownedItems palette lab).filterMap Item.sec =
    (lab.entries.map AddonEntry.sec).filter fun sec => decide (sec.1 ≠ []) := by
  unfold ownedItems clusterItems nodeItems Lab.entries
  rw [List.filterMap_append, filterMap_sec_ownerItems makes_clusterItem,
    filterMap_sec_ownerItems (makes_nodeItem _), List.map_append, List.filter_append]

/-- The add-on has an entry in some list. -/
def Attached (lab : Lab) (sec : SectionName) : Prop := sec.1 ≠ [] ∧ sec ∈ lab.entries.map AddonEntry.sec

theorem exists_ownedItems_iff {sec : SectionName} :
    (∃ i ∈ ownedItems palette lab, i.sec = some sec) ↔ Attached lab sec := by
  rw [← List.mem_filterMap, filterMap_sec_ownedItems, List.mem_filter, decide_eq_true_eq, and_comm]
  rfl

theorem exists_sectionItems_iff {items : List Item} {sec : SectionName}
    {es : List (SectionName × Json)} {seq : Nat} :
    (∃ i ∈ sectionItems palette items seq es, i.sec = some sec) ↔
      (∀ i ∈ items, i.sec ≠ some sec) ∧ ∃ v, (sec, v) ∈ es ∧ (config palette sec v).isSome := by
  induction es generalizing seq with
  | nil => simp [sectionItems]
  | cons e es ih =>
    unfold sectionItems
    split
    · rename_i h
      rw [List.exists_mem_cons_iff, ih]
      constructor
      · rintro (he | ⟨hno, v, hv, hc⟩)
        · obtain rfl : e.1 = sec := Option.some.inj he
          exact ⟨h.2, e.2, List.mem_cons_self, h.1⟩
        · exact ⟨hno, v, List.mem_cons_of_mem _ hv, hc⟩
      · rintro ⟨hno, v, hv, hc⟩
        rcases List.mem_cons.mp hv with rfl | hv
        · exact Or.inl rfl
        · exact Or.inr ⟨hno, v, hv, hc⟩
    · rename_i h
      rw [ih]
      refine and_congr_right fun hno => exists_congr fun v => and_congr_left fun hc => ?_
      rw [List.mem_cons]
      refine ⟨Or.inr, fun hv => hv.resolve_left ?_⟩
      rintro rfl
      exact h ⟨hc, hno⟩

/-- The blocks, by the add-ons they are of: those of a list, and the sections the palette knows. -/
theorem exists_items_iff {sec : SectionName} :
    (∃ i ∈ (decompileLab palette lab).items, i.sec = some sec) ↔
      Attached lab sec ∨ ∃ v, lab.sections.get sec = some v ∧ (config palette sec v).isSome := by
  have hi : (decompileLab palette lab).items = ownedItems palette lab ++
    sectionItems palette (ownedItems palette lab) (ownedItems palette lab).length
      lab.sections.entries := rfl
  simp only [hi, List.mem_append, or_and_right, exists_or, exists_ownedItems_iff,
    exists_sectionItems_iff, Obj.mem_entries_iff]
  by_cases h : Attached lab sec
  · exact ⟨fun _ => Or.inl h, fun _ => Or.inl h⟩
  · have hno : ∀ i ∈ ownedItems palette lab, i.sec ≠ some sec :=
      fun i hi he => h (exists_ownedItems_iff.mp ⟨i, hi, he⟩)
    exact or_congr Iff.rfl (and_iff_right hno)

/-! ## Sections -/

theorem get_addonCfg (sec : SectionName) : (decompileLab palette lab).addonCfg.get sec =
    (lab.sections.get sec).bind fun v => if sec.1 = proto then none else config palette sec v :=
  Obj.get_filterMap _ sec

theorem get_extra (sec : SectionName) : (decompileLab palette lab).extra.get sec =
    (lab.sections.get sec).filter fun v => decide (sec.1 ≠ proto ∧ config palette sec v = none) :=
  Obj.get_filter _ sec

/-- The sections that the add-on blocks give. -/
def addonSections (palette : Palette) (lab : Lab) : Obj SectionName Json :=
  Obj.empty.assign
    ((decompileLab palette lab).items.filterMap (sectionEntry (decompileLab palette lab).addonCfg))

theorem sectionEntry_eq_some {addonCfg : Obj SectionName Text} {i : Item} {e : SectionName × Json} :
    sectionEntry addonCfg i = some e ↔
      i.sec = some e.1 ∧ ¬ (e.1.1 = [] ∨ e.1.1 = proto) ∧ fragment addonCfg e.1 = some e.2 := by
  unfold sectionEntry
  rw [Option.bind_eq_some_iff]
  constructor
  · rintro ⟨sec, hs, h⟩
    split at h
    · cases h
    · rename_i hn
      obtain ⟨v, hv, rfl⟩ := Option.map_eq_some_iff.mp h
      exact ⟨hs, hn, hv⟩
  · rintro ⟨hs, hn, hv⟩
    exact ⟨e.1, hs, by rw [if_neg hn, hv]; rfl⟩

/-- An add-on with a block has its section, by what is kept of it. -/
theorem get_addonSections {sec : SectionName} (hn : ¬ (sec.1 = [] ∨ sec.1 = proto))
    (hi : ∃ i ∈ (decompileLab palette lab).items, i.sec = some sec) :
    (addonSections palette lab).get sec = fragment (decompileLab palette lab).addonCfg sec := by
  unfold addonSections
  cases hf : fragment (decompileLab palette lab).addonCfg sec with
  | none =>
    refine Obj.get_assign_of_not_mem fun hm => ?_
    obtain ⟨e, he, rfl⟩ := List.mem_map.mp hm
    obtain ⟨i, _, h⟩ := List.mem_filterMap.mp he
    rw [(sectionEntry_eq_some.mp h).2.2] at hf
    cases hf
  | some v =>
    refine Obj.get_assign_of_forall (fun e he hk => ?_) ?_
    · obtain ⟨i, _, h⟩ := List.mem_filterMap.mp he
      rw [← hk, (sectionEntry_eq_some.mp h).2.2] at hf
      exact Option.some.inj hf
    · obtain ⟨i, hi, hs⟩ := hi
      exact List.mem_map.mpr ⟨(sec, v), List.mem_filterMap.mpr
        ⟨i, hi, sectionEntry_eq_some.mpr ⟨hs, hn, hf⟩⟩, rfl⟩

/-- What the add-on blocks give belongs to one of them. -/
theorem of_get_addonSections {sec : SectionName} {v : Json}
    (h : (addonSections palette lab).get sec = some v) :
    ¬ (sec.1 = [] ∨ sec.1 = proto) ∧ (∃ i ∈ (decompileLab palette lab).items, i.sec = some sec) ∧
      fragment (decompileLab palette lab).addonCfg sec = some v := by
  have hm : sec ∈ ((decompileLab palette lab).items.filterMap
      (sectionEntry (decompileLab palette lab).addonCfg)).map Prod.fst := by
    by_contra hno
    unfold addonSections at h
    rw [Obj.get_assign_of_not_mem hno] at h
    cases h
  obtain ⟨e, he, rfl⟩ := List.mem_map.mp hm
  obtain ⟨i, hi, hs⟩ := List.mem_filterMap.mp he
  obtain ⟨hs, hn, _⟩ := sectionEntry_eq_some.mp hs
  refine ⟨hn, ⟨i, hi, hs⟩, ?_⟩
  rw [← get_addonSections hn ⟨i, hi, hs⟩, h]

/-- The sections that are saved: those of the blocks, and what is kept where they leave room. -/
theorem get_sections_reopened (sec : SectionName) : (reopened palette lab).sections.get sec =
    (((decompileLab palette lab).extra.get sec).filter fun _ =>
      decide (sec.1 ∉ inherited ∧ sec ∉ (addonSections palette lab).keys)).or
        ((addonSections palette lab).get sec) := by
  have h : (reopened palette lab).sections = (addonSections palette lab).assign
      ((decompileLab palette lab).extra.filter fun e =>
        decide (e.1.1 ∉ inherited ∧ e.1 ∉ (addonSections palette lab).keys)).entries := rfl
  rw [h, Obj.get_assign_entries, Obj.get_filter]

section Sections

variable {sec : SectionName} {v : Json}

theorem proto_mem_inherited : proto ∈ inherited := by decide

/-- **A section the palette knows** is saved as it was, under a name that a block can have. -/
theorem get_sections_of_config {items : Text} (hv : lab.sections.get sec = some v)
    (hc : config palette sec v = some items) : (reopened palette lab).sections.get sec =
      if sec.1 = [] ∨ sec.1 = proto then none else some v := by
  have hx : (decompileLab palette lab).extra.get sec = none := by
    rw [get_extra, hv]
    simp [hc]
  rw [get_sections_reopened, hx, Option.filter_none, Option.none_or]
  split
  · rename_i hn
    cases hg : (addonSections palette lab).get sec with
    | none => rfl
    | some w => exact absurd hn (of_get_addonSections hg).1
  · rename_i hn
    have hi : ∃ i ∈ (decompileLab palette lab).items, i.sec = some sec :=
      exists_items_iff.mpr (Or.inr ⟨v, hv, by rw [hc]; rfl⟩)
    have hcfg : (decompileLab palette lab).addonCfg.get sec = some items := by
      rw [get_addonCfg, hv, Option.bind_some, if_neg fun h => hn (Or.inr h), hc]
    have hvi : v = .mapping items := by
      unfold config at hc
      split at hc
      · obtain ⟨_, _, rfl⟩ := Option.map_eq_some_iff.mp hc
        rfl
      · cases hc
    rw [get_addonSections hn hi, fragment, hcfg, hvi]

theorem get_addonCfg_of_not_config (hc : ∀ v, lab.sections.get sec = some v → config palette sec v = none) :
    (decompileLab palette lab).addonCfg.get sec = none := by
  rw [get_addonCfg]
  cases hv : lab.sections.get sec with
  | none => rfl
  | some v =>
    rw [Option.bind_some, hc v hv]
    exact ite_self _

/-- A section that the palette does not know is hidden by what every object answers for. -/
theorem get_sections_of_inherited (hc : ∀ v, lab.sections.get sec = some v → config palette sec v = none)
    (hin : sec.1 ∈ inherited) : (reopened palette lab).sections.get sec = none := by
  have hs : (addonSections palette lab).get sec = none := by
    cases hg : (addonSections palette lab).get sec with
    | none => rfl
    | some w =>
      have hf := (of_get_addonSections hg).2.2
      rw [fragment, get_addonCfg_of_not_config hc] at hf
      dsimp only at hf
      rw [if_pos hin] at hf
      cases hf
  rw [get_sections_reopened, hs, Option.or_none]
  cases (decompileLab palette lab).extra.get sec <;> simp [hin]

/-- The add-ons of a list have a section, which is empty unless the palette knows it. -/
theorem get_sections_of_attached (hc : ∀ v, lab.sections.get sec = some v → config palette sec v = none)
    (hin : sec.1 ∉ inherited) (ha : Attached lab sec) :
    (reopened palette lab).sections.get sec = some (.mapping []) := by
  have hn : ¬ (sec.1 = [] ∨ sec.1 = proto) := by
    rintro (h | h)
    · exact ha.1 h
    · exact hin (h ▸ proto_mem_inherited)
  have hs : (addonSections palette lab).get sec = some (.mapping []) := by
    rw [get_addonSections hn (exists_items_iff.mpr (Or.inl ha)), fragment,
      get_addonCfg_of_not_config hc]
    exact if_neg hin
  have hk : sec ∈ (addonSections palette lab).keys := Obj.mem_keys_iff.mpr ⟨_, hs⟩
  rw [get_sections_reopened, hs]
  cases (decompileLab palette lab).extra.get sec <;> simp [hk]

/-- **Any other section** is kept as it was. -/
theorem get_sections_of_extra (hv : lab.sections.get sec = some v) (hc : config palette sec v = none)
    (hin : sec.1 ∉ inherited) (ha : ¬ Attached lab sec) :
    (reopened palette lab).sections.get sec = some v := by
  have hs : (addonSections palette lab).get sec = none := by
    cases hg : (addonSections palette lab).get sec with
    | none => rfl
    | some w =>
      rcases exists_items_iff.mp (of_get_addonSections hg).2.1 with h | ⟨v', hv', hc'⟩
      · exact absurd h ha
      · rw [hv] at hv'
        obtain rfl := Option.some.inj hv'
        rw [hc] at hc'
        cases hc'
  have hk : sec ∉ (addonSections palette lab).keys := Obj.not_mem_keys_iff.mpr hs
  have hp : sec.1 ≠ proto := fun h => hin (h ▸ proto_mem_inherited)
  have hx : (decompileLab palette lab).extra.get sec = some v := by
    rw [get_extra, hv]
    simp [hc, hp]
  rw [get_sections_reopened, hx, Option.filter_some, if_pos (decide_eq_true ⟨hin, hk⟩)]
  rfl

/-- A section that is not there is saved as an empty one, for an add-on of a list. -/
theorem get_sections_of_none (hv : lab.sections.get sec = none) :
    (reopened palette lab).sections.get sec = none ∨
      (reopened palette lab).sections.get sec = some (.mapping []) ∧ Attached lab sec := by
  have hc : ∀ v, lab.sections.get sec = some v → config palette sec v = none := by
    intro v h
    rw [hv] at h
    cases h
  have hx : (decompileLab palette lab).extra.get sec = none := by
    rw [get_extra, hv]
    rfl
  rw [get_sections_reopened, hx, Option.filter_none, Option.none_or]
  cases hg : (addonSections palette lab).get sec with
  | none => exact Or.inl rfl
  | some w =>
    obtain ⟨_, hi, hf⟩ := of_get_addonSections hg
    rw [fragment, get_addonCfg_of_not_config hc] at hf
    dsimp only at hf
    split at hf
    · cases hf
    · refine Or.inr ⟨hf.symm, (exists_items_iff.mp hi).resolve_right ?_⟩
      rintro ⟨v, h, _⟩
      rw [hv] at h
      cases h

end Sections

/-! ## Versions -/

/-- The version the palette has of a schema: of the lab definition, or of an add-on section. -/
def Palette.current (palette : Palette) (schema : Text) : Option Text :=
  if schema = "lab".toList then truthy palette.baseVersion
  else
    (palette.componentFor (schema.drop "addon:".toList.length)).bind fun comp =>
      truthy (palette.schemaVersion comp)

theorem addonSchema_ne_lab (sec : Text) : Cluster.addonSchema sec ≠ "lab".toList := by
  intro h
  have hhead : some 'a' = some 'l' := congrArg List.head? h
  exact absurd hhead (by decide)

theorem addonSchema_ne_proto (sec : Text) : Cluster.addonSchema sec ≠ proto := by
  intro h
  have hhead : some 'a' = some '_' := congrArg List.head? h
  exact absurd hhead (by decide)

theorem current_addonSchema (palette : Palette) (sec : Text) :
    palette.current (Cluster.addonSchema sec) =
      (palette.componentFor sec).bind fun comp => truthy (palette.schemaVersion comp) := by
  have hd : (Cluster.addonSchema sec).drop "addon:".toList.length = sec := List.drop_left
  unfold Palette.current
  rw [if_neg (addonSchema_ne_lab sec), hd]

theorem versionEntry_items : ∀ i ∈ (decompileLab palette lab).items, ∀ e,
    versionEntry palette i = some e → ∃ sec : SectionName, i.sec = some sec ∧ sec.1 ≠ [] ∧
      e.1 = Cluster.addonSchema sec.1 ∧ palette.current e.1 = some e.2 := by
  refine forall_items (fun _ _ _ e h => by cases h) (fun _ _ _ _ e h => by cases h)
    fun id sec override parent e h => ?_
  unfold versionEntry at h
  split at h
  · rename_i hi
    obtain ⟨rfl, hc, rfl, rfl, rfl⟩ := Item.addon.inj hi
    split at h
    · cases h
    · rename_i hn
      obtain ⟨v, hv, rfl⟩ := Option.map_eq_some_iff.mp h
      refine ⟨_, rfl, hn, rfl, ?_⟩
      rw [current_addonSchema, hc, Option.bind_some, hv]
  · cases h

theorem versionEntry_of_sec {sec : SectionName} (hn : sec.1 ≠ []) :
    ∀ i ∈ (decompileLab palette lab).items, i.sec = some sec → ∀ v,
      palette.current (Cluster.addonSchema sec.1) = some v →
        versionEntry palette i = some (Cluster.addonSchema sec.1, v) := by
  refine forall_items (fun _ _ _ h => by cases h) (fun _ _ _ _ h => by cases h)
    fun id sec' override parent hs v hv => ?_
  obtain rfl := Option.some.inj hs
  rw [current_addonSchema] at hv
  obtain ⟨comp, hc, hv⟩ := Option.bind_eq_some_iff.mp hv
  rw [hc]
  unfold versionEntry
  dsimp only
  rw [if_neg hn, hv]
  rfl

/-- The versions that the palette gives the blocks. -/
def stamped (palette : Palette) (lab : Lab) : Obj Text Text :=
  Obj.empty.assign ((truthy palette.baseVersion).toList.map (Prod.mk "lab".toList) ++
    (decompileLab palette lab).items.filterMap (versionEntry palette))

theorem get_stamped_lab : (stamped palette lab).get "lab".toList = palette.current "lab".toList := by
  have hi : "lab".toList ∉
      ((decompileLab palette lab).items.filterMap (versionEntry palette)).map Prod.fst := by
    intro hm
    obtain ⟨e, he, hk⟩ := List.mem_map.mp hm
    obtain ⟨i, hi, h⟩ := List.mem_filterMap.mp he
    obtain ⟨sec, _, _, hs, _⟩ := versionEntry_items i hi e h
    exact addonSchema_ne_lab sec.1 (hs ▸ hk)
  unfold stamped Palette.current
  rw [Obj.assign_append, Obj.get_assign_of_not_mem hi, if_pos rfl]
  cases truthy palette.baseVersion with
  | none => rfl
  | some v =>
    refine Obj.get_assign_of_forall (fun e he _ => ?_) (List.mem_cons_self (l := []))
    rw [List.mem_singleton.mp he]

/-- The section has a block of its own name. -/
def Blocked (palette : Palette) (lab : Lab) (sec : SectionName) : Prop :=
  sec.1 ≠ [] ∧ ∃ i ∈ (decompileLab palette lab).items, i.sec = some sec

theorem addonSchema_not_mem_base (sec : Text) :
    Cluster.addonSchema sec ∉ ((truthy palette.baseVersion).toList.map (Prod.mk "lab".toList)).map
      Prod.fst := by
  rw [List.map_map]
  intro hm
  obtain ⟨_, _, h⟩ := List.mem_map.mp hm
  exact addonSchema_ne_lab sec h.symm

theorem get_stamped_of_blocked {sec : SectionName} (h : Blocked palette lab sec) :
    (stamped palette lab).get (Cluster.addonSchema sec.1) =
      palette.current (Cluster.addonSchema sec.1) := by
  obtain ⟨hn, i, hi, hs⟩ := h
  unfold stamped
  rw [Obj.assign_append]
  cases hv : palette.current (Cluster.addonSchema sec.1) with
  | none =>
    rw [Obj.get_assign_of_not_mem, Obj.get_assign_of_not_mem (addonSchema_not_mem_base sec.1)]
    · rfl
    · intro hm
      obtain ⟨e, he, hk⟩ := List.mem_map.mp hm
      obtain ⟨j, hj, h⟩ := List.mem_filterMap.mp he
      obtain ⟨_, _, _, _, hc⟩ := versionEntry_items j hj e h
      rw [hk, hv] at hc
      cases hc
  | some v =>
    refine Obj.get_assign_of_forall (fun e he hk => ?_) ?_
    · obtain ⟨j, hj, h⟩ := List.mem_filterMap.mp he
      obtain ⟨_, _, _, _, hc⟩ := versionEntry_items j hj e h
      rw [hk, hv] at hc
      exact (Option.some.inj hc).symm
    · exact List.mem_map.mpr ⟨(_, v), List.mem_filterMap.mpr
        ⟨i, hi, versionEntry_of_sec hn i hi hs v hv⟩, rfl⟩

theorem get_stamped_of_not_blocked {sec : SectionName} (h : ¬ Blocked palette lab sec) :
    (stamped palette lab).get (Cluster.addonSchema sec.1) = none := by
  unfold stamped
  rw [Obj.assign_append, Obj.get_assign_of_not_mem,
    Obj.get_assign_of_not_mem (addonSchema_not_mem_base sec.1)]
  · rfl
  · intro hm
    obtain ⟨e, he, hk⟩ := List.mem_map.mp hm
    obtain ⟨j, hj, hv⟩ := List.mem_filterMap.mp he
    obtain ⟨sec', hs, hn, he', _⟩ := versionEntry_items j hj e hv
    have hsec : sec'.1 = sec.1 := List.append_cancel_left (he'.symm.trans hk)
    exact h ⟨hsec ▸ hn, j, hj, hs.trans (congrArg some (Subtype.ext hsec))⟩

/-- `recorded_versions("lab", data).get(name)`. -/
def Lab.version (lab : Lab) (schema : Text) : Option Text := (lab.versions.getD Obj.empty).get schema

/-- **The versions that are saved**: the recorded ones win over those of the palette. -/
theorem version_reopened {schema : Text} (hp : schema ≠ proto) : (reopened palette lab).version schema =
    ((recordedVersions palette lab).get schema).or ((stamped palette lab).get schema) := by
  unfold Lab.version
  have h : (reopened palette lab).versions.getD Obj.empty =
      schemaVersions palette (decompileLab palette lab) := part_getD _
  have hid : id schema ≠ proto := hp
  rw [h, schemaVersions, Obj.assign_append, Obj.get_assign_entries, get_copy, if_neg hid]
  rfl

theorem get_recordedVersions_of_some {versions : Obj Text Text} (hv : lab.versions = some versions)
    {schema : Text} (hp : schema ≠ proto) :
    (recordedVersions palette lab).get schema = lab.version schema := by
  unfold recordedVersions Lab.version
  rw [hv]
  have hid : id schema ≠ proto := hp
  dsimp only
  rw [get_copy, if_neg hid]
  rfl

theorem recordedVersions_of_isEmpty (he : lab.IsEmpty) : recordedVersions palette lab = Obj.empty := by
  unfold recordedVersions
  rw [Option.isNone_iff_eq_none.mp he.2.2.2.1]
  exact if_pos he

/-- A definition that records no version is taken to be of the first one throughout. -/
theorem getD_version_of_first (hv : lab.versions = none) (he : ¬ lab.IsEmpty) {schema : Text}
    (hs : schema = "lab".toList ∨ ∃ sec : SectionName, schema = Cluster.addonSchema sec.1) :
    ((reopened palette lab).version schema).getD "1.0".toList = "1.0".toList := by
  set es := ("lab".toList, "1.0".toList) ::
    ((ownedItems palette lab).filterMap Item.sec |>.filter fun sec => decide (sec.1 ≠ [])).map
      firstVersion ++
    (lab.sections.entries.filter fun e => (config palette e.1 e.2).isSome).map fun e =>
      firstVersion e.1 with hes
  have hr : recordedVersions palette lab = Obj.empty.assign es := by
    unfold recordedVersions
    rw [hv]
    exact if_neg he
  have hfirst : ∀ e ∈ es, e.2 = "1.0".toList := by
    intro e hm
    rw [hes] at hm
    rcases List.mem_append.mp hm with hm | hm
    · rcases List.mem_cons.mp hm with rfl | hm
      · rfl
      · obtain ⟨_, _, rfl⟩ := List.mem_map.mp hm
        rfl
    · obtain ⟨_, _, rfl⟩ := List.mem_map.mp hm
      rfl
  have hp : schema ≠ proto := by
    rcases hs with rfl | ⟨sec, rfl⟩
    · decide
    · exact addonSchema_ne_proto sec.1
  rw [version_reopened hp, hr]
  by_cases hk : schema ∈ es.map Prod.fst
  · rw [Obj.get_assign_of_forall (fun e hm _ => hfirst e hm) hk]
    rfl
  · rw [Obj.get_assign_of_not_mem hk, Obj.get_empty, Option.none_or]
    -- a schema that is not recorded has no block, so the palette gives it no version either
    rcases hs with rfl | ⟨sec, rfl⟩
    · refine absurd (List.mem_map.mpr ⟨("lab".toList, "1.0".toList), ?_, rfl⟩) hk
      exact List.mem_append_left _ List.mem_cons_self
    · rw [get_stamped_of_not_blocked]
      · rfl
      · rintro ⟨hn, hi⟩
        refine hk (List.mem_map.mpr ⟨firstVersion sec, ?_, rfl⟩)
        rw [hes]
        rcases exists_items_iff.mp hi with ha | ⟨v, hv, hc⟩
        · obtain ⟨i, hi, hsec⟩ : ∃ i ∈ ownedItems palette lab, i.sec = some sec :=
            exists_ownedItems_iff.mpr ha
          exact List.mem_append_left _ (List.mem_cons_of_mem _ (List.mem_map_of_mem
            (List.mem_filter.mpr ⟨List.mem_filterMap.mpr ⟨i, hi, hsec⟩, decide_eq_true hn⟩)))
        · exact List.mem_append_right _ (List.mem_map.mpr ⟨(sec, v), List.mem_filter.mpr
            ⟨Obj.mem_entries_iff.mpr hv, hc⟩, rfl⟩)

end LabInABox.Web
