import LabInABox.Schema.Migrate
import LabInABox.Web.Sections

/-!
# Opening a lab and saving it

What `compileLab` makes of the blocks that `decompileLab` made: whether the lab that is saved means what
the lab that was opened means.

* `SameMeaning` is what a run reads of the two: the names in their order, the add-on lists with their
  overrides, the value of every field, the sections, and the pending migrations of every schema.
* The value of a field of a node is that of the node where it has one, even an empty one, else that of
  `common`.
* An add-on of a list that has no section may be given an empty one.

Results:
* `sameMeaning_iff`: exactly when the lab that is saved means the same.
* `SameMeaning.pending_eq`: it then has the same pending migrations.
* `override_lost`: a VM whose field is empty comes back with the value of `common`.
-/

namespace LabInABox.Web

open Text
open Schema (Json)

/-! ## What a run reads of a lab -/

/-- The entry, as `addon_entry_name` reads it. -/
def AddonEntry.entry : AddonEntry → Cluster.Entry
  | plain sec => .plain sec.1
  | mapping sec _ => .mapping [sec.1]

/-- The add-ons of a node or a kcluster, with their overrides. -/
def Owner.addonList (o : Owner) : List (SectionName × Obj Text Json) :=
  o.entries.map fun e => (e.sec, e.overrides)

/-- The value of a field of a node or a kcluster. -/
def fieldOf (os : Obj Text Owner) (name : Text) (field : FieldName) : Option Json :=
  (os.get name).bind fun o => o.fields.get field

namespace Lab

variable (lab : Lab)

/-- The value of a field of a node: its own, even where it is empty, else that of `common`. -/
def value (name : Text) (field : FieldName) : Option Json :=
  (fieldOf lab.nodesObj name field).or (lab.commonObj.get field.1)

/-- What `schemas_of` reads: the add-on lists, and the sections that are mappings. -/
def cluster : Cluster.Lab where
  kclusters := lab.kclustersObj.entries.map fun k => (k.1, ⟨[], k.2.entries.map AddonEntry.entry⟩)
  nodes := lab.nodesObj.entries.map fun n => (n.1, ⟨none, [], none, n.2.entries.map AddonEntry.entry⟩)
  sections := (lab.sections.entries.filter fun e => Schema.isMapping e.2).map fun e => e.1.1
  nodup_kclusters := by
    rw [List.map_map]
    exact lab.kclustersObj.nodup
  nodup_nodes := by
    rw [List.map_map]
    exact lab.nodesObj.nodup

/-- `schemas_of("lab", data)`. -/
def schemas : Except Cluster.Die (List Text) := Cluster.schemasOf lab.cluster

/-- `recorded.get(name, "1.0")`. -/
def recorded (schema : Text) : Text := (lab.version schema).getD "1.0".toList

end Lab

/-- The migrations of a schema that a file of the given version still needs. -/
def pendingAt (record : Schema.Record) (schema version : Text) :
    Except Schema.Failure (List Schema.Pending) := do
  let key ← Schema.keyOf version
  let ps ← (record.entries schema).mapM (Schema.due schema key)
  return ps.reduceOption

/-- `pending("lab", data, record)`. -/
def Lab.pending (record : Schema.Record) (lab : Lab) : Except Schema.Failure (List Schema.Pending) := do
  let names ← lab.schemas.mapError .die
  (names.mapM fun name => pendingAt record name (lab.recorded name)).map List.flatten

/-! ## The same meaning -/

/-- The same names in the same order, each with the same add-ons. -/
structure SameOwners (os' os : Obj Text Owner) : Prop where
  keys : os'.keys = os.keys
  addons : ∀ name, (os'.get name).map Owner.addonList = (os.get name).map Owner.addonList

/-- A value with nothing in it. -/
def Nothing (v : Json) : Prop := v = .null ∨ v = .mapping []

/-- A section that was there is there with the same contents, and any other one is empty. -/
def SameContents (after : Option Json) : Option Json → Prop
  | some v => ∃ v', after = some v' ∧ (v' = v ∨ Nothing v ∧ v' = .mapping [])
  | none => after = none ∨ after = some (.mapping [])

/-- One lab means what the other does. -/
structure SameMeaning (record : Schema.Record) (lab' lab : Lab) : Prop where
  nodes : SameOwners lab'.nodesObj lab.nodesObj
  kclusters : SameOwners lab'.kclustersObj lab.kclustersObj
  values : ∀ name ∈ lab.nodesObj.keys, ∀ field, lab'.value name field = lab.value name field
  fields : ∀ name field, fieldOf lab'.kclustersObj name field = fieldOf lab.kclustersObj name field
  common : ∀ field, lab'.commonObj.get field = lab.commonObj.get field
  sections : ∀ sec, SameContents (lab'.sections.get sec) (lab.sections.get sec)
  schemas : lab'.schemas = lab.schemas
  pending : ∀ schemas, lab.schemas = .ok schemas → ∀ schema ∈ schemas,
    pendingAt record schema (lab'.recorded schema) = pendingAt record schema (lab.recorded schema)

/-! ## What survives -/

/-- No field is blank. -/
def Kept {κ : Type} (key : κ → Text) (o : Obj κ Json) : Prop :=
  ∀ e ∈ o.entries, key e.1 ≠ proto ∧ isBlank e.2 = false

/-- Nodes or kclusters with names, whose fields are not blank and whose lists name no add-on twice. -/
structure OwnersSurvive (os : Obj Text Owner) : Prop where
  names : ∀ name ∈ os.keys, name ≠ [] ∧ name ≠ proto
  addons : ∀ e ∈ os.entries,
    (e.2.entries.map AddonEntry.sec).Nodup ∧ ∀ a ∈ e.2.entries, a.sec.1 ≠ []
  fields : ∀ e ∈ os.entries, Kept Subtype.val e.2.fields

/-- A section that the palette knows has a name, and any other one is not hidden, nor that of an add-on
of a list unless there is nothing in it. -/
structure SectionSurvives (palette : Palette) (lab : Lab) (sec : SectionName) (v : Json) : Prop where
  known : (config palette sec v).isSome → sec.1 ≠ [] ∧ sec.1 ≠ proto
  other : config palette sec v = none → sec.1 ∉ inherited ∧ (Attached lab sec → Nothing v)

/-- The lab has no blank field, no add-on twice in a list and no section that is hidden; and where it
records versions for some schemas only, the palette's versions of the others leave their migrations
pending. -/
structure Survives (record : Schema.Record) (palette : Palette) (lab : Lab) : Prop where
  nodes : OwnersSurvive lab.nodesObj
  kclusters : OwnersSurvive lab.kclustersObj
  common : Kept id lab.commonObj
  sections : ∀ e ∈ lab.sections.entries, SectionSurvives palette lab e.1 e.2
  versions : lab.versions ≠ none ∨ lab.IsEmpty → ∀ schemas, lab.schemas = .ok schemas →
    ∀ schema ∈ schemas, lab.version schema = none →
      pendingAt record schema ((palette.current schema).getD "1.0".toList) =
        pendingAt record schema "1.0".toList

variable {record : Schema.Record} {palette : Palette} {lab lab' : Lab}

/-- The migrations of a schema, as a migration run finds them. -/
theorem pendingFor_eq (d : Schema.Definition) (schema : Text) :
    Schema.pendingFor record d schema = pendingAt record schema (d.recorded schema) := rfl

theorem mapM_congr_left {α β ε : Type} {f g : α → Except ε β} {l : List α} (h : ∀ a ∈ l, f a = g a) :
    l.mapM f = l.mapM g := by
  induction l with
  | nil => rfl
  | cons a l ih =>
    rw [List.mapM_cons, List.mapM_cons, h a List.mem_cons_self,
      ih fun b hb => h b (List.mem_cons_of_mem _ hb)]

/-- **The same pending migrations**, schema by schema, are the same altogether. -/
theorem SameMeaning.pending_eq (h : SameMeaning record lab' lab) :
    lab'.pending record = lab.pending record := by
  unfold Lab.pending
  rw [h.schemas]
  cases hs : lab.schemas with
  | error e => rfl
  | ok names =>
    change Except.map List.flatten (names.mapM _) = Except.map List.flatten (names.mapM _)
    rw [mapM_congr_left fun name hn => h.pending names hs name hn]

/-! ## Fields -/

theorem kept_iff {κ : Type} [DecidableEq κ] {key : κ → Text} {o : Obj κ Json} :
    Kept key o ↔ ∀ k, (cleanObj key o).get k = o.get k := by
  constructor
  · intro h k
    rw [get_cleanObj]
    cases hv : o.get k with
    | none => exact ite_self _
    | some v =>
      obtain ⟨hp, hb⟩ := h (k, v) (Obj.mem_entries_iff.mpr hv)
      rw [if_neg hp, Option.filter_some, if_pos (by simpa using hb)]
  · intro h e he
    have hv := Obj.mem_entries_iff.mp he
    have hc := h e.1
    rw [get_cleanObj, hv] at hc
    split at hc
    · cases hc
    · rename_i hp
      exact ⟨hp, by simpa using (Option.filter_eq_some_iff.mp hc).2⟩

/-! ## Nodes and kclusters -/

section Owners

variable {fields : Owner → Obj FieldName Json} {os : Obj Text Owner}

theorem keys_saved : (os.filterMap (saved fields)).keys =
    os.keys.filter fun name => decide (¬ (name = [] ∨ name = proto)) := by
  unfold Obj.keys Obj.filterMap
  dsimp only
  induction os.entries with
  | nil => rfl
  | cons e es ih =>
    rw [List.filterMap_cons, List.map_cons, saved]
    by_cases h : e.1 = [] ∨ e.1 = proto
    · have hd : ¬ decide (¬ (e.1 = [] ∨ e.1 = proto)) = true := fun hd => of_decide_eq_true hd h
      rw [if_pos h, List.filter_cons, if_neg hd]
      exact ih
    · have hd : decide (¬ (e.1 = [] ∨ e.1 = proto)) = true := decide_eq_true h
      rw [if_neg h, List.filter_cons, if_pos hd, ← ih]
      rfl

theorem keys_saved_eq_iff :
    (os.filterMap (saved fields)).keys = os.keys ↔ ∀ name ∈ os.keys, name ≠ [] ∧ name ≠ proto := by
  rw [keys_saved, List.filter_eq_self]
  simp only [decide_eq_true_eq, not_or, ne_eq]

theorem get_saved (h : ∀ name ∈ os.keys, name ≠ [] ∧ name ≠ proto) (name : Text) :
    (os.filterMap (saved fields)).get name =
      (os.get name).map fun o => ⟨fields o, nonempty (entriesOf [] (children o.entries))⟩ := by
  rw [Obj.get_filterMap]
  cases ho : os.get name with
  | none => rfl
  | some o =>
    obtain ⟨hn, hp⟩ := h name (Obj.mem_keys_iff.mpr ⟨o, ho⟩)
    rw [Option.bind_some, saved, if_neg (not_or.mpr ⟨hn, hp⟩)]
    rfl

theorem addonEntry_override (a : AddonEntry) :
    (addonEntry a.sec a.override).overrides = a.overrides := by
  cases a with
  | plain sec => rfl
  | mapping sec overrides =>
    cases overrides with
    | none => rfl
    | some o =>
      by_cases h : o.entries.isEmpty
      · have ho : o = Obj.empty := Obj.ext (List.isEmpty_iff.mp h)
        subst ho
        rfl
      · have hs : (AddonEntry.mapping sec (some o)).override = some o := by
          simp [AddonEntry.override, h]
        rw [hs, addonEntry, if_neg h]
        rfl

/-- **The add-on list that is saved** is the one of the lab, exactly when it names every add-on once. -/
theorem addonList_saved_iff {o : Owner} {f : Obj FieldName Json} :
    Owner.addonList ⟨f, nonempty (entriesOf [] (children o.entries))⟩ = o.addonList ↔
      (o.entries.map AddonEntry.sec).Nodup ∧ ∀ a ∈ o.entries, a.sec.1 ≠ [] := by
  unfold Owner.addonList
  have he : Owner.entries ⟨f, nonempty (entriesOf [] (children o.entries))⟩ =
      entriesOf [] (children o.entries) := nonempty_getD _
  rw [he]
  have hfst : (children o.entries).map Prod.fst =
      (o.entries.filter fun e => decide (e.sec.1 ≠ [])).map AddonEntry.sec := by
    rw [children, List.map_map]
    rfl
  constructor
  · intro h
    have hs : (entriesOf [] (children o.entries)).map AddonEntry.sec = o.entries.map AddonEntry.sec := by
      have hm := congrArg (List.map Prod.fst) h
      rwa [List.map_map, List.map_map] at hm
    obtain ⟨hnd, hmem⟩ := nodup_entriesOf (children o.entries) []
    refine ⟨hs ▸ hnd, fun a ha => ?_⟩
    have hm : a.sec ∈ (entriesOf [] (children o.entries)).map AddonEntry.sec := by
      rw [hs]
      exact List.mem_map_of_mem ha
    obtain ⟨e, he, hes⟩ := List.mem_map.mp hm
    have hc := (hmem e he).2
    rw [hfst, hes] at hc
    obtain ⟨b, hb, hbs⟩ := List.mem_map.mp hc
    rw [← hbs]
    exact of_decide_eq_true (List.mem_filter.mp hb).2
  · rintro ⟨hnd, hne⟩
    have hall : (o.entries.filter fun e => decide (e.sec.1 ≠ [])) = o.entries :=
      List.filter_eq_self.mpr fun a ha => decide_eq_true (hne a ha)
    rw [hall] at hfst
    rw [entriesOf_of_nodup _ _ (hfst ▸ hnd) fun _ _ => List.not_mem_nil, children, hall,
      List.map_map, List.map_map]
    refine List.map_congr_left fun a _ => ?_
    rw [Function.comp_apply, Function.comp_apply, sec_addonEntry, addonEntry_override]

/-- The owners that are saved are those of the lab, as far as names and add-ons go. -/
theorem sameOwners_saved_iff : SameOwners (os.filterMap (saved fields)) os ↔
    (∀ name ∈ os.keys, name ≠ [] ∧ name ≠ proto) ∧ ∀ e ∈ os.entries,
      (e.2.entries.map AddonEntry.sec).Nodup ∧ ∀ a ∈ e.2.entries, a.sec.1 ≠ [] := by
  constructor
  · rintro ⟨hk, ha⟩
    have hn := keys_saved_eq_iff.mp hk
    refine ⟨hn, fun e he => ?_⟩
    have hg := Obj.mem_entries_iff.mp he
    have h := ha e.1
    rw [get_saved hn, hg] at h
    exact addonList_saved_iff.mp (Option.some.inj h)
  · rintro ⟨hn, ha⟩
    refine ⟨keys_saved_eq_iff.mpr hn, fun name => ?_⟩
    rw [get_saved hn]
    cases hg : os.get name with
    | none => rfl
    | some o =>
      exact congrArg some (addonList_saved_iff.mpr (ha (name, o) (Obj.mem_entries_iff.mpr hg)))

/-- The value of a field that is saved. -/
theorem fieldOf_saved (hf : ∀ o field, (fields o).get field = (cleanObj Subtype.val o.fields).get field)
    (hn : ∀ name ∈ os.keys, name ≠ [] ∧ name ≠ proto) (name : Text) (field : FieldName) :
    fieldOf (os.filterMap (saved fields)) name field =
      (os.get name).bind fun o => (cleanObj Subtype.val o.fields).get field := by
  unfold fieldOf
  rw [get_saved hn]
  cases os.get name with
  | none => rfl
  | some o => exact hf o field

end Owners

/-! ## Schemas -/

theorem addonNames_entry (es : List AddonEntry) :
    Cluster.addonNames (es.map AddonEntry.entry) = .ok (es.map fun e => e.sec.1) := by
  unfold Cluster.addonNames
  induction es with
  | nil => rfl
  | cons e es ih =>
    refine mapM_eq_ok_cons.mpr ⟨e.sec.1, es.map fun e => e.sec.1, ?_, ih, rfl⟩
    cases e <;> rfl

theorem entries_cluster (lab : Lab) : lab.cluster.entries = lab.entries.map AddonEntry.entry := by
  unfold Cluster.Lab.entries Lab.cluster Lab.entries
  rw [List.map_append, List.map_flatMap, List.map_flatMap, List.flatMap_map, List.flatMap_map]

theorem collectAddonNames_cluster (lab : Lab) : Cluster.collectAddonNames lab.cluster =
    .ok (sorted ((lab.entries.map fun e => e.sec.1).eraseDups)) := by
  unfold Cluster.collectAddonNames
  rw [entries_cluster, addonNames_entry]
  rfl

theorem mem_cluster_sections {n : Text} : n ∈ lab.cluster.sections ↔
    ∃ sec v, lab.sections.get sec = some v ∧ Schema.isMapping v = true ∧ sec.1 = n := by
  unfold Lab.cluster
  simp only [List.mem_map, List.mem_filter, Prod.exists, Obj.mem_entries_iff, and_assoc]

/-- A schema of a lab is that of the definition, or of an add-on of a list or a section. -/
theorem schema_cases {schemas : List Text} (h : lab.schemas = .ok schemas) {schema : Text}
    (hm : schema ∈ schemas) : schema = "lab".toList ∨ ∃ sec : SectionName,
      schema = Cluster.addonSchema sec.1 ∧ (sec ∈ lab.entries.map AddonEntry.sec ∨
        ∃ v, lab.sections.get sec = some v ∧ Schema.isMapping v = true) := by
  unfold Lab.schemas Cluster.schemasOf at h
  rw [collectAddonNames_cluster] at h
  obtain rfl := Except.ok.inj h
  rcases List.mem_cons.mp hm with rfl | hm
  · exact Or.inl rfl
  · obtain ⟨n, hn, rfl⟩ := List.mem_map.mp (mem_sorted.mp hm)
    refine Or.inr ?_
    rcases List.mem_append.mp (List.mem_eraseDups.mp (List.mem_filter.mp hn).1) with hn | hn
    · obtain ⟨e, he, rfl⟩ := List.mem_map.mp (List.mem_eraseDups.mp (mem_sorted.mp hn))
      exact ⟨e.sec, rfl, Or.inl (List.mem_map_of_mem he)⟩
    · obtain ⟨sec, v, hv, hmap, rfl⟩ := mem_cluster_sections.mp hn
      exact ⟨sec, rfl, Or.inr ⟨v, hv, hmap⟩⟩

/-- What every owner gives, by the keys. -/
theorem flatMap_entries {γ : Type} (os : Obj Text Owner) (g : Owner → List γ) :
    (os.entries.flatMap fun e => g e.2) = os.keys.flatMap fun k => ((os.get k).map g).getD [] := by
  unfold Obj.keys
  rw [List.flatMap_map]
  refine List.flatMap_congr fun e he => ?_
  rw [Obj.mem_entries_iff.mp he]
  rfl

theorem SameOwners.flatMap {os' os : Obj Text Owner} (h : SameOwners os' os) :
    (os'.entries.flatMap fun e => e.2.addonList) = os.entries.flatMap fun e => e.2.addonList := by
  rw [flatMap_entries, flatMap_entries, h.keys]
  exact List.flatMap_congr fun k _ => by rw [h.addons k]

theorem map_sec_entries (lab : Lab) : lab.entries.map AddonEntry.sec =
    ((lab.kclustersObj.entries.flatMap fun e => e.2.addonList) ++
      lab.nodesObj.entries.flatMap fun e => e.2.addonList).map Prod.fst := by
  unfold Lab.entries Owner.addonList
  rw [List.map_append, List.map_append, List.map_flatMap, List.map_flatMap, List.map_flatMap,
    List.map_flatMap]
  simp only [List.map_map, Function.comp_def]

theorem map_sec_entries_congr (hn : SameOwners lab'.nodesObj lab.nodesObj)
    (hk : SameOwners lab'.kclustersObj lab.kclustersObj) :
    lab'.entries.map AddonEntry.sec = lab.entries.map AddonEntry.sec := by
  rw [map_sec_entries, map_sec_entries, hn.flatMap, hk.flatMap]

/-- **The schemas** of the lab that is saved. -/
theorem schemas_reopened (hn : SameOwners (reopened palette lab).nodesObj lab.nodesObj)
    (hk : SameOwners (reopened palette lab).kclustersObj lab.kclustersObj)
    (hs : ∀ e ∈ lab.sections.entries, SectionSurvives palette lab e.1 e.2) :
    (reopened palette lab).schemas = lab.schemas := by
  have he := map_sec_entries_congr hn hk
  have hval : ∀ l : List AddonEntry, (l.map fun e => e.sec.1) =
      (l.map AddonEntry.sec).map Subtype.val := fun l => by rw [List.map_map]; rfl
  have hc : Cluster.collectAddonNames (reopened palette lab).cluster =
      Cluster.collectAddonNames lab.cluster := by
    rw [collectAddonNames_cluster, collectAddonNames_cluster, hval, he, hval]
  refine Cluster.schemasOf_congr_names hc fun names hnames n => ?_
  have hattached : ∀ sec, Attached lab sec → sec.1 ∈ names := by
    intro sec ha
    rw [collectAddonNames_cluster] at hnames
    obtain rfl := Except.ok.inj hnames
    rw [mem_sorted, List.mem_eraseDups, hval]
    exact List.mem_map_of_mem ha.2
  rw [mem_cluster_sections, mem_cluster_sections]
  constructor
  · rintro (h | ⟨sec, w, hw, hm, rfl⟩)
    · exact Or.inl h
    · cases hv : lab.sections.get sec with
      | none =>
        rcases @get_sections_of_none palette lab sec hv with h | ⟨_, ha⟩
        · rw [hw] at h
          cases h
        · exact Or.inl (hattached sec ha)
      | some v =>
        by_cases ha : Attached lab sec
        · exact Or.inl (hattached sec ha)
        · refine Or.inr ⟨sec, v, hv, ?_, rfl⟩
          obtain ⟨hknown, hother⟩ := hs (sec, v) (Obj.mem_entries_iff.mpr hv)
          cases hcfg : config palette sec v with
          | none =>
            rw [get_sections_of_extra hv hcfg (hother hcfg).1 ha] at hw
            exact Option.some.inj hw ▸ hm
          | some items =>
            obtain ⟨hn, hp⟩ := hknown (by rw [hcfg]; rfl)
            rw [get_sections_of_config hv hcfg, if_neg (not_or.mpr ⟨hn, hp⟩)] at hw
            exact Option.some.inj hw ▸ hm
  · rintro (h | ⟨sec, v, hv, hm, rfl⟩)
    · exact Or.inl h
    · by_cases ha : Attached lab sec
      · exact Or.inl (hattached sec ha)
      · refine Or.inr ⟨sec, v, ?_, hm, rfl⟩
        obtain ⟨hknown, hother⟩ := hs (sec, v) (Obj.mem_entries_iff.mpr hv)
        cases hcfg : config palette sec v with
        | none => exact get_sections_of_extra hv hcfg (hother hcfg).1 ha
        | some items =>
          obtain ⟨hn, hp⟩ := hknown (by rw [hcfg]; rfl)
          rw [get_sections_of_config hv hcfg, if_neg (not_or.mpr ⟨hn, hp⟩)]

/-! ## Sections -/

/-- **The sections** of the lab that is saved. -/
theorem sameContents_iff : (∀ sec, SameContents ((reopened palette lab).sections.get sec)
      (lab.sections.get sec)) ↔
    ∀ e ∈ lab.sections.entries, SectionSurvives palette lab e.1 e.2 := by
  have hone : ∀ sec v, lab.sections.get sec = some v →
      (SameContents ((reopened palette lab).sections.get sec) (some v) ↔
        SectionSurvives palette lab sec v) := by
    intro sec v hv
    cases hcfg : config palette sec v with
    | some items =>
      rw [get_sections_of_config hv hcfg]
      constructor
      · rintro ⟨v', h, _⟩
        refine ⟨fun _ => ?_, fun h => by rw [hcfg] at h; cases h⟩
        split at h
        · cases h
        · rename_i hn
          exact not_or.mp hn
      · rintro ⟨hknown, _⟩
        rw [if_neg (not_or.mpr (hknown (by rw [hcfg]; rfl)))]
        exact ⟨v, rfl, Or.inl rfl⟩
    | none =>
      have hc : ∀ w, lab.sections.get sec = some w → config palette sec w = none := by
        intro w hw
        rw [hv] at hw
        exact Option.some.inj hw ▸ hcfg
      have hno : (config palette sec v).isSome → sec.1 ≠ [] ∧ sec.1 ≠ proto := by
        intro h
        rw [hcfg] at h
        cases h
      by_cases hin : sec.1 ∈ inherited
      · rw [get_sections_of_inherited hc hin]
        constructor
        · rintro ⟨_, h, _⟩
          cases h
        · rintro ⟨_, hother⟩
          exact absurd hin (hother hcfg).1
      · by_cases ha : Attached lab sec
        · rw [get_sections_of_attached hc hin ha]
          constructor
          · rintro ⟨v', h, hv'⟩
            obtain rfl := Option.some.inj h
            refine ⟨hno, fun _ => ⟨hin, fun _ => ?_⟩⟩
            rcases hv' with rfl | ⟨hv', _⟩
            · exact Or.inr rfl
            · exact hv'
          · rintro ⟨_, hother⟩
            exact ⟨_, rfl, Or.inr ⟨(hother hcfg).2 ha, rfl⟩⟩
        · rw [get_sections_of_extra hv hcfg hin ha]
          exact ⟨fun _ => ⟨hno, fun _ => ⟨hin, fun h => absurd h ha⟩⟩, fun _ => ⟨v, rfl, Or.inl rfl⟩⟩
  constructor
  · intro h e he
    have hv := Obj.mem_entries_iff.mp he
    have hc := h e.1
    rw [hv] at hc
    exact (hone e.1 e.2 hv).mp hc
  · intro h sec
    cases hv : lab.sections.get sec with
    | none =>
      rcases @get_sections_of_none palette lab sec hv with hn | ⟨hn, _⟩
      · exact Or.inl hn
      · exact Or.inr hn
    | some v => exact (hone sec v hv).mpr (h (sec, v) (Obj.mem_entries_iff.mpr hv))

/-! ## Versions -/

section Versions

variable {schemas : List Text} {schema : Text}

theorem ne_proto_of_schema (h : lab.schemas = .ok schemas) (hm : schema ∈ schemas) :
    schema ≠ proto := by
  rcases schema_cases h hm with rfl | ⟨sec, rfl, _⟩
  · decide
  · exact addonSchema_ne_proto sec.1

/-- A mapping that is no setting of an add-on is not the section of a component. -/
theorem componentFor_of_config {sec : SectionName} {v : Json} (hm : Schema.isMapping v = true)
    (hc : config palette sec v = none) : palette.componentFor sec.1 = none := by
  cases v with
  | mapping items => exact Option.map_eq_none_iff.mp hc
  | _ => cases hm

/-- The palette gives a schema of the lab the version it has. -/
theorem get_stamped_of_schema (hne : ∀ sec ∈ lab.entries.map AddonEntry.sec, sec.1 ≠ [])
    (hs : ∀ e ∈ lab.sections.entries, SectionSurvives palette lab e.1 e.2)
    (h : lab.schemas = .ok schemas) (hm : schema ∈ schemas) :
    (stamped palette lab).get schema = palette.current schema := by
  rcases schema_cases h hm with rfl | ⟨sec, rfl, hsec⟩
  · exact get_stamped_lab
  · by_cases hb : Blocked palette lab sec
    · exact get_stamped_of_blocked hb
    · rcases hsec with hl | ⟨v, hv, hmap⟩
      · exact absurd ⟨hne sec hl, exists_items_iff.mpr (Or.inl ⟨hne sec hl, hl⟩)⟩ hb
      · obtain ⟨hknown, _⟩ := hs (sec, v) (Obj.mem_entries_iff.mpr hv)
        cases hc : config palette sec v with
        | some items =>
          have hsome : (config palette sec v).isSome := by rw [hc]; rfl
          exact absurd ⟨(hknown hsome).1, exists_items_iff.mpr (Or.inr ⟨v, hv, hsome⟩)⟩ hb
        | none =>
          rw [get_stamped_of_not_blocked hb, current_addonSchema, componentFor_of_config hmap hc]
          rfl

/-- **A version that is recorded** stays; the version of any other schema is that of the palette. -/
theorem version_reopened_of_schema (hne : ∀ sec ∈ lab.entries.map AddonEntry.sec, sec.1 ≠ [])
    (hs : ∀ e ∈ lab.sections.entries, SectionSurvives palette lab e.1 e.2)
    (hv : lab.versions ≠ none ∨ lab.IsEmpty) (h : lab.schemas = .ok schemas) (hm : schema ∈ schemas) :
    (reopened palette lab).version schema = (lab.version schema).or (palette.current schema) := by
  have hp := ne_proto_of_schema h hm
  rw [version_reopened hp, get_stamped_of_schema hne hs h hm]
  cases hvs : lab.versions with
  | some versions => rw [get_recordedVersions_of_some hvs hp]
  | none =>
    have he : lab.IsEmpty := hv.resolve_left fun h => h hvs
    rw [recordedVersions_of_isEmpty he, Lab.version, hvs]
    rfl

/-- **The pending migrations** of every schema, by the versions of the palette. -/
theorem pending_iff (hne : ∀ sec ∈ lab.entries.map AddonEntry.sec, sec.1 ≠ [])
    (hs : ∀ e ∈ lab.sections.entries, SectionSurvives palette lab e.1 e.2) :
    (∀ schemas, lab.schemas = .ok schemas → ∀ schema ∈ schemas,
      pendingAt record schema ((reopened palette lab).recorded schema) =
        pendingAt record schema (lab.recorded schema)) ↔
    (lab.versions ≠ none ∨ lab.IsEmpty → ∀ schemas, lab.schemas = .ok schemas →
      ∀ schema ∈ schemas, lab.version schema = none →
        pendingAt record schema ((palette.current schema).getD "1.0".toList) =
          pendingAt record schema "1.0".toList) := by
  constructor
  · intro hp hv schemas h schema hm hnone
    have he := hp schemas h schema hm
    unfold Lab.recorded at he
    rwa [version_reopened_of_schema hne hs hv h hm, hnone, Option.none_or] at he
  · intro hp schemas h schema hm
    unfold Lab.recorded
    by_cases hv : lab.versions ≠ none ∨ lab.IsEmpty
    · rw [version_reopened_of_schema hne hs hv h hm]
      cases hr : lab.version schema with
      | none => exact hp hv schemas h schema hm hr
      | some v => rfl
    · obtain ⟨hnone, hempty⟩ := not_or.mp hv
      have hvs : lab.versions = none := not_not.mp hnone
      have hschema : schema = "lab".toList ∨
          ∃ sec : SectionName, schema = Cluster.addonSchema sec.1 := by
        rcases schema_cases h hm with hl | ⟨sec, hl, _⟩
        · exact Or.inl hl
        · exact Or.inr ⟨sec, hl⟩
      have hold : lab.version schema = none := by
        rw [Lab.version, hvs]
        rfl
      rw [getD_version_of_first hvs hempty hschema, hold]
      rfl

end Versions

/-! ## The round trip -/

/-- The fields of the nodes, under `common`. -/
theorem values_iff (hn : ∀ name ∈ lab.nodesObj.keys, name ≠ [] ∧ name ≠ proto)
    (hc : Kept id lab.commonObj) :
    (∀ name ∈ lab.nodesObj.keys, ∀ field,
      (reopened palette lab).value name field = lab.value name field) ↔
    ∀ e ∈ lab.nodesObj.entries, Kept Subtype.val e.2.fields := by
  have hcommon : ∀ k, (reopened palette lab).commonObj.get k = lab.commonObj.get k := by
    intro k
    have h : (reopened palette lab).commonObj = cleanObj id (copy id lab.commonObj) := part_getD _
    rw [h, cleanObj_copy]
    exact kept_iff.mp hc k
  have hvalue : ∀ name o, lab.nodesObj.get name = some o → ∀ field,
      (reopened palette lab).value name field =
        ((cleanObj Subtype.val o.fields).get field).or (lab.commonObj.get field.1) := by
    intro name o ho field
    unfold Lab.value
    rw [nodesObj_reopened, fieldOf_saved get_savedFields hn, ho, Option.bind_some, hcommon]
  have hold : ∀ name o, lab.nodesObj.get name = some o → ∀ field,
      lab.value name field = (o.fields.get field).or (lab.commonObj.get field.1) := by
    intro name o ho field
    unfold Lab.value fieldOf
    rw [ho, Option.bind_some]
  constructor
  · intro h e he f hf
    have ho := Obj.mem_entries_iff.mp he
    have hv := h e.1 (Obj.mem_keys_iff.mpr ⟨e.2, ho⟩) f.1
    rw [hvalue e.1 e.2 ho, hold e.1 e.2 ho, Obj.mem_entries_iff.mp hf, get_cleanObj,
      Obj.mem_entries_iff.mp hf, Option.some_or] at hv
    -- a field that is dropped would have to be the one of `common`, which has no blank field
    by_contra hno
    have hnone : (if f.1.1 = proto then none else
        (some f.2).filter fun v => decide (isBlank v = false)) = none := by
      split
      · rfl
      · rename_i hp
        rw [Option.filter_some, if_neg]
        intro hb
        exact hno ⟨hp, of_decide_eq_true hb⟩
    rw [hnone, Option.none_or] at hv
    exact hno (hc (f.1.1, f.2) (Obj.mem_entries_iff.mpr hv))
  · intro h name hk field
    obtain ⟨o, ho⟩ := Obj.mem_keys_iff.mp hk
    rw [hvalue name o ho, hold name o ho, kept_iff.mp (h (name, o) (Obj.mem_entries_iff.mpr ho))]

theorem fields_iff (hn : ∀ name ∈ lab.kclustersObj.keys, name ≠ [] ∧ name ≠ proto) :
    (∀ name field, fieldOf (reopened palette lab).kclustersObj name field =
      fieldOf lab.kclustersObj name field) ↔
    ∀ e ∈ lab.kclustersObj.entries, Kept Subtype.val e.2.fields := by
  have hfield : ∀ name field, fieldOf (reopened palette lab).kclustersObj name field =
      (lab.kclustersObj.get name).bind fun o => (cleanObj Subtype.val o.fields).get field := by
    intro name field
    rw [kclustersObj_reopened, fieldOf_saved (fun _ _ => rfl) hn]
  constructor
  · intro h e he
    refine kept_iff.mpr fun field => ?_
    have hf := h e.1 field
    rw [hfield, fieldOf, Obj.mem_entries_iff.mp he, Option.bind_some, Option.bind_some] at hf
    exact hf
  · intro h name field
    rw [hfield, fieldOf]
    cases ho : lab.kclustersObj.get name with
    | none => rfl
    | some o => exact kept_iff.mp (h (name, o) (Obj.mem_entries_iff.mpr ho)) field

theorem common_iff : (∀ field, (reopened palette lab).commonObj.get field = lab.commonObj.get field) ↔
    Kept id lab.commonObj := by
  have h : (reopened palette lab).commonObj = cleanObj id (copy id lab.commonObj) := part_getD _
  rw [h, cleanObj_copy, kept_iff]

theorem sec_ne_nil (hn : OwnersSurvive lab.nodesObj) (hk : OwnersSurvive lab.kclustersObj) :
    ∀ sec ∈ lab.entries.map AddonEntry.sec, sec.1 ≠ [] := by
  intro sec hsec
  obtain ⟨a, ha, rfl⟩ := List.mem_map.mp hsec
  rcases List.mem_append.mp ha with ha | ha
  · obtain ⟨e, he, ha⟩ := List.mem_flatMap.mp ha
    exact (hk.addons e he).2 a ha
  · obtain ⟨e, he, ha⟩ := List.mem_flatMap.mp ha
    exact (hn.addons e he).2 a ha

/-- **The round trip**: exactly the labs with no blank field, no add-on twice in a list, no hidden
section and no version that the palette fills in come back with the same meaning. -/
theorem sameMeaning_iff (record : Schema.Record) (palette : Palette) (lab : Lab) :
    SameMeaning record (compileLab palette (decompileLab palette lab)) lab ↔
      Survives record palette lab := by
  change SameMeaning record (reopened palette lab) lab ↔ Survives record palette lab
  constructor
  · intro h
    have hnodes := h.nodes
    have hkclusters := h.kclusters
    rw [nodesObj_reopened, sameOwners_saved_iff] at hnodes
    rw [kclustersObj_reopened, sameOwners_saved_iff] at hkclusters
    have hcommon := common_iff.mp h.common
    have hn : OwnersSurvive lab.nodesObj :=
      ⟨hnodes.1, hnodes.2, (values_iff hnodes.1 hcommon).mp h.values⟩
    have hk : OwnersSurvive lab.kclustersObj :=
      ⟨hkclusters.1, hkclusters.2, (fields_iff hkclusters.1).mp h.fields⟩
    have hs := sameContents_iff.mp h.sections
    exact ⟨hn, hk, hcommon, hs, (pending_iff (sec_ne_nil hn hk) hs).mp h.pending⟩
  · intro h
    have hn : SameOwners (reopened palette lab).nodesObj lab.nodesObj := by
      rw [nodesObj_reopened, sameOwners_saved_iff]
      exact ⟨h.nodes.names, h.nodes.addons⟩
    have hk : SameOwners (reopened palette lab).kclustersObj lab.kclustersObj := by
      rw [kclustersObj_reopened, sameOwners_saved_iff]
      exact ⟨h.kclusters.names, h.kclusters.addons⟩
    exact
      { nodes := hn
        kclusters := hk
        values := (values_iff h.nodes.names h.common).mpr h.nodes.fields
        fields := (fields_iff h.kclusters.names).mpr h.kclusters.fields
        common := common_iff.mpr h.common
        sections := sameContents_iff.mpr h.sections
        schemas := schemas_reopened hn hk h.sections
        pending := (pending_iff (sec_ne_nil h.nodes h.kclusters) h.sections).mpr h.versions }

/-! ## An override that is empty -/

/-- The palette knows every add-on of the lists. -/
def Lab.Known (lab : Lab) (palette : Palette) : Prop :=
  ∀ sec ∈ lab.entries.map AddonEntry.sec, (palette.componentFor sec.1).isSome

/-- `"config_method"`. -/
def configMethod : FieldName := ⟨"config_method".toList, by decide⟩

/-- A VM that turns off the configuration method of the lab. -/
def overrideLab : Lab where
  common := some ⟨[(configMethod.1, .text "cloud-init".toList)], List.nodup_singleton _⟩
  nodes := some
    ⟨[("vm1".toList, ⟨⟨[(configMethod, .text [])], List.nodup_singleton _⟩, none⟩)],
      List.nodup_singleton _⟩
  kclusters := none
  versions := none
  sections := Obj.empty

/-- Saved, the VM has the configuration method of the lab. -/
theorem override_lost : overrideLab.Known ⟨[], none, fun _ => none⟩ ∧
    ¬ SameMeaning ⟨[], List.nodup_nil⟩ (compileLab ⟨[], none, fun _ => none⟩
      (decompileLab ⟨[], none, fun _ => none⟩ overrideLab)) overrideLab := by
  refine ⟨fun sec h => absurd h List.not_mem_nil, fun h => ?_⟩
  have hv := h.values "vm1".toList List.mem_cons_self configMethod
  have hafter : (compileLab ⟨[], none, fun _ => none⟩ (decompileLab ⟨[], none, fun _ => none⟩
      overrideLab)).value "vm1".toList configMethod = some (.text "cloud-init".toList) := by rfl
  have hbefore : overrideLab.value "vm1".toList configMethod = some (.text []) := by rfl
  rw [hafter, hbefore] at hv
  exact absurd (Json.text.inj (Option.some.inj hv)) (by decide)

end LabInABox.Web
