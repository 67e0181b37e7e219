import LabInABox.Objects
import LabInABox.Cluster.Addons
import LabInABox.Schema.Validate

/-!
# The lab definition and the blocks of the web UI

Model of `compileLab` and `decompileLab` (`webui/htdocs/app.js`): a lab definition opened in the web UI
becomes blocks, and what is saved is the definition the blocks describe.

* `common`, `nodes`, `kclusters` and `schema_versions` are each there as a mapping or not at all. The
  add-on list of a node or a kcluster is kept apart from its fields.
* An assignment to `__proto__` adds no key, and every object answers for the keys in `inherited`. The
  keys that an object given under `__proto__` would lend to others are left out.
* The letter in front of the number of an id is left out: the numbers alone are distinct.
* Every block of an opened lab has `flat: true`, so the blocks without it are left out.
* The palette is a parameter: the components, and the versions of the schemas that are loaded.

Results:
* `get_cleanObj`: what cleaning an object leaves.
* `nodup_entriesOf`, `entriesOf_of_nodup`: the list of a block names each add-on once.
-/

namespace LabInABox.Web

open Text
open Schema (Json)

/-! ## Keys -/

/-- The key that no assignment adds. -/
def proto : Text := "__proto__".toList

/-- The keys that every object answers for. -/
def inherited : List Text :=
  ["constructor".toList, "__defineGetter__".toList, "__defineSetter__".toList,
    "hasOwnProperty".toList, "__lookupGetter__".toList, "__lookupSetter__".toList,
    "isPrototypeOf".toList, "propertyIsEnumerable".toList, "toString".toList, "valueOf".toList, proto,
    "toLocaleString".toList]

/-- The parts of a definition. -/
def parts : List Text :=
  ["common".toList, "nodes".toList, "kclusters".toList, "schema_versions".toList]

/-- Any other top-level key. No component is called like a part of the definition. -/
abbrev SectionName := {k : Text // k ∉ parts}

/-- A field of a node or a kcluster. -/
abbrev FieldName := {k : Text // k ≠ "addons".toList}

/-- `"kcluster"`. -/
def kclusterField : FieldName := ⟨"kcluster".toList, by decide⟩

/-! ## The definition -/

/-- One entry of an add-on list: a name, or a mapping of one key, whose value may be null. -/
inductive AddonEntry
  | plain (sec : SectionName)
  | mapping (sec : SectionName) (overrides : Option (Obj Text Json))

/-- `addon_entry_name(entry)`. -/
def AddonEntry.sec : AddonEntry → SectionName
  | plain sec => sec
  | mapping sec _ => sec

/-- `addon_entry_overrides(entry)`. -/
def AddonEntry.overrides : AddonEntry → Obj Text Json
  | plain _ => Obj.empty
  | mapping _ overrides => overrides.getD Obj.empty

/-- A node or a kcluster. -/
structure Owner where
  fields : Obj FieldName Json
  addons : Option (List AddonEntry)

/-- `cfg.addons || []`. -/
def Owner.entries (o : Owner) : List AddonEntry := o.addons.getD []

/-- A lab definition. -/
structure Lab where
  common : Option (Obj Text Json)
  nodes : Option (Obj Text Owner)
  kclusters : Option (Obj Text Owner)
  versions : Option (Obj Text Text)
  sections : Obj SectionName Json

namespace Lab

variable (lab : Lab)

/-- `lab.common || {}`. -/
def commonObj : Obj Text Json := lab.common.getD Obj.empty

/-- `lab.nodes || {}`. -/
def nodesObj : Obj Text Owner := lab.nodes.getD Obj.empty

/-- `lab.kclusters || {}`. -/
def kclustersObj : Obj Text Owner := lab.kclusters.getD Obj.empty

/-- `!Object.keys(lab).length`. -/
def IsEmpty : Prop :=
  lab.common.isNone ∧ lab.nodes.isNone ∧ lab.kclusters.isNone ∧ lab.versions.isNone ∧
    lab.sections.entries.isEmpty

instance isEmptyDecidable : Decidable lab.IsEmpty := inferInstanceAs (Decidable (_ ∧ _))

end Lab

/-! ## The palette -/

/-- A component the palette offers. -/
structure Component where
  name : Text
  title : Text

/-- What is loaded: the components, and the versions of the schemas. -/
structure Palette where
  components : List Component
  baseVersion : Option Text
  schemaVersion : Text → Option Text

/-- A value that is there and not empty. -/
def truthy (t : Option Text) : Option Text := t.filter fun t => decide (t ≠ [])

/-- `componentFor(section)`; an empty name counts as none. -/
def Palette.componentFor (palette : Palette) (sec : Text) : Option Text :=
  if sec = "pxe".toList then some "__pxe".toList
  else
    truthy (((palette.components.find? fun c => decide (c.title = sec)).or
      (palette.components.find? fun c => decide (c.name = sec))).map Component.name)

/-! ## Blocks -/

/-- A block on the canvas. -/
inductive Item
  | cluster (id : Nat) (name : Text) (cfg : Obj FieldName Json)
  | node (id : Nat) (name : Text) (cfg : Obj FieldName Json) (parent : Option Nat)
  | addon (id : Nat) (comp : Option Text) (sec : SectionName) (override : Option (Obj Text Json))
      (parent : Option Nat)

namespace Item

/-- `i.id`. -/
def id : Item → Nat
  | cluster id _ _ => id
  | node id _ _ _ => id
  | addon id _ _ _ _ => id

/-- `i.name`. -/
def name : Item → Text
  | cluster _ name _ => name
  | node _ name _ _ => name
  | addon _ _ _ _ _ => []

/-- `i.section`, of an add-on. -/
def sec : Item → Option SectionName
  | addon _ _ sec _ _ => some sec
  | _ => none

end Item

/-- The blocks, and what is kept of the definition besides them. -/
structure Model where
  common : Obj Text Json
  items : List Item
  addonCfg : Obj SectionName Text
  extra : Obj SectionName Json
  recordedVersions : Obj Text Text

/-! ## From the blocks to the definition -/

section Clean

variable {κ β : Type} [DecidableEq κ] (key : κ → Text)

/-- `Object.assign({}, o)`. -/
def copy (o : Obj κ β) : Obj κ β := o.filter fun e => decide (key e.1 ≠ proto)

/-- `v === undefined || v === null || v === "" || (Array.isArray(v) && !v.length)`. -/
def isBlank : Json → Bool
  | .null => true
  | .text t => t.isEmpty
  | .list items => items.isEmpty
  | _ => false

/-- `cleanObj(o)`. -/
def cleanObj (o : Obj κ Json) : Obj κ Json :=
  o.filter fun e => decide (key e.1 ≠ proto ∧ isBlank e.2 = false)

end Clean

/-- `byId[id]`: the last block counts. -/
def byId (items : List Item) (id : Nat) : Option Item := items.reverse.find? fun i => decide (i.id = id)

/-- The add-on that a block attaches to block `id`, with its override. -/
def childOf (id : Nat) : Item → Option (SectionName × Option (Obj Text Json))
  | .addon _ _ sec override (some parent) =>
    if parent = id ∧ sec.1 ≠ [] then some (sec, override) else none
  | _ => none

/-- `a.override && Object.keys(a.override).length ? {[a.section]: a.override} : a.section`. -/
def addonEntry (sec : SectionName) : Option (Obj Text Json) → AddonEntry
  | some o => if o.entries.isEmpty then .plain sec else .mapping sec (some o)
  | none => .plain sec

/-- The entries of the add-ons that are not among `names`, each once. -/
def entriesOf (names : List SectionName) :
    List (SectionName × Option (Obj Text Json)) → List AddonEntry
  | [] => []
  | (sec, override) :: rest =>
    if sec ∈ names then entriesOf names rest
    else addonEntry sec override :: entriesOf (sec :: names) rest

/-- `attached(id)`. -/
def attached (items : List Item) (id : Nat) : List AddonEntry :=
  entriesOf [] (items.filterMap (childOf id))

/-- The list, unless it is empty. -/
def nonempty {α : Type} (l : List α) : Option (List α) := if l.isEmpty then none else some l

/-- The object, unless it is empty. -/
def part {κ β : Type} (o : Obj κ β) : Option (Obj κ β) := if o.entries.isEmpty then none else some o

/-- The fields of a node: `o.kcluster = c.name` for the kcluster it is in. -/
def nodeFields (items : List Item) (cfg : Obj FieldName Json) (parent : Option Nat) :
    Obj FieldName Json :=
  match parent.bind (byId items) with
  | some c =>
    if c.name = [] then cleanObj Subtype.val cfg
    else (cleanObj Subtype.val cfg).set kclusterField (.text c.name)
  | none => cleanObj Subtype.val cfg

/-- The assignment to `nodes[i.name]`. -/
def nodeEntry (items : List Item) : Item → Option (Text × Owner)
  | .node id name cfg parent =>
    if name = [] ∨ name = proto then none
    else some (name, ⟨nodeFields items cfg parent, nonempty (attached items id)⟩)
  | _ => none

/-- The assignment to `clusters[i.name]`. -/
def clusterEntry (items : List Item) : Item → Option (Text × Owner)
  | .cluster id name cfg =>
    if name = [] ∨ name = proto then none
    else some (name, ⟨cleanObj Subtype.val cfg, nonempty (attached items id)⟩)
  | _ => none

/-- `model.addonCfg[section] || {}`; a function that is inherited is not saved. -/
def fragment (addonCfg : Obj SectionName Text) (sec : SectionName) : Option Json :=
  match addonCfg.get sec with
  | some items => some (.mapping items)
  | none => if sec.1 ∈ inherited then none else some (.mapping [])

/-- The assignment to `lab[a.section]`. -/
def sectionEntry (addonCfg : Obj SectionName Text) (i : Item) : Option (SectionName × Json) :=
  i.sec.bind fun sec =>
    if sec.1 = [] ∨ sec.1 = proto then none else (fragment addonCfg sec).map (Prod.mk sec)

/-- The assignment to `versions["addon:" + a.section]`. -/
def versionEntry (palette : Palette) : Item → Option (Text × Text)
  | .addon _ (some comp) sec _ _ =>
    if sec.1 = [] then none
    else (truthy (palette.schemaVersion comp)).map (Prod.mk (Cluster.addonSchema sec.1))
  | _ => none

/-- `schemaVersions(model)`. -/
def schemaVersions (palette : Palette) (model : Model) : Obj Text Text :=
  Obj.empty.assign ((truthy palette.baseVersion).toList.map (Prod.mk "lab".toList) ++
    model.items.filterMap (versionEntry palette) ++ (copy id model.recordedVersions).entries)

/-- `compileLab(model)`. -/
def compileLab (palette : Palette) (model : Model) : Lab :=
  let sections := Obj.empty.assign (model.items.filterMap (sectionEntry model.addonCfg))
  { common := part (cleanObj id model.common)
    nodes := part (Obj.empty.assign (model.items.filterMap (nodeEntry model.items)))
    kclusters := part (Obj.empty.assign (model.items.filterMap (clusterEntry model.items)))
    versions := part (schemaVersions palette model)
    sections := sections.assign (model.extra.entries.filter fun e =>
      decide (e.1.1 ∉ inherited ∧ e.1 ∉ sections.keys)) }

/-! ## What compiling does -/

section Clean

variable {κ β : Type} [DecidableEq κ] {key : κ → Text}

theorem get_copy (o : Obj κ β) (k : κ) :
    (copy key o).get k = if key k = proto then none else o.get k := by
  unfold copy
  rw [Obj.get_filter]
  split
  · rename_i h
    cases o.get k <;> simp [h]
  · rename_i h
    cases o.get k <;> simp [h]

/-- What cleaning leaves: the values that are not blank. -/
theorem get_cleanObj (o : Obj κ Json) (k : κ) :
    (cleanObj key o).get k =
      if key k = proto then none else (o.get k).filter fun v => isBlank v = false := by
  unfold cleanObj
  rw [Obj.get_filter]
  split
  · rename_i h
    cases o.get k <;> simp [h]
  · rename_i h
    cases o.get k <;> simp [h]

theorem cleanObj_copy (o : Obj κ Json) : cleanObj key (copy key o) = cleanObj key o := by
  refine Obj.ext ?_
  change (List.filter _ (List.filter _ o.entries)) = List.filter _ o.entries
  rw [List.filter_filter]
  refine List.filter_congr fun e _ => ?_
  by_cases h : key e.1 = proto <;> simp [h]

end Clean

theorem part_getD {κ β : Type} (o : Obj κ β) : (part o).getD Obj.empty = o := by
  unfold part
  split
  · rename_i h
    exact Obj.ext (List.isEmpty_iff.mp h).symm
  · rfl

theorem nonempty_getD {α : Type} (l : List α) : (nonempty l).getD [] = l := by
  unfold nonempty
  split
  · rename_i h
    exact (List.isEmpty_iff.mp h).symm
  · rfl

theorem sec_addonEntry (sec : SectionName) (override : Option (Obj Text Json)) :
    (addonEntry sec override).sec = sec := by
  unfold addonEntry
  split
  · split <;> rfl
  · rfl

/-- The list of a block names no add-on twice, and none of `names`. -/
theorem nodup_entriesOf (cs : List (SectionName × Option (Obj Text Json))) (names : List SectionName) :
    ((entriesOf names cs).map AddonEntry.sec).Nodup ∧
      ∀ e ∈ entriesOf names cs, e.sec ∉ names ∧ e.sec ∈ cs.map Prod.fst := by
  induction cs generalizing names with
  | nil => exact ⟨List.nodup_nil, fun _ h => absurd h List.not_mem_nil⟩
  | cons c cs ih =>
    unfold entriesOf
    split
    · refine ⟨(ih names).1, fun e he => ?_⟩
      exact ⟨((ih names).2 e he).1, List.mem_cons_of_mem _ ((ih names).2 e he).2⟩
    · rename_i hc
      obtain ⟨hnd, hmem⟩ := ih (c.1 :: names)
      rw [List.map_cons, List.nodup_cons, sec_addonEntry]
      refine ⟨⟨fun h => ?_, hnd⟩, List.forall_mem_cons.mpr ⟨?_, fun e he => ?_⟩⟩
      · obtain ⟨e, he, hs⟩ := List.mem_map.mp h
        exact (hmem e he).1 (hs ▸ List.mem_cons_self)
      · rw [sec_addonEntry]
        exact ⟨hc, List.mem_cons_self⟩
      · exact ⟨fun h => (hmem e he).1 (List.mem_cons_of_mem _ h),
          List.mem_cons_of_mem _ (hmem e he).2⟩

/-- Add-ons of distinct names are all listed. -/
theorem entriesOf_of_nodup (cs : List (SectionName × Option (Obj Text Json)))
    (names : List SectionName) (hnd : (cs.map Prod.fst).Nodup) (h : ∀ c ∈ cs, c.1 ∉ names) :
    entriesOf names cs = cs.map fun c => addonEntry c.1 c.2 := by
  induction cs generalizing names with
  | nil => rfl
  | cons c cs ih =>
    rw [List.map_cons, List.nodup_cons] at hnd
    unfold entriesOf
    rw [if_neg (h c List.mem_cons_self), List.map_cons, ih (c.1 :: names) hnd.2]
    intro c' hc' hm
    rcases List.mem_cons.mp hm with he | hm
    · exact hnd.1 (he ▸ List.mem_map_of_mem hc')
    · exact h c' (List.mem_cons_of_mem _ hc') hm

/-! ## From the definition to the blocks -/

/-- `it.override`, where an entry has keys of its own. -/
def AddonEntry.override : AddonEntry → Option (Obj Text Json)
  | plain _ => none
  | mapping _ overrides => overrides.filter fun o => !o.entries.isEmpty

section Decompile

variable (palette : Palette)

/-- `addons.forEach((a) => addonItem(a, parent))`, after `seq` blocks. -/
def addonItems (parent : Nat) : Nat → List AddonEntry → List Item
  | _, [] => []
  | seq, e :: es =>
    if e.sec.1 = [] then addonItems parent seq es
    else
      .addon (seq + 1) (palette.componentFor e.sec.1) e.sec e.override (some parent) ::
        addonItems parent (seq + 1) es

/-- The blocks of nodes or kclusters, each with its add-ons after it. -/
def ownerItems (make : Nat → Text → Owner → Item) : Nat → List (Text × Owner) → List Item
  | _, [] => []
  | seq, (name, o) :: os =>
    let addons := addonItems palette (seq + 1) (seq + 1) o.entries
    make (seq + 1) name o :: addons ++ ownerItems make (seq + 1 + addons.length) os

/-- The block of a kcluster. -/
def clusterItem (id : Nat) (name : Text) (o : Owner) : Item :=
  .cluster id name (copy Subtype.val o.fields)

/-- `i.type === "cluster" && i.name === kcluster`. -/
def isNamed (kcluster : Option Json) : Item → Bool
  | .cluster _ name _ =>
    match kcluster with
    | some (.text t) => decide (name = t)
    | _ => false
  | _ => false

/-- The fields of a node's block, and the kcluster it joins. -/
def placed (clusters : List Item) (o : Owner) : Obj FieldName Json × Option Nat :=
  let cfg := copy Subtype.val o.fields
  match clusters.find? (isNamed (cfg.get kclusterField)) with
  | some c => (cfg.erase kclusterField, some c.id)
  | none => (cfg, none)

/-- The block of a node. -/
def nodeItem (clusters : List Item) (id : Nat) (name : Text) (o : Owner) : Item :=
  .node id name (placed clusters o).1 (placed clusters o).2

/-- `m.addonCfg[k] = v`: the mapping of a component the palette knows. -/
def config (k : SectionName) : Json → Option Text
  | .mapping items => (palette.componentFor k.1).map fun _ => items
  | _ => none

/-- The blocks of the sections that no list names. -/
def sectionItems (items : List Item) : Nat → List (SectionName × Json) → List Item
  | _, [] => []
  | seq, (k, v) :: es =>
    if (config palette k v).isSome ∧ ∀ i ∈ items, i.sec ≠ some k then
      .addon (seq + 1) (palette.componentFor k.1) k none none :: sectionItems items (seq + 1) es
    else sectionItems items seq es

variable (lab : Lab)

/-- The blocks of the kclusters. -/
def clusterItems : List Item := ownerItems palette clusterItem 0 lab.kclustersObj.entries

/-- The blocks of the nodes. -/
def nodeItems : List Item :=
  ownerItems palette (nodeItem (clusterItems palette lab)) (clusterItems palette lab).length
    lab.nodesObj.entries

/-- The blocks of the kclusters and nodes, with their add-ons. -/
def ownedItems : List Item := clusterItems palette lab ++ nodeItems palette lab

/-- `versions["addon:" + section] = "1.0"`. -/
def firstVersion (sec : SectionName) : Text × Text := (Cluster.addonSchema sec.1, "1.0".toList)

/-- `recordedVersions(lab, m)`. -/
def recordedVersions : Obj Text Text :=
  match lab.versions with
  | some versions => copy id versions
  | none =>
    if lab.IsEmpty then Obj.empty
    else
      Obj.empty.assign (("lab".toList, "1.0".toList) ::
        ((ownedItems palette lab).filterMap Item.sec |>.filter fun sec => decide (sec.1 ≠ [])).map
          firstVersion ++
        (lab.sections.entries.filter fun e => (config palette e.1 e.2).isSome).map fun e =>
          firstVersion e.1)

/-- `decompileLab(lab)`. -/
def decompileLab : Model where
  common := copy id lab.commonObj
  items :=
    ownedItems palette lab ++ sectionItems palette (ownedItems palette lab)
      (ownedItems palette lab).length lab.sections.entries
  addonCfg := lab.sections.filterMap fun k v => if k.1 = proto then none else config palette k v
  extra :=
    lab.sections.filter fun e => decide (e.1.1 ≠ proto ∧ config palette e.1 e.2 = none)
  recordedVersions := recordedVersions palette lab

end Decompile

end LabInABox.Web
