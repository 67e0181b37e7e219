import Mathlib.Data.List.Basic
import LabInABox.Web.Compile

/-!
# The blocks of an opened lab

What `compileLab` finds in the blocks that `decompileLab` makes. The blocks are numbered in their order,
so an id finds its block; the add-ons that name a block as their parent are those that follow it.

Results:
* `filterMap_ownerItems`: each block of a node or a kcluster attaches the add-ons of its list.
* `nodesObj_reopened`, `kclustersObj_reopened`: the nodes and kclusters that are saved.
* `get_sections_reopened`: the sections that are saved.
-/

namespace LabInABox.Web

open Text
open Schema (Json)

variable {palette : Palette} {lab : Lab}

/-! ## Numbers -/

theorem map_id_addonItems (parent : Nat) (es : List AddonEntry) (seq : Nat) :
    (addonItems palette parent seq es).map Item.id =
      List.range' (seq + 1) (addonItems palette parent seq es).length := by
  induction es generalizing seq with
  | nil => rfl
  | cons e es ih =>
    unfold addonItems
    split
    · exact ih seq
    · rw [List.map_cons, List.length_cons, List.range'_succ, ih]
      rfl

/-- How the block of an owner is made: with the id it is given, and attached to no other block. -/
structure Makes (make : Nat → Text → Owner → Item) : Prop where
  id : ∀ id name o, (make id name o).id = id
  childOf : ∀ id' id name o, childOf id' (make id name o) = none
  sec : ∀ id name o, (make id name o).sec = none

theorem makes_clusterItem : Makes clusterItem := ⟨fun _ _ _ => rfl, fun _ _ _ _ => rfl, fun _ _ _ => rfl⟩

theorem makes_nodeItem (clusters : List Item) : Makes (nodeItem clusters) :=
  ⟨fun _ _ _ => rfl, fun _ _ _ _ => rfl, fun _ _ _ => rfl⟩

variable {make : Nat → Text → Owner → Item}

theorem map_id_ownerItems (hm : Makes make) (os : List (Text × Owner)) (seq : Nat) :
    (ownerItems palette make seq os).map Item.id =
      List.range' (seq + 1) (ownerItems palette make seq os).length := by
  induction os generalizing seq with
  | nil => rfl
  | cons e os ih =>
    unfold ownerItems
    rw [List.map_append, List.map_cons, ih, map_id_addonItems, hm.id, List.length_append,
      List.length_cons, ← List.range'_append_1, List.range'_succ]
    have he : seq + 1 + ((addonItems palette (seq + 1) (seq + 1) e.2.entries).length + 1) =
        seq + 1 + (addonItems palette (seq + 1) (seq + 1) e.2.entries).length + 1 := by omega
    rw [he]

theorem map_id_sectionItems (items : List Item) (es : List (SectionName × Json)) (seq : Nat) :
    (sectionItems palette items seq es).map Item.id =
      List.range' (seq + 1) (sectionItems palette items seq es).length := by
  induction es generalizing seq with
  | nil => rfl
  | cons e es ih =>
    unfold sectionItems
    split
    · rw [List.map_cons, List.length_cons, List.range'_succ, ih]
      rfl
    · exact ih seq

/-- The blocks are numbered in their order. -/
theorem map_id_items : (decompileLab palette lab).items.map Item.id =
    List.range' 1 (decompileLab palette lab).items.length := by
  have hc := @map_id_ownerItems palette _ makes_clusterItem lab.kclustersObj.entries 0
  have hn := @map_id_ownerItems palette _ (makes_nodeItem (clusterItems palette lab))
    lab.nodesObj.entries (clusterItems palette lab).length
  have hs := @map_id_sectionItems palette (ownedItems palette lab) lab.sections.entries
    (ownedItems palette lab).length
  have ho : (ownedItems palette lab).map Item.id =
      List.range' 1 (ownedItems palette lab).length := by
    unfold ownedItems
    rw [List.map_append, List.length_append, ← List.range'_append_1, Nat.add_comm 1]
    exact congrArg₂ (· ++ ·) hc hn
  change (ownedItems palette lab ++ _).map Item.id = List.range' 1 (ownedItems palette lab ++ _).length
  rw [List.map_append, List.length_append, ← List.range'_append_1, ho, hs, Nat.add_comm 1]

/-- An id finds its block. -/
theorem byId_of_mem {i : Item} (hi : i ∈ (decompileLab palette lab).items) :
    byId (decompileLab palette lab).items i.id = some i := by
  have hnd : ((decompileLab palette lab).items.map Item.id).Nodup := by
    rw [map_id_items]
    exact List.nodup_range'
  unfold byId
  cases hf : (decompileLab palette lab).items.reverse.find? fun j => decide (j.id = i.id) with
  | none =>
    have h := List.find?_eq_none.mp hf i (List.mem_reverse.mpr hi)
    exact absurd (decide_eq_true rfl) h
  | some j =>
    have hj : j.id = i.id := by simpa using List.find?_some hf
    have hm : j ∈ (decompileLab palette lab).items :=
      List.mem_reverse.mp (List.mem_of_find?_eq_some hf)
    rw [List.inj_on_of_nodup_map hnd hm hi hj]

/-! ## Add-ons of a block -/

/-- The add-ons of a list that become blocks, each with its override. -/
def children (es : List AddonEntry) : List (SectionName × Option (Obj Text Json)) :=
  (es.filter fun e => decide (e.sec.1 ≠ [])).map fun e => (e.sec, e.override)

theorem filterMap_childOf_addonItems (parent id : Nat) (es : List AddonEntry) (seq : Nat) :
    (addonItems palette parent seq es).filterMap (childOf id) =
      if parent = id then children es else [] := by
  induction es generalizing seq with
  | nil => exact (ite_self _).symm
  | cons e es ih =>
    unfold addonItems children
    by_cases he : e.sec.1 = []
    · rw [if_pos he, ih, List.filter_cons_of_neg (by simpa using he)]
      rfl
    · rw [if_neg he, List.filter_cons_of_pos (by simpa using he), List.map_cons, List.filterMap_cons,
        ih]
      by_cases hp : parent = id
      · have hc : childOf id (.addon (seq + 1) (palette.componentFor e.sec.1) e.sec e.override
            (some parent)) = some (e.sec, e.override) := if_pos ⟨hp, he⟩
        rw [hc, if_pos hp, if_pos hp]
        rfl
      · have hc : childOf id (.addon (seq + 1) (palette.componentFor e.sec.1) e.sec e.override
            (some parent)) = none := if_neg fun h => hp h.1
        rw [hc, if_neg hp, if_neg hp]

/-- The blocks of owners attach nothing to a block outside their numbers. -/
theorem filterMap_childOf_ownerItems (hm : Makes make) {id : Nat} (os : List (Text × Owner)) (seq : Nat)
    (h : id ≤ seq ∨ seq + (ownerItems palette make seq os).length < id) :
    (ownerItems palette make seq os).filterMap (childOf id) = [] := by
  induction os generalizing seq with
  | nil => rfl
  | cons e os ih =>
    have hl : (ownerItems palette make seq (e :: os)).length =
        (addonItems palette (seq + 1) (seq + 1) e.2.entries).length + 1 + (ownerItems palette make
          (seq + 1 + (addonItems palette (seq + 1) (seq + 1) e.2.entries).length) os).length := by
      rw [ownerItems, List.length_append, List.length_cons]
    rw [hl] at h
    have hne : seq + 1 ≠ id := by omega
    rw [ownerItems, List.filterMap_append, List.filterMap_cons, hm.childOf,
      filterMap_childOf_addonItems, if_neg hne, ih _ (by omega)]
    rfl

theorem filterMap_childOf_sectionItems (id : Nat) (items : List Item)
    (es : List (SectionName × Json)) (seq : Nat) :
    (sectionItems palette items seq es).filterMap (childOf id) = [] := by
  induction es generalizing seq with
  | nil => rfl
  | cons e es ih =>
    unfold sectionItems
    split
    · rw [List.filterMap_cons, ih]
      rfl
    · exact ih seq

theorem filterMap_addonItems_eq_nil {β : Type} {entry : Item → Option β} (parent : Nat)
    (haddon : ∀ i : Item, i.sec ≠ none → entry i = none) (es : List AddonEntry) (seq : Nat) :
    (addonItems palette parent seq es).filterMap entry = [] := by
  induction es generalizing seq with
  | nil => rfl
  | cons e es ih =>
    unfold addonItems
    split
    · exact ih seq
    · rw [List.filterMap_cons, haddon _ (by simp [Item.sec]), ih]

/-- **The blocks of owners**: each is found with the add-ons of its own list. -/
theorem filterMap_ownerItems {β : Type} {entry : Item → Option β} {target : Text × Owner → Option β}
    (hm : Makes make) (haddon : ∀ i : Item, i.sec ≠ none → entry i = none) (items : List Item)
    (hmake : ∀ id name o, items.filterMap (childOf id) = children o.entries →
      entry (make id name o) = target (name, o))
    (os : List (Text × Owner)) (seq : Nat) (pre post : List Item)
    (hi : items = pre ++ ownerItems palette make seq os ++ post)
    (hfree : ∀ id, seq < id → id ≤ seq + (ownerItems palette make seq os).length →
      pre.filterMap (childOf id) = [] ∧ post.filterMap (childOf id) = []) :
    (ownerItems palette make seq os).filterMap entry = os.filterMap target := by
  induction os generalizing seq pre with
  | nil => rfl
  | cons e os ih =>
    obtain ⟨name, o⟩ := e
    have hl : (ownerItems palette make seq ((name, o) :: os)).length =
        (addonItems palette (seq + 1) (seq + 1) o.entries).length + 1 + (ownerItems palette make
          (seq + 1 + (addonItems palette (seq + 1) (seq + 1) o.entries).length) os).length := by
      rw [ownerItems, List.length_append, List.length_cons]
    have hown : items.filterMap (childOf (seq + 1)) = children o.entries := by
      obtain ⟨hpre, hpost⟩ := hfree (seq + 1) (by omega) (by omega)
      rw [hi, List.filterMap_append, List.filterMap_append, hpre, hpost, ownerItems,
        List.filterMap_append, List.filterMap_cons, hm.childOf, filterMap_childOf_addonItems,
        if_pos rfl, filterMap_childOf_ownerItems hm os _ (Or.inl (by omega))]
      simp only [List.nil_append, List.append_nil]
    have hrest := ih (seq + 1 + (addonItems palette (seq + 1) (seq + 1) o.entries).length)
      (pre ++ make (seq + 1) name o :: addonItems palette (seq + 1) (seq + 1) o.entries)
      (by rw [hi, ownerItems]; simp only [List.append_assoc, List.cons_append])
      fun id hlt hle => by
        obtain ⟨hpre, hpost⟩ := hfree id (by omega) (by omega)
        refine ⟨?_, hpost⟩
        have hne : seq + 1 ≠ id := by omega
        rw [List.filterMap_append, hpre, List.filterMap_cons, hm.childOf,
          filterMap_childOf_addonItems, if_neg hne]
        rfl
    rw [ownerItems, List.filterMap_append, List.filterMap_cons, hmake _ _ _ hown,
      filterMap_addonItems_eq_nil _ haddon, hrest, List.filterMap_cons]
    cases target (name, o) <;> rfl

theorem filterMap_ownerItems_eq_nil {β : Type} {entry : Item → Option β}
    (haddon : ∀ i : Item, i.sec ≠ none → entry i = none)
    (hmake : ∀ id name o, entry (make id name o) = none) (os : List (Text × Owner)) (seq : Nat) :
    (ownerItems palette make seq os).filterMap entry = [] := by
  induction os generalizing seq with
  | nil => rfl
  | cons e os ih =>
    rw [ownerItems, List.filterMap_append, List.filterMap_cons, hmake,
      filterMap_addonItems_eq_nil _ haddon, ih]
    rfl

theorem filterMap_sectionItems_eq_nil {β : Type} {entry : Item → Option β}
    (haddon : ∀ i : Item, i.sec ≠ none → entry i = none) (items : List Item)
    (es : List (SectionName × Json)) (seq : Nat) :
    (sectionItems palette items seq es).filterMap entry = [] := by
  induction es generalizing seq with
  | nil => rfl
  | cons e es ih =>
    unfold sectionItems
    split
    · rw [List.filterMap_cons, haddon _ (by simp [Item.sec]), ih]
    · exact ih seq

/-! ## Nodes and kclusters -/

/-- The definition that is saved. -/
def reopened (palette : Palette) (lab : Lab) : Lab := compileLab palette (decompileLab palette lab)

/-- What is saved of a node or a kcluster. -/
def saved (fields : Owner → Obj FieldName Json) (name : Text) (o : Owner) : Option Owner :=
  if name = [] ∨ name = proto then none
  else some ⟨fields o, nonempty (entriesOf [] (children o.entries))⟩

/-- The fields that are saved of a node. -/
def savedFields (palette : Palette) (lab : Lab) (o : Owner) : Obj FieldName Json :=
  nodeFields (decompileLab palette lab).items (placed (clusterItems palette lab) o).1
    (placed (clusterItems palette lab) o).2

theorem nodup_filterMap_saved {fields : Owner → Obj FieldName Json} (os : Obj Text Owner) :
    ((os.entries.filterMap fun e => (saved fields e.1 e.2).map (Prod.mk e.1)).map Prod.fst).Nodup :=
  (os.filterMap (saved fields)).nodup

theorem clusterEntry_of_sec (items : List Item) (i : Item) (h : i.sec ≠ none) :
    clusterEntry items i = none := by
  cases i with
  | cluster => exact absurd rfl h
  | node => rfl
  | addon => rfl

theorem nodeEntry_of_sec (items : List Item) (i : Item) (h : i.sec ≠ none) :
    nodeEntry items i = none := by
  cases i with
  | cluster => rfl
  | node => exact absurd rfl h
  | addon => rfl

/-- The blocks, by what they are made from. -/
theorem items_eq : (decompileLab palette lab).items = clusterItems palette lab ++ nodeItems palette lab ++
    sectionItems palette (ownedItems palette lab) (ownedItems palette lab).length
      lab.sections.entries := rfl

theorem filterMap_clusterItems {β : Type} {entry : Item → Option β} {target : Text × Owner → Option β}
    (haddon : ∀ i : Item, i.sec ≠ none → entry i = none)
    (hcluster : ∀ id name o, (decompileLab palette lab).items.filterMap (childOf id) =
      children o.entries → entry (clusterItem id name o) = target (name, o))
    (hnode : ∀ clusters id name o, entry (nodeItem clusters id name o) = none) :
    (decompileLab palette lab).items.filterMap entry = lab.kclustersObj.entries.filterMap target := by
  have hc : (clusterItems palette lab).filterMap entry = lab.kclustersObj.entries.filterMap target := by
    refine filterMap_ownerItems makes_clusterItem haddon _ hcluster _ 0 [] _
      (List.append_assoc _ _ _) fun id _ hle => ⟨rfl, ?_⟩
    rw [List.filterMap_append, filterMap_childOf_sectionItems, List.append_nil]
    exact filterMap_childOf_ownerItems (makes_nodeItem _) _ _ (Or.inl (by rwa [Nat.zero_add] at hle))
  have hn : (nodeItems palette lab).filterMap entry = [] :=
    filterMap_ownerItems_eq_nil haddon (hnode _) _ _
  rw [items_eq, List.filterMap_append, List.filterMap_append, hc, hn,
    filterMap_sectionItems_eq_nil haddon, List.append_nil, List.append_nil]

theorem filterMap_nodeItems {β : Type} {entry : Item → Option β} {target : Text × Owner → Option β}
    (haddon : ∀ i : Item, i.sec ≠ none → entry i = none)
    (hnode : ∀ id name o, (decompileLab palette lab).items.filterMap (childOf id) =
      children o.entries → entry (nodeItem (clusterItems palette lab) id name o) = target (name, o))
    (hcluster : ∀ id name o, entry (clusterItem id name o) = none) :
    (decompileLab palette lab).items.filterMap entry = lab.nodesObj.entries.filterMap target := by
  have hn : (nodeItems palette lab).filterMap entry = lab.nodesObj.entries.filterMap target := by
    refine filterMap_ownerItems (makes_nodeItem _) haddon _ hnode _ _ (clusterItems palette lab) _
      rfl fun id hlt _ => ⟨?_, filterMap_childOf_sectionItems _ _ _ _⟩
    refine filterMap_childOf_ownerItems makes_clusterItem _ _ (Or.inr ?_)
    rw [Nat.zero_add]
    exact hlt
  have hc : (clusterItems palette lab).filterMap entry = [] :=
    filterMap_ownerItems_eq_nil haddon hcluster _ _
  rw [items_eq, List.filterMap_append, List.filterMap_append, hc, hn,
    filterMap_sectionItems_eq_nil haddon, List.append_nil, List.nil_append]

/-- **The kclusters that are saved.** -/
theorem kclustersObj_reopened : (reopened palette lab).kclustersObj =
    lab.kclustersObj.filterMap (saved fun o => cleanObj Subtype.val o.fields) := by
  have hi : (decompileLab palette lab).items.filterMap (clusterEntry (decompileLab palette lab).items) =
      lab.kclustersObj.entries.filterMap fun e =>
        (saved (fun o => cleanObj Subtype.val o.fields) e.1 e.2).map (Prod.mk e.1) := by
    refine filterMap_clusterItems (clusterEntry_of_sec _) (fun id name o h => ?_) fun _ _ _ _ => rfl
    unfold clusterItem clusterEntry saved attached
    dsimp only
    rw [h, cleanObj_copy]
    split <;> rfl
  refine (part_getD _).trans (Obj.ext ?_)
  rw [hi]
  exact Obj.entries_assign (nodup_filterMap_saved _)

/-- **The nodes that are saved.** -/
theorem nodesObj_reopened : (reopened palette lab).nodesObj =
    lab.nodesObj.filterMap (saved (savedFields palette lab)) := by
  have hi : (decompileLab palette lab).items.filterMap (nodeEntry (decompileLab palette lab).items) =
      lab.nodesObj.entries.filterMap fun e =>
        (saved (savedFields palette lab) e.1 e.2).map (Prod.mk e.1) := by
    refine filterMap_nodeItems (nodeEntry_of_sec _) (fun id name o h => ?_) fun _ _ _ => rfl
    unfold nodeItem nodeEntry saved attached
    dsimp only
    rw [h]
    split <;> rfl
  refine (part_getD _).trans (Obj.ext ?_)
  rw [hi]
  exact Obj.entries_assign (nodup_filterMap_saved _)

/-- The fields that are saved of a node are its own, cleaned. -/
theorem get_savedFields (o : Owner) (field : FieldName) :
    (savedFields palette lab o).get field = (cleanObj Subtype.val o.fields).get field := by
  unfold savedFields placed
  dsimp only
  cases hf : (clusterItems palette lab).find? (isNamed ((copy Subtype.val o.fields).get kclusterField)) with
  | none =>
    dsimp only
    unfold nodeFields
    rw [Option.bind_none, cleanObj_copy]
  | some c =>
    have hm : c ∈ (decompileLab palette lab).items := by
      rw [items_eq]
      exact List.mem_append_left _ (List.mem_append_left _ (List.mem_of_find?_eq_some hf))
    have hn := List.find?_some hf
    have hk : o.fields.get kclusterField = some (.text c.name) := by
      rw [get_copy, if_neg (by decide)] at hn
      unfold isNamed at hn
      split at hn
      · split at hn
        · rename_i he
          rw [he, ← of_decide_eq_true hn]
          rfl
        · cases hn
      · cases hn
    dsimp only
    unfold nodeFields
    rw [Option.bind_some, byId_of_mem hm]
    dsimp only
    have hp : kclusterField.1 ≠ proto := by decide
    by_cases he : field = kclusterField
    · subst he
      rw [get_cleanObj, if_neg hp, hk]
      split
      · rename_i hnil
        rw [get_cleanObj, if_neg hp, Obj.get_erase, if_pos rfl, hnil]
        rfl
      · rename_i hnil
        rw [Obj.get_set, if_pos rfl]
        have hb : isBlank (.text c.name) = false := by
          rw [isBlank, List.isEmpty_eq_false_iff]
          exact hnil
        rw [Option.filter_some, if_pos (by simpa using hb)]
    · have hclean : (cleanObj Subtype.val ((copy Subtype.val o.fields).erase kclusterField)).get field =
          (cleanObj Subtype.val o.fields).get field := by
        rw [get_cleanObj, get_cleanObj, Obj.get_erase, if_neg he, get_copy]
        split <;> rfl
      split
      · exact hclean
      · rw [Obj.get_set, if_neg he, hclean]

end LabInABox.Web
