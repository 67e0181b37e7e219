import LabInABox.Run
import LabInABox.Web.Opened
import LabInABox.Web.VersionMatrix

/-!
# The canvas of the web UI

Model of the canvas (`createItem`, `addonPlacement`, `dropParent`, `handleDrop`, `removeItem`, `loadLab` and the end
of `applyEditor`, `webui/htdocs/app.js`): what happens to the blocks, one event after another.

* The drop of an add-on waits for its schema. Anything may happen meanwhile, other drops too. What becomes of a VM
  or a kcluster that is dropped is settled before the next event.
* When a lab is opened, a drop that waits still ends, on the blocks that were there before.
* Every schema has a section and a list of fields, so that a block has `flat: true`.
* The add-ons that a link asks for (`prefillAddons`) are dropped outside of every block.
* What a value prints as is a parameter, and so are the layers of the components.

Results:
* `wellPlaced_step`: what an event leaves, when it does not remove the block a drop waits to be attached to.
* `canvas_wellPlaced`: in every state reached, each block is attached to one that is there and takes it, and each
  add-on to one its layers allow.
* `dangling_of_remove`: where the block a drop waits for is removed, its add-on is attached to none.
* `compiled_of_reached`: the lab that is saved has the kclusters its nodes name, and lists the add-ons.
-/

namespace LabInABox.Web.Canvas

open Text
open Schema (Json)

/-! ## Placement -/

/-- Where an add-on can be attached. -/
inductive Where
  | common
  | cluster
  | host
  | both
  deriving DecidableEq

/-- `addonSection(layers)`. -/
def addonSection (layers : List Text) : Where :=
  let onCluster := "kubernetes".toList ∈ layers
  let onHost := ∃ l ∈ layers, l ≠ "kubernetes".toList
  if onCluster ∧ onHost then .both else if onHost then .host else .cluster

/-- `PXE_SPEC.comp`. -/
def pxeComp : Text := "__pxe".toList

/-- `addonPlacement(comp)`, with the layers of the component of a name. -/
def addonPlacement (layersOf : Text → Option (List Text)) (comp : Option Text) : Where :=
  if comp = some pxeComp then .common else ((comp.bind layersOf).map addonSection).getD .both

/-- What a block is, as far as its place goes. -/
inductive Kind
  | cluster
  | node
  | addon (comp : Option Text)

/-- `item.type`, and the component of an add-on. -/
def kindOf : Item → Kind
  | .cluster _ _ _ => .cluster
  | .node _ _ _ _ => .node
  | .addon _ comp _ _ _ => .addon comp

/-- `i.parent`. -/
def parentOf : Item → Option Nat
  | .cluster _ _ _ => none
  | .node _ _ _ parent => parent
  | .addon _ _ _ _ parent => parent

/-- The block with another parent. -/
def setParent (parent : Option Nat) : Item → Item
  | .node id name cfg _ => .node id name cfg parent
  | .addon id comp sec override _ => .addon id comp sec override parent
  | i => i

/-- `items.find((i) => i.id === id)`. -/
def find (items : List Item) (id : Nat) : Option Item := items.find? fun i => decide (i.id = id)

/-- `t.parent || null`, when `t` is no kcluster. -/
def joined (t : Item) : Option Nat :=
  match kindOf t with
  | .cluster => some t.id
  | _ => parentOf t

/-- The block an add-on is dropped on: that of an add-on is the one it is attached to. -/
def receiver (items : List Item) (t : Item) : Option Item :=
  match kindOf t with
  | .addon _ => (parentOf t).bind (find items)
  | _ => some t

section Drop

variable (layersOf : Text → Option (List Text))

/-- Where an add-on goes that is dropped on `t`; none where it is not taken. -/
def addonParent (place : Where) (t : Item) : Option (Option Nat) :=
  match kindOf t with
  | .cluster => if place = .common ∨ place = .host then none else some (some t.id)
  | _ =>
    if place = .common then none
    else if place ≠ .cluster then some (some t.id)
    else (parentOf t).map some

/-- `dropParent(item, targetId)`, of a block that has an id when it is there already; none is an error. -/
def dropParent (items : List Item) (self : Option Nat) (kind : Kind) (target : Option Nat) : Option (Option Nat) :=
  let t := (target.bind (find items)).filter fun t => decide (some t.id ≠ self)
  match kind with
  | .cluster => some none
  | .node => some (t.bind joined)
  | .addon comp =>
    match t.bind (receiver items) with
    | none => some none
    | some t => addonParent (addonPlacement layersOf comp) t

end Drop

/-! ## Events -/

/-- A drop of an add-on that waits for its schema. -/
structure Drop where
  id : Nat
  comp : Text
  parent : Option Nat

/-- The canvas: the blocks, the number that was given last, and the drops that wait. -/
structure State where
  model : Model
  seq : Nat
  waiting : List Drop

/-- What happens: a block is dropped from the palette, the schema for a drop comes or does not, a block is moved,
removed or edited, the settings are edited, or a lab is opened. -/
inductive Event
  | dropCluster
  | dropNode (target : Option Nat)
  | dropAddon (comp : Text) (target : Option Nat)
  | schema (id : Nat) (sec : Option SectionName)
  | move (id : Nat) (target : Option Nat)
  | remove (id : Nat)
  | edit (id : Nat) (name : Text) (cfg : Obj FieldName Json)
  | editCommon (common : Obj Text Json)
  | editAddon (sec : SectionName) (frag : Text)
  | load (lab : Lab)

/-- `"mydomain"`. -/
def mydomainField : FieldName := ⟨"mydomain".toList, by decide⟩

section Step

variable (layersOf : Text → Option (List Text)) (string : Json → Text) (palette : Palette)

/-- `m.items.filter((i) => i.type === spec.type).length + 1`. -/
def ordinal (items : List Item) (isKind : Item → Bool) : Nat := (items.filter isKind).length + 1

/-- The name of a VM that is dropped. -/
def nodeName (m : Model) : Text :=
  "node".toList ++ Nat.toDigits 10 (ordinal m.items fun i => match i with | .node _ _ _ _ => true | _ => false) ++
    match m.common.get mydomainField.1 with
    | some dom => if isTruthy dom then '.' :: string dom else []
    | none => []

/-- The name of a kcluster that is dropped. -/
def clusterName (m : Model) : Text :=
  "cluster".toList ++ Nat.toDigits 10 (ordinal m.items fun i => match i with | .cluster _ _ _ => true | _ => false)

/-- The fields of a kcluster that is dropped. -/
def clusterCfg (m : Model) : Obj FieldName Json :=
  cleanObj Subtype.val (Obj.empty.assign
    ((cluTypeField, .text "rke2".toList) :: (cluRelField, .text "stable".toList) ::
      ((m.common.get mydomainField.1).map (Prod.mk mydomainField)).toList))

/-- The blocks, with what is left after the removal of one. -/
def removed (items : List Item) (id : Nat) : List Item :=
  (items.filter fun i => decide (i.id ≠ id ∧ ¬ (i.sec.isSome ∧ parentOf i = some id))).map fun i =>
    match i with
    | .node _ _ _ parent => if parent = some id then setParent none i else i
    | i => i

/-- The block with what was entered in its form. -/
def edited (name : Text) (cfg : Obj FieldName Json) : Item → Item
  | .cluster id _ _ => .cluster id name cfg
  | .node id _ _ parent => .node id name cfg parent
  | i => i

/-- `o.type === item.type`, of a VM or a kcluster. -/
def sameKind : Item → Item → Bool
  | .cluster _ _ _, .cluster _ _ _ => true
  | .node _ _ _ _, .node _ _ _ _ => true
  | _, _ => false

/-- The name is taken by another block of the kind. -/
def taken (items : List Item) (i : Item) (name : Text) : Bool :=
  items.any fun o => o.id ≠ i.id && sameKind o i && decide (o.name = name)

variable (s : State)

/-- The state with other blocks. -/
def State.withItems (items : List Item) : State := { s with model := { s.model with items := items } }

/-- What an event does. -/
def step : Event → State
  | .dropCluster =>
    { s.withItems (s.model.items ++ [.cluster (s.seq + 1) (clusterName s.model) (clusterCfg s.model)]) with
      seq := s.seq + 1 }
  | .dropNode target =>
    match dropParent layersOf s.model.items none .node target with
    | none => s
    | some parent =>
      { s.withItems (s.model.items ++ [.node (s.seq + 1) (nodeName string s.model) Obj.empty parent]) with
        seq := s.seq + 1 }
  | .dropAddon comp target =>
    match dropParent layersOf s.model.items none (.addon (some comp)) target with
    | none => s
    | some parent => { s with seq := s.seq + 1, waiting := s.waiting ++ [⟨s.seq + 1, comp, parent⟩] }
  | .schema id sec =>
    match s.waiting.find? fun d => decide (d.id = id) with
    | none => s
    | some d =>
      let s' : State := { s with waiting := s.waiting.filter fun d => decide (d.id ≠ id) }
      match sec with
      | none => s'
      | some sec => s'.withItems (s.model.items ++ [.addon d.id (some d.comp) sec none d.parent])
  | .move id target =>
    match find s.model.items id with
    | none => s
    | some i =>
      match dropParent layersOf s.model.items (some id) (kindOf i) target with
      | none => s
      | some parent => s.withItems (s.model.items.map fun j => if j.id = id then setParent parent j else j)
  | .remove id => s.withItems (removed s.model.items id)
  | .edit id name cfg =>
    match find s.model.items id with
    | none => s
    | some i =>
      if name = [] ∨ taken s.model.items i name then s
      else s.withItems (s.model.items.map fun j => if j.id = id then edited name cfg j else j)
  | .editCommon common => { s with model := { s.model with common := common } }
  | .editAddon sec frag => { s with model := { s.model with addonCfg := s.model.addonCfg.set sec frag } }
  | .load lab =>
    { model := decompileLab palette lab, seq := (decompileLab palette lab).items.length, waiting := [] }

end Step

/-! ## What is kept -/

/-- What a block is attached to: a VM to a kcluster, an add-on to either. -/
def Takes : Kind → Kind → Prop
  | _, .cluster => False
  | o, .node => o = .cluster
  | o, .addon _ => o = .cluster ∨ o = .node

/-- The layers of an add-on allow what it is attached to. -/
def Fits (layersOf : Text → Option (List Text)) : Kind → Kind → Prop
  | .cluster, .addon comp => addonPlacement layersOf comp ≠ .common ∧ addonPlacement layersOf comp ≠ .host
  | .node, .addon comp => addonPlacement layersOf comp ≠ .common ∧ addonPlacement layersOf comp ≠ .cluster
  | _, _ => True

/-- What a block may be attached to, with its layers or without. -/
def Allowed (layersOf : Text → Option (List Text)) (strict : Prop) (o i : Kind) : Prop :=
  Takes o i ∧ (strict → Fits layersOf o i)

/-- The block of an id is there, and allows a block of the kind. -/
def Holds (layersOf : Text → Option (List Text)) (strict : Prop) (items : List Item) (p : Nat) (kind : Kind) : Prop :=
  ∃ o ∈ items, o.id = p ∧ Allowed layersOf strict (kindOf o) kind

/-- Every block is attached to one that is there and allows it. -/
def Placed (layersOf : Text → Option (List Text)) (strict : Prop) (items : List Item) : Prop :=
  ∀ i ∈ items, ∀ p, parentOf i = some p → Holds layersOf strict items p (kindOf i)

/-- The numbers that are given, to blocks and to drops that wait. -/
def State.ids (s : State) : List Nat := s.model.items.map Item.id ++ s.waiting.map Drop.id

/-- **The blocks have ids of their own, and are attached to blocks that are there.** -/
structure WellPlaced (layersOf : Text → Option (List Text)) (strict : Prop) (s : State) : Prop where
  nodup : s.ids.Nodup
  bounded : ∀ n ∈ s.ids, n ≤ s.seq
  placed : Placed layersOf strict s.model.items
  awaited : ∀ d ∈ s.waiting, ∀ p, d.parent = some p → Holds layersOf strict s.model.items p (.addon (some d.comp))

/-- No add-on is dropped on, no block is removed that a drop waits to be attached to, and where the layers count, what
is opened respects them. -/
def Clear (layersOf : Text → Option (List Text)) (palette : Palette) (strict : Prop) (s : State) : Event → Prop
  | .dropNode target | .dropAddon _ target | .move _ target =>
    ∀ i ∈ s.model.items, target = some i.id → i.sec = none
  | .remove id => ∀ d ∈ s.waiting, d.parent ≠ some id
  | .load lab => strict → Placed layersOf True (decompileLab palette lab).items
  | _ => True

section Keeps

variable {layersOf : Text → Option (List Text)} {string : Json → Text} {palette : Palette} {strict : Prop}
  {s : State} {items items' : List Item} {i : Item} {kind : Kind} {p : Nat}

/-! ### Single blocks -/

@[simp] theorem id_setParent (parent : Option Nat) (i : Item) : (setParent parent i).id = i.id := by
  cases i <;> rfl

@[simp] theorem kindOf_setParent (parent : Option Nat) (i : Item) : kindOf (setParent parent i) = kindOf i := by
  cases i <;> rfl

@[simp] theorem id_edited (name : Text) (cfg : Obj FieldName Json) (i : Item) : (edited name cfg i).id = i.id := by
  cases i <;> rfl

@[simp] theorem kindOf_edited (name : Text) (cfg : Obj FieldName Json) (i : Item) :
    kindOf (edited name cfg i) = kindOf i := by
  cases i <;> rfl

@[simp] theorem parentOf_edited (name : Text) (cfg : Obj FieldName Json) (i : Item) :
    parentOf (edited name cfg i) = parentOf i := by
  cases i <;> rfl

/-- Only a VM or an add-on gets the parent. -/
theorem parentOf_setParent {parent : Option Nat} (h : parentOf (setParent parent i) = some p) : parent = some p := by
  cases i with
  | cluster => cases h
  | node => exact h
  | addon => exact h

theorem sec_eq_none_iff : i.sec = none ↔ kindOf i = .cluster ∨ kindOf i = .node := by
  cases i <;> simp [Item.sec, kindOf]

theorem mem_of_find {id : Nat} (h : find items id = some i) : i ∈ items ∧ i.id = id :=
  ⟨List.mem_of_find?_eq_some h, by simpa using List.find?_some h⟩

/-! ### Blocks that change -/

/-- Blocks that keep their ids and what they are hold what they held. -/
theorem Holds.map {f : Item → Item} (h : Holds layersOf strict items p kind) (hid : ∀ i, (f i).id = i.id)
    (hkind : ∀ i, kindOf (f i) = kindOf i) : Holds layersOf strict (items.map f) p kind := by
  obtain ⟨o, ho, hp, hallowed⟩ := h
  exact ⟨f o, List.mem_map_of_mem ho, (hid o).trans hp, by rwa [hkind]⟩

theorem Holds.append (h : Holds layersOf strict items p kind) : Holds layersOf strict (items ++ items') p kind := by
  obtain ⟨o, ho, hrest⟩ := h
  exact ⟨o, List.mem_append_left _ ho, hrest⟩

/-- A block that comes, attached to one that allows it. -/
theorem Placed.append (h : Placed layersOf strict items)
    (hi : ∀ p, parentOf i = some p → Holds layersOf strict items p (kindOf i)) :
    Placed layersOf strict (items ++ [i]) := by
  intro j hj p hp
  rcases List.mem_append.mp hj with hj | hj
  · exact (h j hj p hp).append
  · obtain rfl := List.mem_singleton.mp hj
    exact (hi p hp).append

theorem holds_of_joined {t : Item} (h : Placed layersOf strict items) (ht : t ∈ items) (hsec : t.sec = none)
    (hj : joined t = some p) : Holds layersOf strict items p .node := by
  cases t with
  | cluster id name cfg =>
    obtain rfl := Option.some.inj hj
    exact ⟨_, ht, rfl, rfl, fun _ => trivial⟩
  | node id name cfg parent =>
    obtain ⟨o, ho, hid, htakes, -⟩ := h _ ht p hj
    have hkind : kindOf o = .cluster := htakes
    exact ⟨o, ho, hid, htakes, fun _ => by rw [hkind]; trivial⟩
  | addon => cases hsec

theorem holds_of_addonParent {t : Item} {comp : Option Text} (h : Placed layersOf strict items) (ht : t ∈ items)
    (hsec : t.sec = none) (hd : addonParent (addonPlacement layersOf comp) t = some (some p)) :
    Holds layersOf strict items p (.addon comp) := by
  unfold addonParent at hd
  cases t with
  | cluster id name cfg =>
    simp only [kindOf] at hd
    split at hd
    · cases hd
    · rename_i hplace
      obtain rfl := Option.some.inj (Option.some.inj hd)
      exact ⟨_, ht, rfl, Or.inl rfl, fun _ => not_or.mp hplace⟩
  | node id name cfg parent =>
    simp only [kindOf] at hd
    split at hd
    · cases hd
    rename_i hcommon
    split at hd
    · rename_i hcluster
      obtain rfl := Option.some.inj (Option.some.inj hd)
      exact ⟨_, ht, rfl, Or.inr rfl, fun _ => ⟨hcommon, hcluster⟩⟩
    · -- on a VM, what needs a kcluster goes to the one the VM is in
      rename_i hcluster
      obtain ⟨p', hp', heq⟩ := Option.map_eq_some_iff.mp hd
      obtain rfl := Option.some.inj heq
      obtain ⟨o, ho, hid, htakes, -⟩ := h _ ht p' hp'
      have hkind : kindOf o = .cluster := htakes
      have hplace : addonPlacement layersOf comp = .cluster := not_not.mp hcluster
      refine ⟨o, ho, hid, ?_, fun _ => ?_⟩
      · rw [hkind]
        exact Or.inl rfl
      · rw [hkind]
        exact ⟨by rw [hplace]; decide, by rw [hplace]; decide⟩
  | addon => cases hsec

/-- **Where a block is dropped**, it is allowed. -/
theorem holds_of_dropParent {self target : Option Nat} (h : Placed layersOf strict items)
    (htarget : ∀ i ∈ items, target = some i.id → i.sec = none)
    (hd : dropParent layersOf items self kind target = some (some p)) : Holds layersOf strict items p kind := by
  unfold dropParent at hd
  have ht : ∀ t, (target.bind (find items)).filter (fun t => decide (some t.id ≠ self)) = some t →
      t ∈ items ∧ t.sec = none := by
    intro t ht
    obtain ⟨t', htarget', hfind⟩ := Option.bind_eq_some_iff.mp (Option.filter_eq_some_iff.mp ht).1
    obtain ⟨hmem, hid⟩ := mem_of_find hfind
    exact ⟨hmem, htarget t hmem (by rw [htarget', hid])⟩
  generalize (target.bind (find items)).filter (fun t => decide (some t.id ≠ self)) = t at hd ht
  cases kind with
  | cluster => cases hd
  | node =>
    obtain ⟨t, rfl, hjoined⟩ := Option.bind_eq_some_iff.mp (Option.some.inj hd)
    obtain ⟨hmem, hsec⟩ := ht t rfl
    exact holds_of_joined h hmem hsec hjoined
  | addon comp =>
    cases t with
    | none => cases hd
    | some t =>
      obtain ⟨hmem, hsec⟩ := ht t rfl
      have hreceiver : receiver items t = some t := by
        rcases sec_eq_none_iff.mp hsec with hkind | hkind <;> simp [receiver, hkind]
      simp only [Option.bind_some, hreceiver] at hd
      exact holds_of_addonParent h hmem hsec hd

/-! ### Single events -/

/-- A number that was not given yet. -/
theorem WellPlaced.next {s' : State} (h : WellPlaced layersOf strict s) (hperm : s'.ids.Perm ((s.seq + 1) :: s.ids)) :
    s'.ids.Nodup ∧ ∀ n ∈ s'.ids, n ≤ s.seq + 1 := by
  refine ⟨hperm.nodup_iff.mpr (List.nodup_cons.mpr ⟨fun hn => ?_, h.nodup⟩), fun n hn => ?_⟩
  · have := h.bounded _ hn
    omega
  · rcases List.mem_cons.mp (hperm.subset hn) with rfl | hn
    · exact le_refl _
    · exact Nat.le_succ_of_le (h.bounded n hn)

/-- A block that comes. -/
theorem WellPlaced.push (h : WellPlaced layersOf strict s) (hid : i.id = s.seq + 1)
    (hi : ∀ p, parentOf i = some p → Holds layersOf strict s.model.items p (kindOf i)) :
    WellPlaced layersOf strict { s.withItems (s.model.items ++ [i]) with seq := s.seq + 1 } := by
  have hperm : ({ s.withItems (s.model.items ++ [i]) with seq := s.seq + 1 } : State).ids.Perm
      ((s.seq + 1) :: s.ids) := by
    change ((s.model.items ++ [i]).map Item.id ++ s.waiting.map Drop.id).Perm _
    rw [List.map_append, List.append_assoc, List.map_singleton, hid]
    exact List.perm_middle
  obtain ⟨hnodup, hbounded⟩ := h.next hperm
  exact ⟨hnodup, hbounded, h.placed.append hi, fun d hd p hp => (h.awaited d hd p hp).append⟩

/-- Blocks that stay what they are, each attached to one that is there and allows it. -/
theorem WellPlaced.change {f : Item → Item} (h : WellPlaced layersOf strict s) (hid : ∀ i, (f i).id = i.id)
    (hkind : ∀ i, kindOf (f i) = kindOf i)
    (hparent : ∀ i ∈ s.model.items, ∀ p, parentOf (f i) = some p → Holds layersOf strict s.model.items p (kindOf i)) :
    WellPlaced layersOf strict (s.withItems (s.model.items.map f)) := by
  have hids : (s.withItems (s.model.items.map f)).ids = s.ids := by
    change (s.model.items.map f).map Item.id ++ _ = _
    rw [List.map_map]
    exact congrArg (· ++ _) (List.map_congr_left fun i _ => hid i)
  refine ⟨by rw [hids]; exact h.nodup, by rw [hids]; exact h.bounded, fun j hj p hp => ?_,
    fun d hd p hp => (h.awaited d hd p hp).map hid hkind⟩
  obtain ⟨i, hi, rfl⟩ := List.mem_map.mp hj
  rw [hkind]
  exact (hparent i hi p hp).map hid hkind

/-- A drop that begins to wait. -/
theorem WellPlaced.await {comp : Text} {parent : Option Nat} (h : WellPlaced layersOf strict s)
    (hparent : ∀ p, parent = some p → Holds layersOf strict s.model.items p (.addon (some comp))) :
    WellPlaced layersOf strict { s with seq := s.seq + 1, waiting := s.waiting ++ [⟨s.seq + 1, comp, parent⟩] } := by
  have hperm : ({ s with seq := s.seq + 1, waiting := s.waiting ++ [⟨s.seq + 1, comp, parent⟩] } : State).ids.Perm
      ((s.seq + 1) :: s.ids) := by
    change (s.model.items.map Item.id ++ (s.waiting ++ [_]).map Drop.id).Perm _
    rw [List.map_append, ← List.append_assoc]
    exact List.perm_append_singleton _ _
  obtain ⟨hnodup, hbounded⟩ := h.next hperm
  refine ⟨hnodup, hbounded, h.placed, fun d hd p hp => ?_⟩
  rcases List.mem_append.mp hd with hd | hd
  · exact h.awaited d hd p hp
  · obtain rfl := List.mem_singleton.mp hd
    exact hparent p hp

/-- A drop that no longer waits. -/
theorem WellPlaced.settle (h : WellPlaced layersOf strict s) (id : Nat) :
    WellPlaced layersOf strict { s with waiting := s.waiting.filter fun d => decide (d.id ≠ id) } := by
  have hsub : ({ s with waiting := s.waiting.filter fun d => decide (d.id ≠ id) } : State).ids.Sublist s.ids :=
    (List.filter_sublist.map Drop.id).append_left _
  exact ⟨h.nodup.sublist hsub, fun n hn => h.bounded n (hsub.subset hn), h.placed,
    fun d hd => h.awaited d (List.mem_filter.mp hd).1⟩

/-- The block of a drop, once its schema has come. -/
theorem WellPlaced.land {d : Drop} (h : WellPlaced layersOf strict s) (hd : d ∈ s.waiting) (sec : SectionName) :
    WellPlaced layersOf strict (State.withItems { s with waiting := s.waiting.filter fun d' => decide (d'.id ≠ d.id) }
      (s.model.items ++ [.addon d.id (some d.comp) sec none d.parent])) := by
  have hsettled := h.settle d.id
  have hnew : d.id ∉ ({ s with waiting := s.waiting.filter fun d' => decide (d'.id ≠ d.id) } : State).ids := by
    intro hn
    rcases List.mem_append.mp hn with hn | hn
    · exact (List.nodup_append.mp h.nodup).2.2 _ hn _ (List.mem_map_of_mem hd) rfl
    · obtain ⟨d', hd', hid⟩ := List.mem_map.mp hn
      exact of_decide_eq_true (List.mem_filter.mp hd').2 hid
  have hperm : (State.withItems { s with waiting := s.waiting.filter fun d' => decide (d'.id ≠ d.id) }
      (s.model.items ++ [.addon d.id (some d.comp) sec none d.parent])).ids.Perm
      (d.id :: ({ s with waiting := s.waiting.filter fun d' => decide (d'.id ≠ d.id) } : State).ids) := by
    change ((s.model.items ++ [_]).map Item.id ++ _).Perm _
    rw [List.map_append, List.append_assoc]
    exact List.perm_middle
  refine ⟨hperm.nodup_iff.mpr (List.nodup_cons.mpr ⟨hnew, hsettled.nodup⟩), fun n hn => ?_,
    h.placed.append fun p hp => h.awaited d hd p hp,
    fun d' hd' p hp => (h.awaited d' (List.mem_filter.mp hd').1 p hp).append⟩
  rcases List.mem_cons.mp (hperm.subset hn) with rfl | hn
  · exact h.bounded _ (List.mem_append_right _ (List.mem_map_of_mem hd))
  · exact hsettled.bounded n hn

/-- What is there after a removal: another block, and a VM that was attached to the one removed is no more. -/
theorem mem_removed {id : Nat} {j : Item} (h : j ∈ removed items id) : ∃ i ∈ items, j.id = i.id ∧
    kindOf j = kindOf i ∧ i.id ≠ id ∧ ∀ p, parentOf j = some p → parentOf i = some p ∧ p ≠ id := by
  obtain ⟨i, hi, rfl⟩ := List.mem_map.mp h
  obtain ⟨hmem, hkeep⟩ := List.mem_filter.mp hi
  obtain ⟨hne, haddon⟩ := of_decide_eq_true hkeep
  refine ⟨i, hmem, ?_⟩
  cases i with
  | cluster => exact ⟨rfl, rfl, hne, fun p hp => by cases hp⟩
  | node id' name cfg parent =>
    dsimp only
    split
    · exact ⟨rfl, rfl, hne, fun p hp => by cases hp⟩
    · rename_i hparent
      exact ⟨rfl, rfl, hne, fun p hp => ⟨hp, fun heq => hparent (heq ▸ hp)⟩⟩
  | addon id' comp sec override parent =>
    exact ⟨rfl, rfl, hne, fun p hp => ⟨hp, fun heq => haddon ⟨rfl, heq ▸ hp⟩⟩⟩

/-- A VM or a kcluster of another id stays. -/
theorem Holds.removed {id : Nat} (h : Holds layersOf strict items p kind) (hne : p ≠ id) :
    Holds layersOf strict (removed items id) p kind := by
  obtain ⟨o, ho, rfl, htakes, hfits⟩ := h
  have hsec : o.sec = none := by
    rw [sec_eq_none_iff]
    cases kind with
    | cluster => exact htakes.elim
    | node => exact Or.inl htakes
    | addon => exact htakes
  have hkept : o ∈ items.filter fun i => decide (i.id ≠ id ∧ ¬ (i.sec.isSome ∧ parentOf i = some id)) :=
    List.mem_filter.mpr ⟨ho, decide_eq_true ⟨hne, fun hcon => by rw [hsec] at hcon; cases hcon.1⟩⟩
  refine ⟨_, List.mem_map_of_mem hkept, ?_, ?_⟩
  · cases o with
    | node => dsimp only; split <;> rfl
    | _ => rfl
  · have hkind : kindOf (match o with
        | .node _ _ _ parent => if parent = some id then setParent none o else o
        | _ => o) = kindOf o := by
      cases o with
      | node => dsimp only; split <;> rfl
      | _ => rfl
    cases o with
    | node => exact ⟨by rw [hkind]; exact htakes, by rw [hkind]; exact hfits⟩
    | cluster => exact ⟨htakes, hfits⟩
    | addon => cases hsec

theorem WellPlaced.remove {id : Nat} (h : WellPlaced layersOf strict s)
    (hclear : ∀ d ∈ s.waiting, d.parent ≠ some id) :
    WellPlaced layersOf strict (s.withItems (removed s.model.items id)) := by
  have hids : (removed s.model.items id).map Item.id =
      (s.model.items.filter fun i => decide (i.id ≠ id ∧ ¬ (i.sec.isSome ∧ parentOf i = some id))).map Item.id := by
    unfold removed
    rw [List.map_map]
    refine List.map_congr_left fun i _ => ?_
    cases i with
    | node => dsimp only [Function.comp]; split <;> rfl
    | _ => rfl
  have hsub : (s.withItems (removed s.model.items id)).ids.Sublist s.ids := by
    change ((removed s.model.items id).map Item.id ++ _).Sublist _
    rw [hids]
    exact (List.filter_sublist.map Item.id).append_right _
  refine ⟨h.nodup.sublist hsub, fun n hn => h.bounded n (hsub.subset hn), fun j hj p hp => ?_, fun d hd p hp => ?_⟩
  · obtain ⟨i, hi, -, hkind, -, hparent⟩ := mem_removed hj
    obtain ⟨hp', hne⟩ := hparent p hp
    rw [hkind]
    exact (h.placed i hi p hp').removed hne
  · exact (h.awaited d hd p hp).removed fun heq => hclear d hd (heq ▸ hp)

/-! ### The blocks of a lab that is opened -/

theorem mem_addonItems {parent : Nat} {es : List AddonEntry} {seq : Nat}
    (h : i ∈ addonItems palette parent seq es) : (∃ comp, kindOf i = .addon comp) ∧ parentOf i = some parent := by
  induction es generalizing seq with
  | nil => cases h
  | cons e es ih =>
    unfold addonItems at h
    split at h
    · exact ih h
    · rcases List.mem_cons.mp h with rfl | h
      · exact ⟨⟨_, rfl⟩, rfl⟩
      · exact ih h

/-- The block of an owner, or one attached to it. -/
theorem mem_ownerItems {make : Nat → Text → Owner → Item} {os : List (Text × Owner)} {seq : Nat}
    (h : i ∈ ownerItems palette make seq os) : (∃ id name o, i = make id name o) ∨
      ((∃ comp, kindOf i = .addon comp) ∧
        ∃ id name o, make id name o ∈ ownerItems palette make seq os ∧ parentOf i = some id) := by
  induction os generalizing seq with
  | nil => cases h
  | cons e os ih =>
    unfold ownerItems at h ⊢
    rcases List.mem_append.mp h with h | h
    · rcases List.mem_cons.mp h with rfl | h
      · exact Or.inl ⟨_, _, _, rfl⟩
      · obtain ⟨hkind, hparent⟩ := mem_addonItems h
        exact Or.inr ⟨hkind, _, e.1, e.2, List.mem_append_left _ List.mem_cons_self, hparent⟩
    · rcases ih h with hi | ⟨hkind, id, name, o, ho, hparent⟩
      · exact Or.inl hi
      · exact Or.inr ⟨hkind, id, name, o, List.mem_append_right _ ho, hparent⟩

theorem parentOf_sectionItems {es : List (SectionName × Json)} {seq : Nat}
    (h : i ∈ sectionItems palette items seq es) : parentOf i = none := by
  induction es generalizing seq with
  | nil => cases h
  | cons e es ih =>
    unfold sectionItems at h
    split at h
    · rcases List.mem_cons.mp h with rfl | h
      · rfl
      · exact ih h
    · exact ih h

/-- A kcluster that a VM of an opened lab joins. -/
theorem mem_of_placed {o : Owner} (h : (placed items o).2 = some p) :
    ∃ c ∈ items, c.id = p ∧ kindOf c = .cluster := by
  unfold placed at h
  dsimp only at h
  split at h
  · rename_i c hc
    obtain rfl := Option.some.inj h
    refine ⟨c, List.mem_of_find?_eq_some hc, rfl, ?_⟩
    have hnamed := List.find?_some hc
    cases c with
    | cluster => rfl
    | _ => cases hnamed
  · cases h

/-- **An opened lab** attaches each block to one that is there. -/
theorem placed_decompileLab (lab : Lab) : Placed layersOf False (decompileLab palette lab).items := by
  have hcluster : ∀ i ∈ clusterItems palette lab, i ∈ (decompileLab palette lab).items := fun i hi =>
    List.mem_append_left _ (List.mem_append_left _ hi)
  have hnode : ∀ i ∈ nodeItems palette lab, i ∈ (decompileLab palette lab).items := fun i hi =>
    List.mem_append_left _ (List.mem_append_right _ hi)
  intro i hi p hp
  rcases List.mem_append.mp hi with hi | hi
  · rcases List.mem_append.mp hi with hi | hi
    · rcases mem_ownerItems hi with ⟨id, name, o, rfl⟩ | ⟨⟨comp, hkind⟩, id, name, o, ho, hparent⟩
      · cases hp
      · obtain rfl := Option.some.inj (hparent.symm.trans hp)
        exact ⟨_, hcluster _ ho, rfl, by rw [hkind]; exact Or.inl rfl, False.elim⟩
    · rcases mem_ownerItems hi with ⟨id, name, o, rfl⟩ | ⟨⟨comp, hkind⟩, id, name, o, ho, hparent⟩
      · obtain ⟨c, hc, hid, hkind⟩ := mem_of_placed hp
        exact ⟨c, hcluster c hc, hid, hkind, False.elim⟩
      · obtain rfl := Option.some.inj (hparent.symm.trans hp)
        exact ⟨_, hnode _ ho, rfl, by rw [hkind]; exact Or.inr rfl, False.elim⟩
  · rw [parentOf_sectionItems hi] at hp
    cases hp

theorem Placed.weaken (h : Placed layersOf True items) : Placed layersOf strict items := by
  intro i hi p hp
  obtain ⟨o, ho, hid, htakes, hfits⟩ := h i hi p hp
  exact ⟨o, ho, hid, htakes, fun _ => hfits trivial⟩

/-! ### Runs -/

/-- **What an event leaves**, when it does not remove the block a drop waits to be attached to. -/
theorem wellPlaced_step {e : Event} (h : WellPlaced layersOf strict s) (hclear : Clear layersOf palette strict s e) :
    WellPlaced layersOf strict (step layersOf string palette s e) := by
  cases e with
  | dropCluster => exact h.push rfl fun p hp => by cases hp
  | dropNode target =>
    rw [step]
    split
    · exact h
    · rename_i parent hd
      refine h.push rfl fun p hp => ?_
      obtain rfl : parent = some p := hp
      exact holds_of_dropParent h.placed hclear hd
  | dropAddon comp target =>
    rw [step]
    split
    · exact h
    · rename_i parent hd
      exact h.await fun p hp => holds_of_dropParent h.placed hclear (hp ▸ hd)
  | schema id sec =>
    rw [step]
    split
    · exact h
    · rename_i d hd
      have hid : d.id = id := by simpa using List.find?_some hd
      subst hid
      cases sec with
      | none => exact h.settle d.id
      | some sec => exact h.land (List.mem_of_find?_eq_some hd) sec
  | move id target =>
    rw [step]
    split
    · exact h
    · rename_i i hi
      obtain ⟨hmem, rfl⟩ := mem_of_find hi
      split
      · exact h
      · rename_i parent hd
        refine h.change (fun j => ?_) (fun j => ?_) fun j hj p hp => ?_
        · split
          · exact id_setParent _ _
          · rfl
        · split
          · exact kindOf_setParent _ _
          · rfl
        · split at hp
          · rename_i heq
            -- no two blocks have one id
            obtain rfl := List.inj_on_of_nodup_map (List.nodup_append.mp h.nodup).1 hj hmem heq
            exact holds_of_dropParent h.placed hclear (parentOf_setParent hp ▸ hd)
          · exact h.placed j hj p hp
  | remove id => exact h.remove hclear
  | edit id name cfg =>
    rw [step]
    split
    · exact h
    · split
      · exact h
      · refine h.change (fun j => ?_) (fun j => ?_) fun j hj p hp => ?_
        · split
          · exact id_edited _ _ _
          · rfl
        · split
          · exact kindOf_edited _ _ _
          · rfl
        · refine h.placed j hj p ?_
          split at hp
          · rwa [parentOf_edited] at hp
          · exact hp
  | editCommon common => exact ⟨h.nodup, h.bounded, h.placed, h.awaited⟩
  | editAddon sec frag => exact ⟨h.nodup, h.bounded, h.placed, h.awaited⟩
  | load lab =>
    have hids : (step layersOf string palette s (.load lab)).ids =
        List.range' 1 (decompileLab palette lab).items.length := by
      change _ ++ [] = _
      rw [List.append_nil]
      exact map_id_items
    refine ⟨by rw [hids]; exact List.nodup_range', fun n hn => ?_, ?_, fun d hd => by cases hd⟩
    · rw [hids, List.mem_range'_1] at hn
      change n ≤ (decompileLab palette lab).items.length
      omega
    · by_cases hstrict : strict
      · exact (hclear hstrict).weaken
      · intro i hi p hp
        obtain ⟨o, ho, hid, htakes, -⟩ := @placed_decompileLab layersOf palette lab i hi p hp
        exact ⟨o, ho, hid, htakes, fun hcon => absurd hcon hstrict⟩

/-- The canvas before anything happens. -/
def start : State := ⟨⟨Obj.empty, [], Obj.empty, Obj.empty, Obj.empty⟩, 0, []⟩

/-- A kcluster, a VM in it, and an add-on that is dropped on the VM. -/
def sampleEvents : List Event :=
  [.dropCluster, .dropNode (some 1), .dropAddon "install_k9s".toList (some 2),
    .schema 3 (some ⟨"k9s".toList, by decide⟩)]

/-- The add-on needs a kcluster. -/
def sampleLayers (comp : Text) : Option (List Text) :=
  if comp = "install_k9s".toList then some ["kubernetes".toList] else none

/-- No versions are given. -/
def samplePalette : Palette := ⟨[], none, fun _ => none⟩

theorem reached_sample :
    Reached (Clear sampleLayers samplePalette True) (step sampleLayers (fun _ => []) samplePalette) start
      (sampleEvents.foldl (step sampleLayers (fun _ => []) samplePalette) start) := by
  refine Reached.start.run ⟨trivial, ?_, ?_, trivial, trivial⟩
  · intro i hi _
    obtain rfl := List.mem_singleton.mp hi
    rfl
  · intro i hi _
    rcases List.mem_pair.mp hi with rfl | rfl
    · rfl
    · rfl

theorem wellPlaced_start : WellPlaced layersOf strict start :=
  ⟨List.nodup_nil, fun _ hn => (List.not_mem_nil hn).elim, fun _ hi => (List.not_mem_nil hi).elim,
    fun _ hd => (List.not_mem_nil hd).elim⟩

theorem wellPlaced_of_reached
    (h : Reached (Clear layersOf palette strict) (step layersOf string palette) start s) :
    WellPlaced layersOf strict s :=
  h.invariant wellPlaced_start fun _ _ hs hok => wellPlaced_step hs hok

/-- **The condition is needed**: where the block a drop waits for is removed, the add-on that comes is attached to a
block that is not there. -/
theorem dangling_of_remove {d : Drop} (h : WellPlaced layersOf strict s) (hd : d ∈ s.waiting) (hp : d.parent = some p)
    (sec : SectionName) {s' : State}
    (hs' : s' = step layersOf string palette (step layersOf string palette s (.remove p)) (.schema d.id (some sec))) :
    Item.addon d.id (some d.comp) sec none (some p) ∈ s'.model.items ∧ ∀ o ∈ s'.model.items, o.id ≠ p := by
  have hnodup : (s.waiting.map Drop.id).Nodup := (List.nodup_append.mp h.nodup).2.1
  have hfind : (s.waiting.find? fun e => decide (e.id = d.id)) = some d := by
    cases hf : s.waiting.find? fun e => decide (e.id = d.id) with
    | none => exact absurd (decide_eq_true rfl) (List.find?_eq_none.mp hf d hd)
    | some e =>
      have hid : e.id = d.id := by simpa using List.find?_some hf
      rw [List.inj_on_of_nodup_map hnodup (List.mem_of_find?_eq_some hf) hd hid]
  have hitems : s'.model.items = removed s.model.items p ++ [.addon d.id (some d.comp) sec none (some p)] := by
    rw [hs', step]
    change (match s.waiting.find? fun e => decide (e.id = d.id) with
      | none => _
      | some d => _ : State).model.items = _
    rw [hfind, ← hp]
    rfl
  rw [hitems]
  refine ⟨List.mem_append_right _ List.mem_cons_self, fun o ho => ?_⟩
  rcases List.mem_append.mp ho with ho | ho
  · obtain ⟨j, hj, rfl⟩ := List.mem_map.mp ho
    have hne : j.id ≠ p := (of_decide_eq_true (List.mem_filter.mp hj).2).1
    split
    · split
      · rwa [id_setParent]
      · exact hne
    · exact hne
  · obtain rfl := List.mem_singleton.mp ho
    -- the drop waits for a block that is there, so it is not that block
    intro hcon
    obtain ⟨o, ho, hid, -⟩ := h.awaited d hd p hp
    exact (List.nodup_append.mp h.nodup).2.2 _ (List.mem_map_of_mem ho) _ (List.mem_map_of_mem hd)
      (hid.trans hcon.symm)

end Keeps

/-! ## What is saved -/

section Saved

variable {layersOf : Text → Option (List Text)} {string : Json → Text} {palette : Palette} {strict : Prop}
  {s : State} {items : List Item} {name : Text} {o : Owner}

/-- Every add-on of a block is in its list. -/
theorem mem_entriesOf {cs : List (SectionName × Option (Obj Text Json))} {c : SectionName × Option (Obj Text Json)}
    {names : List SectionName} (hc : c ∈ cs) (h : c.1 ∉ names) : c.1 ∈ (entriesOf names cs).map AddonEntry.sec := by
  induction cs generalizing names with
  | nil => cases hc
  | cons d cs ih =>
    unfold entriesOf
    split
    · rename_i hd
      rcases List.mem_cons.mp hc with rfl | hc
      · exact absurd hd h
      · exact ih hc h
    · rw [List.map_cons, sec_addonEntry]
      by_cases heq : c.1 = d.1
      · exact heq ▸ List.mem_cons_self
      · rcases List.mem_cons.mp hc with rfl | hc
        · exact absurd rfl heq
        · exact List.mem_cons_of_mem _ (ih hc fun hmem => (List.mem_cons.mp hmem).elim heq h)

/-- The list of a saved block names every add-on that is attached to it. -/
theorem mem_attached {id aid : Nat} {comp : Option Text} {sec : SectionName} {override : Option (Obj Text Json)}
    (h : Item.addon aid comp sec override (some id) ∈ items) (hsec : sec.1 ≠ []) :
    sec ∈ ((nonempty (attached items id)).getD []).map AddonEntry.sec := by
  rw [nonempty_getD]
  have hchild : (sec, override) ∈ items.filterMap (childOf id) :=
    List.mem_filterMap.mpr ⟨_, h, if_pos ⟨rfl, hsec⟩⟩
  exact mem_entriesOf hchild List.not_mem_nil

/-- An entry that is saved comes from a block. -/
theorem exists_of_get_assign {f : Item → Option (Text × Owner)}
    (h : (Obj.empty.assign (items.filterMap f)).get name = some o) : ∃ i ∈ items, f i = some (name, o) := by
  rw [Obj.get_assign_of_lawful, Obj.get_empty, Option.or_none, dictGet] at h
  obtain ⟨l₁, l₂, hl, -⟩ := List.lookup_eq_some_iff.mp h
  refine List.mem_filterMap.mp (List.mem_reverse.mp ?_)
  rw [hl]
  exact List.mem_append_right _ List.mem_cons_self

/-- A block has an entry. -/
theorem isSome_get_assign {f : Item → Option (Text × Owner)} {i : Item} (hi : i ∈ items) (hf : f i = some (name, o)) :
    ((Obj.empty.assign (items.filterMap f)).get name).isSome := by
  have hmem : name ∈ (items.filterMap f).map Prod.fst := List.mem_map.mpr ⟨_, List.mem_filterMap.mpr ⟨i, hi, hf⟩, rfl⟩
  obtain ⟨v, hv⟩ := Obj.mem_keys_iff.mp (Obj.mem_keys_assign (o := Obj.empty) hmem)
  rw [hv]
  rfl

/-- The nodes of the lab that is saved. -/
theorem nodesObj_compileLab (m : Model) : (compileLab palette m).nodesObj =
    Obj.empty.assign (m.items.filterMap (nodeEntry m.items)) := part_getD _

/-- The kclusters of the lab that is saved. -/
theorem kclustersObj_compileLab (m : Model) : (compileLab palette m).kclustersObj =
    Obj.empty.assign (m.items.filterMap (clusterEntry m.items)) := part_getD _

/-- A block of its own id is found by it. -/
theorem byId_of_nodup {i : Item} (h : (items.map Item.id).Nodup) (hi : i ∈ items) : byId items i.id = some i := by
  unfold byId
  cases hf : items.reverse.find? fun j => decide (j.id = i.id) with
  | none =>
    have hnone := List.find?_eq_none.mp hf i (List.mem_reverse.mpr hi)
    exact absurd (decide_eq_true rfl) hnone
  | some j =>
    have hid : j.id = i.id := by simpa using List.find?_some hf
    rw [List.inj_on_of_nodup_map h (List.mem_reverse.mp (List.mem_of_find?_eq_some hf)) hi hid]

/-- The lab names the kcluster a block is in, and has it. -/
structure Joined (palette : Palette) (m : Model) (o : Owner) (k : Text) : Prop where
  named : o.fields.get kclusterField = some (.text k)
  there : k ≠ proto → ((compileLab palette m).kclustersObj.get k).isSome

/-- The list names the add-ons that are attached to a block. -/
def Lists (items : List Item) (o : Owner) (id : Nat) : Prop :=
  ∀ aid comp sec override, Item.addon aid comp sec override (some id) ∈ items → sec.1 ≠ [] →
    sec ∈ o.entries.map AddonEntry.sec

/-- A saved node is a VM of that name, with its kcluster and its add-ons. -/
theorem node_of_get (h : WellPlaced layersOf strict s)
    (hget : (compileLab palette s.model).nodesObj.get name = some o) :
    ∃ id cfg parent, Item.node id name cfg parent ∈ s.model.items ∧ Lists s.model.items o id ∧
      ∀ p, parent = some p → ∃ k kcfg, Item.cluster p k kcfg ∈ s.model.items ∧
        (k ≠ [] → Joined palette s.model o k) := by
  rw [nodesObj_compileLab] at hget
  obtain ⟨i, hi, hentry⟩ := exists_of_get_assign hget
  cases i with
  | node id name' cfg parent =>
    unfold nodeEntry at hentry
    dsimp only at hentry
    split at hentry
    · cases hentry
    obtain ⟨rfl, rfl⟩ := Prod.mk.inj (Option.some.inj hentry)
    refine ⟨id, cfg, parent, hi, fun _ _ _ _ ha hsec => mem_attached ha hsec, fun p hp => ?_⟩
    subst hp
    obtain ⟨c, hc, hid, hkind, -⟩ := h.placed _ hi p rfl
    cases c with
    | cluster cid k kcfg =>
      obtain rfl : cid = p := hid
      refine ⟨k, kcfg, hc, fun hk => ⟨?_, fun hproto => ?_⟩⟩
      · have hby : (some cid).bind (byId s.model.items) = some (.cluster cid k kcfg) :=
          byId_of_nodup (List.nodup_append.mp h.nodup).1 hc
        have hfields : nodeFields s.model.items cfg (some cid) =
            (cleanObj Subtype.val cfg).set kclusterField (.text k) := by
          unfold nodeFields
          rw [hby]
          exact if_neg hk
        change (nodeFields s.model.items cfg (some cid)).get kclusterField = _
        rw [hfields, Obj.get_set, if_pos rfl]
      · rw [kclustersObj_compileLab]
        refine isSome_get_assign hc (f := clusterEntry s.model.items)
          (o := ⟨cleanObj Subtype.val kcfg, nonempty (attached s.model.items cid)⟩) ?_
        exact if_neg fun hcon => hcon.elim hk hproto
    | node => cases hkind
    | addon => cases hkind
  | cluster => cases hentry
  | addon => cases hentry

/-- A saved kcluster is a block of that name, with its add-ons. -/
theorem cluster_of_get (hget : (compileLab palette s.model).kclustersObj.get name = some o) :
    ∃ id cfg, Item.cluster id name cfg ∈ s.model.items ∧ Lists s.model.items o id := by
  rw [kclustersObj_compileLab] at hget
  obtain ⟨i, hi, hentry⟩ := exists_of_get_assign hget
  cases i with
  | cluster id name' cfg =>
    unfold clusterEntry at hentry
    dsimp only at hentry
    split at hentry
    · cases hentry
    obtain ⟨rfl, rfl⟩ := Prod.mk.inj (Option.some.inj hentry)
    exact ⟨id, cfg, hi, fun _ _ _ _ ha hsec => mem_attached ha hsec⟩
  | node => cases hentry
  | addon => cases hentry

end Saved

end LabInABox.Web.Canvas
