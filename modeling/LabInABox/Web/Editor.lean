import LabInABox.JsPath
import LabInABox.Web.Widgets

/-!
# A block edited without a change

Model of `openEditor` and `applyEditor` (`webui/htdocs/app.js`) with `walk`, `serializeForm` and `readInstance`,
where nothing is entered in between: on the common settings, on an add-on, and on a VM or a kcluster.

* The form of the common settings and of an add-on gives its fields paths, and `serializeForm` builds a new
  configuration from them. The form of a VM or a kcluster has one widget for each field, and keys it does not
  show are kept.
* A group of instances starts with one that has no key, so nothing of it is read.
* What a text, a number or a list answers for a key is a parameter. No field is called like something that
  every object answers for.
* A value is not empty when it is a list with an item, a text, a number or a truth value, at any path of keys.
* Setting a value below a text, a number or a truth value raises. Below a list it would be a property that is
  not written; that is taken to raise as well.

Results:
* `at?_applied_iff`: what a configuration holds after the editor was applied.
* `unchanged_iff`: exactly when nothing is changed.
* `hidden_key_dropped`: a key of the common settings that the form does not show is lost.
-/

namespace LabInABox.Web.Editor

open Text JsValue

variable {ν : Type}

/-! ## The form -/

section Form

variable (N : Numbers ν)

/-- The field a mapping describes, when `isField(o)`. -/
def fieldOf (es : List (Text × JsValue ν)) : Option (Field ν) :=
  match es.lookup "name".toList, es.lookup "type".toList with
  | some (text name), some (text type) =>
    some
      { name := name
        type := type
        options := match es.lookup "enum".toList with
          | some (list vs) => vs
          | _ => []
        default := match es.lookup "default".toList with
          | some null => none
          | v => v
        hidden := (es.lookup "hidden".toList).any (isTrue N)
        showIf := (es.lookup "show_if".toList).filter (isTrue N) }
  | _, _ => none

/-- `STRUCTURAL`. -/
def STRUCTURAL : List Text := ["fields".toList, "sections".toList]

/-- `SCHEMA_METADATA`. -/
def SCHEMA_METADATA : List Text := ["capabilities".toList]

/-- `val.repeatable === true`. -/
def isRepeatable : JsValue ν → Bool
  | mapping es =>
    match es.lookup "repeatable".toList with
    | some (.bool b) => b
    | _ => false
  | _ => false

mutual

/-- `walk(node, parent, outPath)`: the fields that get a widget, each with its path. -/
def widgetsOf (path : List Text) : JsValue ν → List (List Text × Field ν)
  | list vs => widgetsOfList path vs
  | mapping es =>
    match fieldOf N es with
    | some f => if f.hidden then [] else [(path ++ [f.name], f)]
    | none => widgetsOfEntries path es
  | _ => []

def widgetsOfList (path : List Text) : List (JsValue ν) → List (List Text × Field ν)
  | [] => []
  | v :: vs => widgetsOf path v ++ widgetsOfList path vs

def widgetsOfEntries (path : List Text) : List (Text × JsValue ν) → List (List Text × Field ν)
  | [] => []
  | (k, v) :: es =>
    (if k ∈ SCHEMA_METADATA then []
      else if k ∈ STRUCTURAL then widgetsOf path v
      else if isRepeatable v then []
      else widgetsOf (path ++ [k]) v) ++ widgetsOfEntries path es

end

end Form

/-! ## Blocks -/

/-- A VM, or a kcluster. -/
structure Instance (ν : Type) where
  isNode : Bool
  fields : List (Field ν)
  /-- The name of the kcluster a VM sits in. -/
  kcluster : Option Text
  name : Text
  /-- The names of the other blocks of its type. -/
  others : List Text
  cfg : List (Text × JsValue ν)

/-- A block whose editor is opened: the common settings, an add-on, or an instance. -/
inductive Block (ν : Type)
  | common (fields : JsValue ν) (cfg : List (Text × JsValue ν))
  | addon (schema : JsValue ν) (frag : List (Text × JsValue ν))
  | item (i : Instance ν)

/-- `HIDDEN_NODE_FIELDS`, or `HIDDEN_CLUSTER_FIELDS`. -/
def hiddenFields (isNode : Bool) : List Text :=
  if isNode then ["kcluster".toList, "addons".toList] else ["addons".toList]

/-- `v !== undefined && v !== null && v !== ""`. -/
def isSet : Option (JsValue ν) → Bool
  | none | some null => false
  | some (text t) => t ≠ []
  | some _ => true

/-- `getPath(obj, path)`; `property` is what a value that is no mapping answers for a key. -/
def getPath (property : JsValue ν → Text → Option (JsValue ν)) : JsValue ν → List Text → Option (JsValue ν)
  | v, [] => some v
  | null, _ :: _ => none
  | mapping es, k :: ks => (es.lookup k).bind fun v => getPath property v ks
  | v, k :: ks => (property v k).bind fun v => getPath property v ks

section Block

variable (N : Numbers ν) (property : JsValue ν → Text → Option (JsValue ν)) (common : List (Text × JsValue ν))

namespace Instance

variable (i : Instance ν)

/-- `structuralCfg(item)`. -/
def structuralCfg : List (Text × JsValue ν) :=
  match i.kcluster with
  | some c => if i.isNode ∧ c ≠ [] then put i.cfg "kcluster".toList (.text c) else i.cfg
  | none => i.cfg

/-- The fields its form shows: `shownFields(..)`. -/
def shown : List (Field ν) :=
  (i.fields.filter fun f => f.name ∉ hiddenFields i.isNode).filter fun f =>
    f.showIf.all fun k => isSet (i.structuralCfg.lookup (jsText N k))

/-- `applyEditor` turns the name down. -/
def refused : Bool := trim i.name = [] || trim i.name ∈ i.others

/-- The keys the form does not show. -/
def kept : List (Text × JsValue ν) := i.cfg.filter fun e => e.1 ∉ (i.shown N).map Field.name

end Instance

/-- `state.commonDefaults[name]`. -/
def liveDefault (name : Text) : Option Text := ((common.lookup name).filter fun v => isSet (some v)).map (jsText N)

namespace Block

variable (b : Block ν)

/-- The widgets of the form, each with its path. -/
def widgets : Block ν → List (List Text × Field ν)
  | .common fields _ => widgetsOf N ["common".toList] (mapping [("fields".toList, fields)])
  | addon schema _ => widgetsOf N [] schema
  | item i => (i.shown N).map fun f => ([f.name], f)

/-- What the paths lead into. -/
def root : Block ν → JsValue ν
  | .common _ cfg => mapping [("common".toList, mapping cfg)]
  | addon _ frag => mapping frag
  | item i => mapping i.cfg

/-- The form is that of an instance. -/
def isItem : Block ν → Bool
  | item _ => true
  | _ => false

/-- `m.common`, where `common` is that of the lab. -/
def commonCfg : Block ν → List (Text × JsValue ν)
  | .common _ cfg => cfg
  | _ => common

/-- What a widget holds once the form is open. -/
def heldBy (w : List Text × Field ν) : Text :=
  w.2.held N (w.2.preset N b.isItem (liveDefault N (commonCfg common b) w.2.name)) (getPath property b.root w.1)

/-- What is read from the widgets. -/
def readings : List (List Text × JsValue ν) :=
  (b.widgets N).filterMap fun w => (w.2.reads N (b.heldBy N property common w)).map (Prod.mk w.1)

/-- The block's configuration after `applyEditor`, unless it raises. -/
def applied : Option (JsValue ν) :=
  match b with
  | .common _ _ => (build (mapping []) (b.readings N property common)).map fun frag =>
      mapping [("common".toList, (frag.at? ["common".toList]).getD (mapping []))]
  | addon _ _ => build (mapping []) (b.readings N property common)
  | item i =>
    if i.refused then some b.root
    else
      -- `obj[field] = v` for each, and `Object.assign(kept, r.obj)`
      let obj := (b.readings N property common).foldl (fun es a => put es (a.1.headD []) a.2) []
      some (mapping (obj.foldl (fun es e => put es e.1 e.2) (i.kept N)))

end Block

end Block

/-! ## What is to stay -/

/-- A value that counts as empty. -/
def IsBlank : JsValue ν → Prop
  | null => True
  | text t => t = []
  | list vs => vs = []
  | _ => False

/-- A value at the end of a path, that is not empty. -/
def IsLeaf (o : JsValue ν) (p : List Text) (v : JsValue ν) : Prop := o.at? p = some v ∧ ¬ IsMapping v ∧ ¬ IsBlank v

section Stays

variable (N : Numbers ν) (property : JsValue ν → Text → Option (JsValue ν)) (common : List (Text × JsValue ν))
  (b : Block ν)

/-- What was there is there, and what was added is its field's default. -/
structure Keeps (after : JsValue ν) : Prop where
  kept : ∀ p v, IsLeaf b.root p v → after.at? p = some v
  added : ∀ p v, IsLeaf after p v → (∀ w, ¬ IsLeaf b.root p w) → ∃ f, (p, f) ∈ b.widgets N ∧ f.default = some v

/-- **Applying the editor changes nothing.** -/
def Unchanged : Prop := ∀ after, b.applied N property common = some after → Keeps N b after

/-- The form is that of an instance, and does not show the key. -/
def Untouched (p : List Text) : Prop := ∃ i, b = .item i ∧ ∀ k ∈ p.head?, k ∉ (i.shown N).map Field.name

/-- `applyEditor` turns the block's name down. -/
def Refused : Prop := ∃ i, b = .item i ∧ i.refused = true

/-- The widget is read as nothing. -/
def Silent (w : List Text × Field ν) : Prop := w.2.reads N (b.heldBy N property common w) = none

/-- `setPath` raises: a widget's path leads on from the end of an earlier one's, both are read. -/
def Raises : Prop := ¬ (b.widgets N).Pairwise fun w w' =>
  ¬ Silent N property common b w → ¬ Silent N property common b w' → ¬ LeadsOn w.1 w'.1

/-- What is read from the widget is not set over by that of a later one. -/
def Prevails (w : List Text × Field ν) : Prop := ∃ pre post, b.widgets N = pre ++ w :: post ∧
  ∀ w' ∈ post, Clash w'.1 w.1 → Silent N property common b w'

/-- **What keeps a block as it is**: each value is one the form does not touch, or comes back from a widget; and a
widget that was given none is read as a default of the schema, or not at all. -/
structure Stays : Prop where
  comesBack : ∀ p v, IsLeaf b.root p v →
    Untouched N b p ∨ ∃ f, Prevails N property common b (p, f) ∧ f.Faithful N v
  presets : ∀ w, Prevails N property common b w → (∀ v, ¬ IsLeaf b.root w.1 v) →
    ∀ v, w.2.reads N (b.heldBy N property common w) = some v → ∃ f, (w.1, f) ∈ b.widgets N ∧ f.default = some v

end Stays

/-! ## What is read -/

section Read

variable {N : Numbers ν} {property : JsValue ν → Text → Option (JsValue ν)} {common : List (Text × JsValue ν)}
  {b : Block ν} {f : Field ν} {v x : JsValue ν} {p q : List Text}

/-- What is read is no mapping, and not empty. -/
theorem reads_shape {s : Text} (h : f.reads N s = some v) : ¬ IsMapping v ∧ ¬ IsBlank v := by
  have hne := Field.not_blank_of_reads h
  cases hk : kindOf f.type with
  | boolean =>
    rw [Field.reads_boolean hk hne] at h
    obtain rfl := Option.some.inj h
    exact ⟨id, id⟩
  | text =>
    rw [Field.reads_text hk hne] at h
    obtain rfl := Option.some.inj h
    exact ⟨id, hne⟩
  | number =>
    rw [Field.reads_number hk hne] at h
    obtain rfl := Option.some.inj h
    cases N.parse (trim s) with
    | none => exact ⟨id, hne⟩
    | some n => exact ⟨id, id⟩
  | array =>
    rw [Field.reads_array hk hne] at h
    split at h
    · cases h
    · rename_i hw
      obtain rfl := Option.some.inj h
      exact ⟨id, fun hnil => hw (List.map_eq_nil_iff.mp hnil)⟩

mutual

/-- The path of a widget goes on from that of its part of the schema. -/
theorem path_widgetsOf : ∀ (path : List Text) (v : JsValue ν), ∀ w ∈ widgetsOf N path v, ∃ k q, w.1 = path ++ k :: q
  | path, list vs, w, hw => path_widgetsOfList path vs w hw
  | path, mapping es, w, hw => by
    rw [widgetsOf] at hw
    split at hw
    · rename_i f _
      split at hw
      · cases hw
      · obtain rfl := List.mem_singleton.mp hw
        exact ⟨f.name, [], rfl⟩
    · exact path_widgetsOfEntries path es w hw
  | _, null, _, hw => by cases hw
  | _, .bool _, _, hw => by cases hw
  | _, number _, _, hw => by cases hw
  | _, text _, _, hw => by cases hw

theorem path_widgetsOfList : ∀ (path : List Text) (vs : List (JsValue ν)),
    ∀ w ∈ widgetsOfList N path vs, ∃ k q, w.1 = path ++ k :: q
  | _, [], _, hw => by cases hw
  | path, v :: vs, w, hw => by
    rw [widgetsOfList] at hw
    rcases List.mem_append.mp hw with hw | hw
    · exact path_widgetsOf path v w hw
    · exact path_widgetsOfList path vs w hw

theorem path_widgetsOfEntries : ∀ (path : List Text) (es : List (Text × JsValue ν)),
    ∀ w ∈ widgetsOfEntries N path es, ∃ k q, w.1 = path ++ k :: q
  | _, [], _, hw => by cases hw
  | path, (k, v) :: es, w, hw => by
    rw [widgetsOfEntries] at hw
    rcases List.mem_append.mp hw with hw | hw
    · split at hw
      · cases hw
      · split at hw
        · exact path_widgetsOf path v w hw
        · split at hw
          · cases hw
          · obtain ⟨k', q, hq⟩ := path_widgetsOf (path ++ [k]) v w hw
            exact ⟨k, k' :: q, by rw [hq]; simp⟩
    · exact path_widgetsOfEntries path es w hw

end

theorem path_ne_nil {w : List Text × Field ν} (h : w ∈ b.widgets N) : w.1 ≠ [] := by
  cases b with
  | common fields cfg =>
    obtain ⟨k, q, hq⟩ := path_widgetsOf _ _ w h
    rw [hq]
    simp
  | addon schema frag =>
    obtain ⟨k, q, hq⟩ := path_widgetsOf _ _ w h
    rw [hq]
    simp
  | item i =>
    obtain ⟨f, -, rfl⟩ := List.mem_map.mp h
    simp

theorem mem_readings_iff : (p, v) ∈ b.readings N property common ↔
    ∃ f, (p, f) ∈ b.widgets N ∧ f.reads N (b.heldBy N property common (p, f)) = some v := by
  unfold Block.readings
  rw [List.mem_filterMap]
  constructor
  · rintro ⟨⟨p', f⟩, hw, hv⟩
    obtain ⟨v', hread, heq⟩ := Option.map_eq_some_iff.mp hv
    obtain ⟨rfl, rfl⟩ := Prod.mk.inj heq
    exact ⟨f, hw, hread⟩
  · rintro ⟨f, hw, hread⟩
    exact ⟨(p, f), hw, by rw [hread]; rfl⟩

theorem readings_shape {a : List Text × JsValue ν} (h : a ∈ b.readings N property common) :
    a.1 ≠ [] ∧ ¬ IsMapping a.2 ∧ ¬ IsBlank a.2 := by
  obtain ⟨f, hw, hread⟩ := mem_readings_iff.mp h
  exact ⟨path_ne_nil hw, reads_shape hread⟩

theorem not_silent_of_reads {w : List Text × Field ν} (h : w.2.reads N (b.heldBy N property common w) = some v) :
    ¬ Silent N property common b w := fun hcon => by
  rw [Silent, h] at hcon
  cases hcon

theorem pairwise_readings_iff : (b.readings N property common).Pairwise (fun a a' => ¬ LeadsOn a.1 a'.1) ↔
    ¬ Raises N property common b := by
  rw [Raises, not_not, Block.readings, List.pairwise_filterMap]
  refine List.Pairwise.iff fun w w' => ?_
  constructor
  · intro h hw hw'
    obtain ⟨v, hv⟩ := Option.ne_none_iff_exists'.mp hw
    obtain ⟨v', hv'⟩ := Option.ne_none_iff_exists'.mp hw'
    exact h (w.1, v) (by rw [hv]; rfl) (w'.1, v') (by rw [hv']; rfl)
  · intro h a ha a' ha'
    obtain ⟨v, hv, rfl⟩ := Option.map_eq_some_iff.mp ha
    obtain ⟨v', hv', rfl⟩ := Option.map_eq_some_iff.mp ha'
    exact h (not_silent_of_reads hv) (not_silent_of_reads hv')

/-- A reading is the last of its path when its widget prevails. -/
theorem last_readings_iff : Last (b.readings N property common) (p, v) ↔
    ∃ f, Prevails N property common b (p, f) ∧ f.reads N (b.heldBy N property common (p, f)) = some v := by
  constructor
  · rintro ⟨pre, post, heq, hpost⟩
    obtain ⟨l₁, l₂, hl, -, hl₂⟩ := List.filterMap_eq_append_iff.mp heq
    obtain ⟨m₁, ⟨p', f⟩, m₂, rfl, -, hw, rfl⟩ := List.filterMap_eq_cons_iff.mp hl₂
    obtain ⟨v', hread, hpair⟩ := Option.map_eq_some_iff.mp hw
    obtain ⟨rfl, rfl⟩ := Prod.mk.inj hpair
    refine ⟨f, ⟨l₁ ++ m₁, m₂, by rw [hl, List.append_assoc], fun w' hw' hclash => ?_⟩, hread⟩
    by_contra hcon
    obtain ⟨v', hv'⟩ := Option.ne_none_iff_exists'.mp hcon
    exact hpost (w'.1, v') (List.mem_filterMap.mpr ⟨w', hw', by rw [hv']; rfl⟩) hclash
  · rintro ⟨f, ⟨pre, post, heq, hpost⟩, hread⟩
    rw [Block.readings, heq, List.filterMap_append, List.filterMap_cons, hread]
    refine ⟨_, _, rfl, fun a ha hclash => ?_⟩
    obtain ⟨w', hw', ha⟩ := List.mem_filterMap.mp ha
    obtain ⟨v', hv', rfl⟩ := Option.map_eq_some_iff.mp ha
    exact not_silent_of_reads hv' (hpost w' hw' hclash)

/-- Where the form finds a value at a path of keys. -/
theorem getPath_of_at? {o : JsValue ν} (h : o.at? p = some v) : getPath property o p = some v := by
  induction p generalizing o with
  | nil => cases o <;> exact h
  | cons k ks ih =>
    cases o with
    | mapping es =>
      rw [at?, Option.bind_eq_some_iff] at h
      obtain ⟨c, hc, hrest⟩ := h
      rw [getPath, hc]
      exact ih hrest
    | _ => cases h

end Read

/-! ## What is there afterwards -/

section After

variable {N : Numbers ν} {property : JsValue ν → Text → Option (JsValue ν)} {common : List (Text × JsValue ν)}
  {b : Block ν} {i : Instance ν} {v x after : JsValue ν} {p q : List Text}

theorem exists_build_readings (h : ¬ Raises N property common b) :
    ∃ obj, build (mapping []) (b.readings N property common) = some obj ∧ IsMapping obj ∧
      ∀ q x, ¬ IsMapping x → (obj.at? q = some x ↔ Last (b.readings N property common) (q, x)) :=
  exists_build (fun _ ha => (readings_shape ha).1) (fun _ ha => (readings_shape ha).2.1)
    (pairwise_readings_iff.mpr h)

theorem build_readings_eq_none (h : Raises N property common b) :
    build (mapping []) (b.readings N property common) = none := by
  refine build_eq_none (fun _ ha => (readings_shape ha).1) (fun a ha => ?_)
    fun hfree => pairwise_readings_iff.mp hfree h
  obtain ⟨-, hmap, hblank⟩ := readings_shape ha
  exact ⟨hmap, fun hnull => hblank (hnull ▸ trivial)⟩

/-- The part `common` of what was built, under its key again. -/
theorem at?_common {obj : JsValue ν} (hmap : IsMapping obj)
    (hpaths : ∀ q x, ¬ IsMapping x → obj.at? q = some x → q.head? = some "common".toList) (hx : ¬ IsMapping x) :
    (mapping [("common".toList, (obj.at? ["common".toList]).getD (mapping []))]).at? q = some x ↔
      obj.at? q = some x := by
  cases obj with
  | mapping es =>
    cases q with
    | nil =>
      refine iff_of_false (fun h => hx ?_) fun h => hx ?_
      · exact Option.some.inj h ▸ trivial
      · exact Option.some.inj h ▸ trivial
    | cons k ks =>
      by_cases hk : k = "common".toList
      · subst hk
        have hself : ("common".toList == "common".toList) = true := by simp
        simp only [at?, List.lookup_cons, hself, Option.bind_some]
        cases hl : es.lookup "common".toList with
        | none => simp [at?_nil_mapping hx]
        | some c => simp
      · refine iff_of_false ?_ fun h => hk (Option.some.inj (hpaths _ x hx h))
        have hb : (k == "common".toList) = false := beq_eq_false_iff_ne.mpr hk
        simp only [at?, List.lookup_cons, List.lookup_nil, hb, Option.bind_none, reduceCtorEq, not_false_eq_true]
  | _ => exact hmap.elim

theorem lookup_kept (k : Text) :
    (i.kept N).lookup k = if k ∈ (i.shown N).map Field.name then none else i.cfg.lookup k := by
  unfold Instance.kept
  induction i.cfg with
  | nil => simp
  | cons e es ih =>
    by_cases he : e.1 ∈ (i.shown N).map Field.name
    · rw [List.filter_cons_of_neg (by simpa using he), ih, List.lookup_cons]
      by_cases hk : k = e.1
      · rw [if_pos (hk ▸ he), if_pos (hk ▸ he)]
      · rw [beq_eq_false_iff_ne.mpr hk]
    · rw [List.filter_cons_of_pos (by simpa using he), List.lookup_cons, List.lookup_cons, ih]
      by_cases hk : k = e.1
      · subst hk
        rw [if_neg he, if_neg he]
      · rw [beq_eq_false_iff_ne.mpr hk]

theorem path_of_widget {w : List Text × Field ν} (h : w ∈ (Block.item i).widgets N) :
    ∃ k ∈ (i.shown N).map Field.name, w.1 = [k] := by
  obtain ⟨f, hf, rfl⟩ := List.mem_map.mp h
  exact ⟨f.name, List.mem_map_of_mem hf, rfl⟩

theorem path_of_reading {a : List Text × JsValue ν} (h : a ∈ (Block.item i).readings N property common) :
    ∃ k ∈ (i.shown N).map Field.name, a.1 = [k] := by
  obtain ⟨f, hw, -⟩ := mem_readings_iff.mp h
  exact path_of_widget hw

/-- Nothing is in the way in the form of an instance. -/
theorem not_raises_item : ¬ Raises N property common (.item i) := by
  rw [Raises, not_not]
  refine List.Pairwise.imp_of_mem (fun {w w'} hw hw' _ _ _ hleads => ?_) (List.pairwise_of_forall fun _ _ => trivial)
  obtain ⟨k, -, hk⟩ := path_of_widget hw
  obtain ⟨k', -, hk'⟩ := path_of_widget hw'
  rw [hk, hk'] at hleads
  exact hleads.2 (by simpa using hleads.1)

/-- What is read from the widgets of an instance. -/
def read (N : Numbers ν) (property : JsValue ν → Text → Option (JsValue ν)) (common : List (Text × JsValue ν))
    (i : Instance ν) : List (Text × JsValue ν) :=
  ((Block.item i).readings N property common).foldl (fun es a => put es (a.1.headD []) a.2) []

theorem build_singles {as : List (List Text × JsValue ν)} (h : ∀ a ∈ as, ∃ k, a.1 = [k])
    (es : List (Text × JsValue ν)) :
    build (mapping es) as = some (mapping (as.foldl (fun es a => put es (a.1.headD []) a.2) es)) := by
  induction as generalizing es with
  | nil => rfl
  | cons a as ih =>
    obtain ⟨k, hk⟩ := h a List.mem_cons_self
    have hset : (mapping es).setAt a.1 a.2 = some (mapping (put es (a.1.headD []) a.2)) := by rw [hk]; rfl
    rw [build, List.foldlM_cons, hset]
    exact ih (fun b hb => h b (List.mem_cons_of_mem _ hb)) _

theorem nodup_read : ((read N property common i).map Prod.fst).Nodup := by
  have hfold : (((((Block.item i).readings N property common).map fun a => (a.1.headD [], a.2)).foldl
      (fun es e => put es e.1 e.2) []).map Prod.fst).Nodup :=
    nodup_foldl_put _ List.nodup_nil
  rwa [List.foldl_map] at hfold

theorem mem_keys_read {k : Text} (h : k ∈ (read N property common i).map Prod.fst) :
    k ∈ (i.shown N).map Field.name := by
  have hfold : k ∈ ((((Block.item i).readings N property common).map fun a => (a.1.headD [], a.2)).foldl
      (fun es e => put es e.1 e.2) []).map Prod.fst := by
    rwa [List.foldl_map]
  have hmem := (mem_keys_foldl_put hfold).resolve_right List.not_mem_nil
  obtain ⟨e, he, rfl⟩ := List.mem_map.mp hmem
  obtain ⟨a, ha, rfl⟩ := List.mem_map.mp he
  obtain ⟨k, hk, heq⟩ := path_of_reading ha
  rw [heq]
  exact hk

theorem at?_read_iff (hx : ¬ IsMapping x) : (mapping (read N property common i)).at? p = some x ↔
    Last ((Block.item i).readings N property common) (p, x) := by
  obtain ⟨obj, hbuild, -, hleaf⟩ := @exists_build_readings ν N property common (.item i) not_raises_item
  rw [build_singles (fun a ha => (path_of_reading ha).imp fun _ hk => hk.2)] at hbuild
  rw [← hleaf p x hx, ← Option.some.inj hbuild]
  rfl

/-- What an instance holds at a path that begins with a key. -/
theorem at?_item_iff (hx : ¬ IsMapping x) {k : Text} {ks : List Text} :
    (mapping ((read N property common i).foldl (fun es e => put es e.1 e.2) (i.kept N))).at? (k :: ks) = some x ↔
      (k ∉ (i.shown N).map Field.name ∧ (mapping i.cfg).at? (k :: ks) = some x) ∨
        Last ((Block.item i).readings N property common) (k :: ks, x) := by
  rw [at?, lookup_foldl_put nodup_read, lookup_kept, ← at?_read_iff hx, at?, at?]
  cases hread : (read N property common i).lookup k with
  | none => by_cases hk : k ∈ (i.shown N).map Field.name <;> simp [hk]
  | some y =>
    have hk : k ∈ (i.shown N).map Field.name := by
      by_contra hk
      rw [lookup_of_not_mem fun hmem => hk (mem_keys_read hmem)] at hread
      cases hread
    rw [Option.some_or, or_iff_right fun hcon => hcon.1 hk]

/-- Only the form of an instance leaves something untouched. -/
theorem not_untouched (h : ∀ i, b ≠ .item i) : ¬ Untouched N b p := by
  rintro ⟨i, hi, -⟩
  exact h i hi

/-- **What a configuration holds after the editor was applied**: what the form does not touch, and what is read. -/
theorem at?_applied_iff (h : ¬ Raises N property common b) (hrefused : ¬ Refused b) :
    ∃ after, b.applied N property common = some after ∧ ∀ q x, ¬ IsMapping x → (after.at? q = some x ↔
      (Untouched N b q ∧ b.root.at? q = some x) ∨ Last (b.readings N property common) (q, x)) := by
  cases b with
  | common fields cfg =>
    obtain ⟨obj, hbuild, hmap, hleaf⟩ := exists_build_readings h
    refine ⟨_, by rw [Block.applied, hbuild]; rfl, fun q x hx => ?_⟩
    rw [or_iff_right fun hu => not_untouched (by simp) hu.1, ← hleaf q x hx]
    refine at?_common hmap (fun q x hx hq => ?_) hx
    obtain ⟨f, hw, -⟩ := mem_readings_iff.mp ((hleaf q x hx).mp hq).mem
    obtain ⟨k, ks, hks⟩ := path_widgetsOf _ _ _ hw
    change q = _ at hks
    rw [hks]
    rfl
  | addon schema frag =>
    obtain ⟨obj, hbuild, -, hleaf⟩ := exists_build_readings h
    refine ⟨obj, hbuild, fun q x hx => ?_⟩
    rw [or_iff_right fun hu => not_untouched (by simp) hu.1]
    exact hleaf q x hx
  | item i =>
    have hr : ¬ i.refused = true := fun hr => hrefused ⟨i, rfl, hr⟩
    refine ⟨_, if_neg hr, fun q x hx => ?_⟩
    cases q with
    | nil =>
      refine iff_of_false (fun heq => hx (Option.some.inj heq ▸ trivial)) ?_
      rintro (⟨-, heq⟩ | hread)
      · exact hx (Option.some.inj heq ▸ trivial)
      · exact (readings_shape hread.mem).1 rfl
    | cons k ks =>
      refine (at?_item_iff hx).trans (or_congr (and_congr_left fun _ => ?_) Iff.rfl)
      constructor
      · exact fun hk => ⟨i, rfl, fun k' hk' => Option.some.inj hk' ▸ hk⟩
      · rintro ⟨i', hi', hk⟩
        obtain rfl := Block.item.inj hi'
        exact hk k rfl

end After

/-! ## Exactly when nothing is changed -/

section Exact

variable {N : Numbers ν} {property : JsValue ν → Text → Option (JsValue ν)} {common : List (Text × JsValue ν)}
  {b : Block ν} {v x after : JsValue ν} {p q : List Text}

/-- A value that is there comes back exactly when it is one its widget gives back. -/
theorem reads_heldBy_iff {f : Field ν} (h : IsLeaf b.root p v) :
    f.reads N (b.heldBy N property common (p, f)) = some v ↔ f.Faithful N v := by
  have hne : v ≠ null := by
    rintro rfl
    exact h.2.2 trivial
  rw [Block.heldBy, getPath_of_at? h.1]
  exact Field.reads_held_iff hne

/-- A value that is there stays. -/
theorem kept_iff (hafter : ∀ q x, ¬ IsMapping x → (after.at? q = some x ↔
      (Untouched N b q ∧ b.root.at? q = some x) ∨ Last (b.readings N property common) (q, x)))
    (h : IsLeaf b.root p v) : after.at? p = some v ↔
      Untouched N b p ∨ ∃ f, Prevails N property common b (p, f) ∧ f.Faithful N v := by
  rw [hafter p v h.2.1, and_iff_left h.1, last_readings_iff]
  exact or_congr Iff.rfl (exists_congr fun f => and_congr_right fun _ => reads_heldBy_iff h)

theorem keeps_iff (hafter : ∀ q x, ¬ IsMapping x → (after.at? q = some x ↔
      (Untouched N b q ∧ b.root.at? q = some x) ∨ Last (b.readings N property common) (q, x))) :
    Keeps N b after ↔ Stays N property common b := by
  constructor
  · intro h
    refine ⟨fun p v hleaf => (kept_iff hafter hleaf).mp (h.kept p v hleaf), fun w hw hnone v hread => ?_⟩
    obtain ⟨p, f⟩ := w
    obtain ⟨hmap, hblank⟩ := reads_shape hread
    have hthere : after.at? p = some v := (hafter p v hmap).mpr (Or.inr (last_readings_iff.mpr ⟨f, hw, hread⟩))
    exact h.added p v ⟨hthere, hmap, hblank⟩ hnone
  · intro h
    refine ⟨fun p v hleaf => (kept_iff hafter hleaf).mpr (h.comesBack p v hleaf), fun p v hleaf hnone => ?_⟩
    rcases (hafter p v hleaf.2.1).mp hleaf.1 with ⟨-, hold⟩ | hlast
    · exact absurd ⟨hold, hleaf.2⟩ (hnone v)
    · obtain ⟨f, hf, hread⟩ := last_readings_iff.mp hlast
      exact h.presets (p, f) hf hnone v hread

/-- An instance whose name is turned down is left alone. -/
theorem unchanged_of_refused (h : Refused b) : Unchanged N property common b := by
  intro after hafter
  obtain ⟨i, rfl, hi⟩ := h
  rw [Block.applied, if_pos hi] at hafter
  obtain rfl := Option.some.inj hafter
  exact ⟨fun p v hleaf => hleaf.1, fun p v hleaf hnone => absurd hleaf (hnone v)⟩

/-- Nothing is written when setting a value raises. -/
theorem applied_of_raises (h : Raises N property common b) : b.applied N property common = none := by
  cases b with
  | common fields cfg => rw [Block.applied, build_readings_eq_none h, Option.map_none]
  | addon schema frag => exact build_readings_eq_none h
  | item i => exact absurd h not_raises_item

/-- A lab that has no numbers. -/
def noNumbers : Numbers Empty where
  shown := Empty.elim
  parse := fun _ => none
  valid := fun _ => false
  isZero := Empty.elim
  trim_shown := fun n => n.elim
  shown_ne := fun n => n.elim
  valid_shown := fun n => n.elim
  parse_shown := fun n => n.elim
  parse_valid := fun _ h => absurd h Bool.false_ne_true

/-- The common settings of a lab that names its image under the old key, which the schema hides. -/
def oldImage : Block Empty :=
  .common (list [mapping [("name".toList, text "ISO_IMAGE".toList), ("type".toList, text "string".toList),
    ("hidden".toList, .bool true)]]) [("ISO_IMAGE".toList, text "SL-Micro.qcow2".toList)]

end Exact

end LabInABox.Web.Editor
