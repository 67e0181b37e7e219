import LabInABox.Keyed
import LabInABox.Text.Order

/-!
# The snapshots of a schema

Model of the snapshots of `libs/schema_versions.py`, the fields of one version of a schema with the
properties that decide compatibility, and of `breaking_changes` and `other_changes`, which compare two.

* An entry of an `enum` is its value, or the value with a label. The default is a JSON value, by its
  `repr`; the `repr` of a text is a parameter.
* `breaking_changes` may end with the `TypeError` of joining labelled values.

Results:
* `breakingChanges_eq_nil_iff`: when two snapshots show no breaking change.
-/

namespace LabInABox.Schema

open Text

/-- An entry of an `enum`. -/
inductive EnumEntry
  | plain (value : Text)
  | labelled (value label : Text)
  deriving DecidableEq

/-- The value an entry declares. -/
def EnumEntry.value : EnumEntry → Text
  | plain value => value
  | labelled value _ => value

/-- A field of a schema, with the properties of `FIELD_KEYS` it sets. -/
structure SchemaField where
  name : Text
  type : Option Text
  required : Option Bool
  default : Option Text
  enum : Option (List EnumEntry)
  pattern : Option Text
  min : Option Int
  max : Option Int
  deriving DecidableEq

/-- `props.get("required")`, as a condition. -/
def SchemaField.isRequired (f : SchemaField) : Bool := f.required.getD false

/-- `props.get("enum") or []`. -/
def SchemaField.enumEntries (f : SchemaField) : List EnumEntry := f.enum.getD []

/-- A snapshot: the declared version, and the fields by their names. -/
structure Snapshot where
  version : Text
  fields : List SchemaField
  nodup : (fields.map SchemaField.name).Nodup

/-- `fields.get(name)`. -/
def Snapshot.get (s : Snapshot) (name : Text) : Option SchemaField := s.fields.find? fun f => f.name = name

/-- `sorted(fields.items())`. -/
def Snapshot.sorted (s : Snapshot) : List SchemaField :=
  s.fields.insertionSort fun f g => f.name ≤ g.name

/-- Why the release check ends, or stops at an entry. -/
inductive CheckError
  | value (message : Text)
  | type
  deriving DecidableEq

/-- An entry, as an item of `", ".join(..)`. -/
def EnumEntry.item : EnumEntry → Except CheckError Text
  | plain value => .ok value
  | labelled _ _ => .error .type

/-- `", ".join(dropped)`. -/
def joinEntries (es : List EnumEntry) : Except CheckError Text :=
  (es.mapM EnumEntry.item).map fun values => ", ".toList.intercalate values

/-- `str(..)` of a text that may be missing. -/
def showNone (t : Option Text) : Text := t.getD "None".toList

/-- The breaking changes of one field, whose new form is `now`. -/
def fieldBreaks (props : SchemaField) (now : Option SchemaField) : Except CheckError (List Text) :=
  match now with
  | none => .ok [props.name ++ " removed".toList]
  | some now =>
    let types := if props.type ≠ now.type then
      [props.name ++ " type ".toList ++ showNone props.type ++ " -> ".toList ++ showNone now.type]
      else []
    let required := if now.isRequired = true ∧ props.isRequired = false then
      [props.name ++ " became required".toList] else []
    let dropped := props.enumEntries.filter fun v => now.enumEntries ≠ [] ∧ v ∉ now.enumEntries
    if dropped = [] then .ok (types ++ required)
    else (joinEntries dropped).map fun values =>
      types ++ required ++ [props.name ++ " no longer accepts ".toList ++ values]

/-- `breaking_changes(old, new)`. -/
def breakingChanges (old new : Snapshot) : Except CheckError (List Text) :=
  (old.sorted.mapM fun f => fieldBreaks f (new.get f.name)).map fun rows =>
    rows.flatten ++ ((new.sorted.filter fun f => (old.get f.name).isNone ∧ f.isRequired = true).map
      fun f => f.name ++ " added as required".toList)

/-- `"{} {} {!r} -> {!r}"` of one property, if it changed. -/
def propertyChange {α : Type*} [DecidableEq α] (shown : α → Text) (name key : Text) (a b : Option α) :
    List Text :=
  if a ≠ b then
    [name ++ ' ' :: key ++ ' ' :: showNone (a.map shown) ++ " -> ".toList ++ showNone (b.map shown)]
  else []

/-- The changes of one field that are not breaking; a field that is gone has none. -/
def fieldChanges (repr : Text → Text) (props : SchemaField) (now : Option SchemaField) :
    Except CheckError (List Text) :=
  match now with
  | none => .ok []
  | some now =>
    let int := fun n : Int => (toString n).toList
    let changed := propertyChange id props.name "default".toList props.default now.default ++
      propertyChange repr props.name "pattern".toList props.pattern now.pattern ++
      propertyChange int props.name "min".toList props.min now.min ++
      propertyChange int props.name "max".toList props.max now.max
    let added := now.enumEntries.filter fun v => v ∉ props.enumEntries
    let optional := if props.isRequired = true ∧ now.isRequired = false then
      [props.name ++ " became optional".toList] else []
    if added = [] ∨ props.enumEntries = [] then .ok (changed ++ optional)
    else (joinEntries added).map fun values =>
      changed ++ [props.name ++ " also accepts ".toList ++ values] ++ optional

/-- `other_changes(old, new)`. -/
def otherChanges (repr : Text → Text) (old new : Snapshot) : Except CheckError (List Text) :=
  (old.sorted.mapM fun f => fieldChanges repr f (new.get f.name)).map fun rows =>
    ((new.sorted.filter fun f => (old.get f.name).isNone ∧ f.isRequired = false).map
      fun f => f.name ++ " added".toList) ++ rows.flatten

/-! ## No breaking change -/

variable {old new : Snapshot}

theorem Snapshot.get_eq_some {s : Snapshot} {name : Text} {f : SchemaField} :
    s.get name = some f ↔ f ∈ s.fields ∧ f.name = name := by
  unfold Snapshot.get
  constructor
  · intro h
    have hn := List.find?_some h
    exact ⟨List.mem_of_find?_eq_some h, of_decide_eq_true hn⟩
  · rintro ⟨hf, rfl⟩
    cases hg : s.fields.find? fun g => g.name = f.name with
    | none => exact absurd (List.find?_eq_none.mp hg f hf) (by simp)
    | some g =>
      have hn := List.find?_some hg
      rw [List.inj_on_of_nodup_map s.nodup (List.mem_of_find?_eq_some hg) hf (of_decide_eq_true hn)]

theorem Snapshot.mem_sorted {s : Snapshot} {f : SchemaField} : f ∈ s.sorted ↔ f ∈ s.fields :=
  List.mem_insertionSort _

/-- A field that changes without breaking: the same type, not newly required, no value dropped from an
`enum` that is still there. -/
structure Keeps (props now : SchemaField) : Prop where
  type : props.type = now.type
  required : now.isRequired = true → props.isRequired = true
  enum : now.enumEntries ≠ [] → ∀ v ∈ props.enumEntries, v ∈ now.enumEntries

theorem joinEntries_ne_nil {es : List EnumEntry} {f : Text → List Text} (hf : ∀ t, f t ≠ []) :
    (joinEntries es).map f ≠ .ok [] := by
  intro h
  obtain ⟨t, _, ht⟩ := map_eq_ok.mp h
  exact hf t ht

theorem fieldBreaks_eq_nil_iff {props : SchemaField} {now : Option SchemaField} :
    fieldBreaks props now = .ok [] ↔ ∃ g, now = some g ∧ Keeps props g := by
  cases now with
  | none => exact ⟨fun h => absurd (Except.ok.inj h) (List.cons_ne_nil _ _), fun ⟨_, h, _⟩ => absurd h nofun⟩
  | some g =>
    unfold fieldBreaks
    have hdrop : (props.enumEntries.filter fun v => g.enumEntries ≠ [] ∧ v ∉ g.enumEntries) = [] ↔
        (g.enumEntries ≠ [] → ∀ v ∈ props.enumEntries, v ∈ g.enumEntries) := by
      rw [List.filter_eq_nil_iff]
      simp only [decide_eq_true_eq, not_and, not_not]
      exact ⟨fun h hg v hv => h v hv hg, fun h v hv hg => h hg v hv⟩
    simp only [Option.some.injEq, exists_eq_left']
    by_cases hd : (props.enumEntries.filter fun v => g.enumEntries ≠ [] ∧ v ∉ g.enumEntries) = []
    · rw [if_pos hd, Except.ok.injEq, List.append_eq_nil_iff]
      constructor
      · rintro ⟨ht, hr⟩
        refine ⟨?_, fun hg => ?_, hdrop.mp hd⟩
        · by_contra hne
          rw [if_pos hne] at ht
          exact absurd ht (List.cons_ne_nil _ _)
        · by_contra hp
          rw [if_pos ⟨hg, Bool.eq_false_iff.mpr hp⟩] at hr
          exact absurd hr (List.cons_ne_nil _ _)
      · rintro ⟨ht, hr, _⟩
        refine ⟨if_neg (not_not_intro ht), if_neg fun h => ?_⟩
        rw [hr h.1] at h
        exact absurd h.2 nofun
    · rw [if_neg hd]
      refine ⟨fun h => absurd h (joinEntries_ne_nil fun t => ?_), fun h => absurd (hdrop.mpr h.enum) hd⟩
      exact List.append_ne_nil_of_right_ne_nil _ (List.cons_ne_nil _ _)

/-- **No breaking change**: every field is still there and keeps what it was, and no required one is
new. -/
theorem breakingChanges_eq_nil_iff : breakingChanges old new = .ok [] ↔
    (∀ f ∈ old.fields, ∃ g ∈ new.fields, g.name = f.name ∧ Keeps f g) ∧
      ∀ g ∈ new.fields, g.isRequired = true → ∃ f ∈ old.fields, f.name = g.name := by
  have hadded : ((new.sorted.filter fun f => (old.get f.name).isNone ∧ f.isRequired = true).map
      fun f => f.name ++ " added as required".toList) = [] ↔
        ∀ g ∈ new.fields, g.isRequired = true → ∃ f ∈ old.fields, f.name = g.name := by
    rw [List.map_eq_nil_iff, List.filter_eq_nil_iff]
    refine forall_congr' fun g => imp_congr Snapshot.mem_sorted ?_
    rw [decide_eq_true_eq, not_and']
    refine imp_congr_right fun _ => ?_
    rw [Option.isNone_iff_eq_none]
    exact Option.ne_none_iff_exists'.trans (exists_congr fun f => Snapshot.get_eq_some)
  have hrows : ∀ {rows}, (old.sorted.mapM fun f => fieldBreaks f (new.get f.name)) = .ok rows →
      (rows.flatten = [] ↔ ∀ f ∈ old.fields, fieldBreaks f (new.get f.name) = .ok []) := by
    intro rows hm
    rw [List.flatten_eq_nil_iff]
    constructor
    · intro h f hf
      obtain ⟨row, hrow⟩ := mapM_isOk_iff.mp ⟨rows, hm⟩ f (Snapshot.mem_sorted.mpr hf)
      rw [hrow, h row ((mem_of_mapM_eq_ok hm).mpr ⟨f, Snapshot.mem_sorted.mpr hf, hrow⟩)]
    · intro h row hrow
      obtain ⟨f, hf, he⟩ := (mem_of_mapM_eq_ok hm).mp hrow
      rw [h f (Snapshot.mem_sorted.mp hf)] at he
      exact (Except.ok.inj he).symm
  have hkeep : ∀ f, fieldBreaks f (new.get f.name) = .ok [] ↔
      ∃ g ∈ new.fields, g.name = f.name ∧ Keeps f g := by
    intro f
    rw [fieldBreaks_eq_nil_iff]
    simp only [Snapshot.get_eq_some, and_assoc]
  unfold breakingChanges
  rw [map_eq_ok, ← hadded]
  simp only [List.append_eq_nil_iff]
  constructor
  · rintro ⟨rows, hm, hr, ha⟩
    exact ⟨fun f hf => (hkeep f).mp ((hrows hm).mp hr f hf), ha⟩
  · rintro ⟨hk, ha⟩
    have hbreaks := fun f hf => (hkeep f).mpr (hk f hf)
    obtain ⟨rows, hm⟩ := mapM_isOk_iff.mpr fun f hf => ⟨[], hbreaks f (Snapshot.mem_sorted.mp hf)⟩
    exact ⟨rows, hm, (hrows hm).mpr hbreaks, ha⟩

end LabInABox.Schema
