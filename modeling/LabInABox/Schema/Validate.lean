import LabInABox.Schema.Snapshot
import LabInABox.Schema.Version

/-!
# Validating values against a schema

Model of `libs/schema_validate.py`: what is found of a value against the field that declares it, and of
the values of a section against the fields of its schema.

* A value is what JSON gives. The items of a list and of a mapping are kept as `str` shows them, for
  nothing else is read of them but that there are some; so is a float, whose text is neither blank nor a
  placeholder.
* `re.match` is a parameter.

Results:
* `rejects_number_iff`, `rejects_text_iff`: when a value is an error, by the kind of its field.
* `not_rejects_placeholder`: a placeholder satisfies every field.
-/

namespace LabInABox.Schema

open Text

/-! ## Values -/

/-- The text is not blank, and not a placeholder. -/
def Checked (t : Text) : Prop := strip t ≠ [] ∧ ¬ "??".toList <+: strip t

/-- A value of a lab definition. -/
inductive Json
  | null
  | bool (b : Bool)
  | int (n : Int)
  | real (shown : {t : Text // Checked t})
  | text (t : Text)
  | list (items : Text)
  | mapping (items : Text)

/-- The decimal digits of an integer. -/
def intText (n : Int) : Text :=
  if n < 0 then '-' :: Nat.toDigits 10 n.natAbs else Nat.toDigits 10 n.natAbs

/-- `str(value)`. -/
def Json.str : Json → Text
  | null => "None".toList
  | bool true => "True".toList
  | bool false => "False".toList
  | int n => intText n
  | real shown => shown
  | text t => t
  | list items => '[' :: items ++ [']']
  | mapping items => '\x7b' :: items ++ ['\x7d']

/-- `_absent(value)`. -/
def isAbsent : Json → Bool
  | .null => true
  | .text t => strip t = []
  | .list items => items = []
  | .mapping items => items = []
  | _ => false

/-- `is_placeholder(value)`. -/
def isPlaceholder : Json → Bool
  | .text t => "??".toList.isPrefixOf (strip t)
  | _ => false

/-- `isinstance(value, (list, tuple))`. -/
def isList : Json → Bool
  | .list _ => true
  | _ => false

/-- `isinstance(value, dict)`. -/
def isMapping : Json → Bool
  | .mapping _ => true
  | _ => false

/-- `_as_int(value)`. -/
def asInt : Json → Option Int
  | .int n => some n
  | .text t => parseInt (strip t)
  | _ => none

/-! ## Findings -/

/-- How bad a finding is. -/
inductive Severity
  | error
  | warning
  deriving DecidableEq

/-- `Finding`. -/
structure Finding where
  severity : Severity
  place : Text
  message : Text
  deriving DecidableEq

section Findings

variable (reMatch : Text → Text → Bool) (f : SchemaField) (v : Json) (place : Text)

/-- `field.get("type") or "string"`. -/
def SchemaField.kind : Text := if f.type.getD [] = [] then "string".toList else f.type.getD []

/-- `kind in ("integer", "port")`. -/
def SchemaField.IsNumber : Prop := f.kind = "integer".toList ∨ f.kind = "port".toList

instance SchemaField.isNumberDecidable : Decidable f.IsNumber :=
  inferInstanceAs (Decidable (_ ∨ _))

/-- `enum_values(field)`. -/
def SchemaField.enumValues : List Text := f.enumEntries.map EnumEntry.value

/-- `"'{}' .."`, an error about a value. -/
def valueError (message : Text) : Finding :=
  ⟨.error, place, '\'' :: v.str ++ "' ".toList ++ message⟩

/-- `_enum_finding(field, value, where)`. -/
def enumFinding : Option Finding :=
  if f.enumValues = [] ∨ v.str ∈ f.enumValues then none
  else some (valueError v place
    ("is not one of ".toList ++ ", ".toList.intercalate (f.enumValues.filter fun t => t ≠ [])))

/-- The lower bound of a number; a port has one of its own. -/
def SchemaField.low : Option Int := f.min.or (if f.kind = "port".toList then some 1 else none)

/-- The upper bound of a number. -/
def SchemaField.high : Option Int := f.max.or (if f.kind = "port".toList then some 65535 else none)

/-- `_number_finding(field, value, where, kind)`. -/
def numberFinding : Option Finding :=
  match asInt v with
  | none => some (valueError v place ("is not ".toList ++
      if f.kind = "integer".toList then "a whole number".toList else "a port number".toList))
  | some n =>
    if ∃ low ∈ f.low, n < low then
      some ⟨.error, place, intText n ++ " is below the minimum ".toList ++ (f.low.elim [] intText)⟩
    else if ∃ high ∈ f.high, high < n then
      some ⟨.error, place, intText n ++ " is above the maximum ".toList ++ (f.high.elim [] intText)⟩
    else none

/-- `_boolean_finding(field, value, where)`. -/
def booleanFinding : Option Finding :=
  match v with
  | .bool _ => none
  | _ =>
    let text := lower (strip v.str)
    if text ∈ ["1".toList, "true".toList, "yes".toList] then
      some ⟨.warning, place, '\'' :: v.str ++
        "' is a quoted boolean; write it unquoted as true".toList⟩
    else if text ∈ ["0".toList, "false".toList, "no".toList] then
      some ⟨.warning, place, '\'' :: v.str ++ ("' is a quoted boolean and some fields read any " ++
        "non-empty value as true; write it unquoted as false, or leave it out").toList⟩
    else some (valueError v place "is not a boolean (true or false)".toList)

/-- The finding of a value that is not of a container's type. -/
def containerFinding (isContainer : Bool) (message : Text) : Option Finding :=
  if isContainer = true then none else some (valueError v place message)

/-- The finding of a value against the declarations of a text field. -/
def textFinding : Option Finding :=
  (enumFinding f v place).or
    (match f.pattern with
    | none => none
    | some pattern =>
      if pattern = [] ∨ reMatch pattern v.str = true then none
      else some (valueError v place
        ("does not match the form this field takes (".toList ++ pattern ++ [')'])))

/-- `value_finding(field, value, where)`. -/
def valueFinding : Option Finding :=
  let place := if place = [] then f.name else place
  if isAbsent v = true ∨ isPlaceholder v = true then none
  else if f.IsNumber then numberFinding f v place
  else if f.kind = "boolean".toList then booleanFinding v place
  else if f.kind = "array".toList then
    containerFinding v place (isList v) "is not a list".toList
  else if f.kind = "object".toList then
    containerFinding v place (isMapping v) "is not a mapping of name to value".toList
  else textFinding reMatch f v place

/-- `section_findings(fields, cfg, where, skip)`. -/
def sectionFindings (fields : List SchemaField) (cfg : Text → Option Json) (skip : List Text) :
    List Finding :=
  fields.filterMap fun f =>
    if f.name ∈ skip then none
    else (cfg f.name).bind fun v =>
      valueFinding reMatch f v (if place = [] then f.name else place ++ '.' :: f.name)

end Findings

/-! ## What is refused -/

section Refusal

variable (reMatch : Text → Text → Bool) (f : SchemaField)

/-- The value has a finding that is an error. -/
def Rejects (v : Json) (place : Text) : Prop :=
  ∃ x, valueFinding reMatch f v place = some x ∧ x.severity = .error

/-- The number is within the bounds. -/
def InRange (n : Int) : Prop := (∀ low ∈ f.low, low ≤ n) ∧ ∀ high ∈ f.high, n ≤ high

/-- The pattern of the field takes the text. -/
def PatternTakes (t : Text) : Prop := ∀ pattern ∈ f.pattern, pattern = [] ∨ reMatch pattern t = true

/-- The values and the pattern the field declares take the text. -/
def Declares (t : Text) : Prop :=
  (f.enumValues = [] ∨ t ∈ f.enumValues) ∧ PatternTakes reMatch f t

/-- The kind of the field says of a value what it is. -/
def SchemaField.IsText : Prop :=
  ¬ f.IsNumber ∧ f.kind ≠ "boolean".toList ∧ f.kind ≠ "array".toList ∧ f.kind ≠ "object".toList

instance SchemaField.isTextDecidable : Decidable f.IsText :=
  inferInstanceAs (Decidable (¬ _ ∧ _ ∧ _ ∧ _))

/-- The value is a boolean, or spells one. -/
def SpellsBoolean : Json → Prop
  | .bool _ => True
  | v => lower (strip v.str) ∈ ["1".toList, "true".toList, "yes".toList] ++
      ["0".toList, "false".toList, "no".toList]

/-- The value is checked at all. -/
def IsChecked (v : Json) : Prop := isAbsent v = false ∧ isPlaceholder v = false

variable {reMatch f} {v : Json} {place : Text}

theorem not_isChecked_iff : ¬ IsChecked v ↔ isAbsent v = true ∨ isPlaceholder v = true := by
  unfold IsChecked
  rw [not_and_or, Bool.not_eq_false, Bool.not_eq_false]

theorem not_rejects_of_not_isChecked (h : ¬ IsChecked v) : ¬ Rejects reMatch f v place := by
  rintro ⟨x, hx, _⟩
  unfold valueFinding at hx
  rw [if_pos (not_isChecked_iff.mp h)] at hx
  exact absurd hx nofun

/-- **A number** is refused when the value is none, or is out of the bounds. -/
theorem rejects_number_iff (hv : IsChecked v) (hk : f.IsNumber) :
    Rejects reMatch f v place ↔ ∀ n, asInt v = some n → ¬ InRange f n := by
  unfold Rejects valueFinding
  rw [if_neg (mt not_isChecked_iff.mpr (not_not_intro hv)), if_pos hk]
  unfold numberFinding
  cases asInt v with
  | none => exact ⟨fun _ _ h => absurd h nofun, fun _ => ⟨_, rfl, rfl⟩⟩
  | some n =>
    simp only [Option.some.injEq, forall_eq']
    unfold InRange
    by_cases hl : ∃ low ∈ f.low, n < low
    · rw [if_pos hl]
      obtain ⟨low, hm, hlt⟩ := hl
      exact ⟨fun _ h => absurd (h.1 low hm) (not_le.mpr hlt), fun _ => ⟨_, rfl, rfl⟩⟩
    · rw [if_neg hl]
      by_cases hh : ∃ high ∈ f.high, high < n
      · rw [if_pos hh]
        obtain ⟨high, hm, hlt⟩ := hh
        exact ⟨fun _ h => absurd (h.2 high hm) (not_le.mpr hlt), fun _ => ⟨_, rfl, rfl⟩⟩
      · rw [if_neg hh]
        refine ⟨fun ⟨_, h, _⟩ => absurd h nofun, fun h => absurd ⟨fun low hm => ?_, fun high hm => ?_⟩ h⟩
        · exact not_lt.mp fun hlt => hl ⟨low, hm, hlt⟩
        · exact not_lt.mp fun hlt => hh ⟨high, hm, hlt⟩

/-- **A text** is refused when the values or the pattern of its field leave it out. -/
theorem rejects_text_iff (hv : IsChecked v) (hk : f.IsText) :
    Rejects reMatch f v place ↔ ¬ Declares reMatch f v.str := by
  unfold Rejects valueFinding
  rw [if_neg (mt not_isChecked_iff.mpr (not_not_intro hv)), if_neg hk.1, if_neg hk.2.1,
    if_neg hk.2.2.1, if_neg hk.2.2.2]
  unfold textFinding enumFinding Declares PatternTakes
  by_cases he : f.enumValues = [] ∨ v.str ∈ f.enumValues
  swap
  · rw [if_neg he]
    exact ⟨fun _ h => he h.1, fun _ => ⟨_, rfl, rfl⟩⟩
  rw [if_pos he, Option.none_or]
  cases f.pattern with
  | none => exact ⟨fun ⟨_, h, _⟩ => absurd h nofun, fun h => absurd ⟨he, fun _ hp => absurd hp nofun⟩ h⟩
  | some pattern =>
    simp only [Option.mem_some_iff, forall_eq']
    by_cases hp : pattern = [] ∨ reMatch pattern v.str = true
    · rw [if_pos hp]
      exact ⟨fun ⟨_, h, _⟩ => absurd h nofun, fun h => absurd ⟨he, hp⟩ h⟩
    · rw [if_neg hp]
      exact ⟨fun _ h => hp h.2, fun _ => ⟨_, rfl, rfl⟩⟩

theorem booleanFinding_error_iff : (∃ x, booleanFinding v place = some x ∧ x.severity = .error) ↔
    ¬ SpellsBoolean v := by
  unfold booleanFinding SpellsBoolean
  cases v with
  | bool b => exact ⟨fun ⟨_, h, _⟩ => absurd h nofun, fun h => absurd trivial h⟩
  | _ =>
    dsimp only
    split
    · rename_i h
      refine ⟨fun ⟨_, hx, hs⟩ => ?_, fun hn => absurd (List.mem_append_left _ h) hn⟩
      rw [← Option.some.inj hx] at hs
      exact absurd hs nofun
    · rename_i ht
      split
      · rename_i h
        refine ⟨fun ⟨_, hx, hs⟩ => ?_, fun hn => absurd (List.mem_append_right _ h) hn⟩
        rw [← Option.some.inj hx] at hs
        exact absurd hs nofun
      · rename_i hf
        refine ⟨fun _ h => ?_, fun _ => ⟨_, rfl, rfl⟩⟩
        exact (List.mem_append.mp h).elim ht hf

theorem containerFinding_error_iff {isContainer : Bool} {message : Text} :
    (∃ x, containerFinding v place isContainer message = some x ∧ x.severity = .error) ↔
      isContainer = false := by
  unfold containerFinding
  cases isContainer with
  | true => exact ⟨fun ⟨_, h, _⟩ => absurd h nofun, nofun⟩
  | false => exact ⟨fun _ => rfl, fun _ => ⟨_, rfl, rfl⟩⟩

/-- Of a kind that is neither a number nor a text, what is refused depends on the kind only. -/
theorem rejects_congr {g : SchemaField} (hn : ¬ f.IsNumber) (ht : ¬ f.IsText) (h : f.kind = g.kind) :
    Rejects reMatch f v place ↔ Rejects reMatch g v place := by
  by_cases hv : IsChecked v
  swap
  · exact iff_of_false (not_rejects_of_not_isChecked hv) (not_rejects_of_not_isChecked hv)
  have hng : ¬ g.IsNumber := by
    unfold SchemaField.IsNumber at hn ⊢
    rwa [← h]
  unfold Rejects valueFinding
  rw [if_neg (mt not_isChecked_iff.mpr (not_not_intro hv)),
    if_neg (mt not_isChecked_iff.mpr (not_not_intro hv)), if_neg hn, if_neg hng, ← h]
  by_cases hb : f.kind = "boolean".toList
  · rw [if_pos hb, if_pos hb, booleanFinding_error_iff, booleanFinding_error_iff]
  rw [if_neg hb, if_neg hb]
  by_cases ha : f.kind = "array".toList
  · rw [if_pos ha, if_pos ha, containerFinding_error_iff, containerFinding_error_iff]
  rw [if_neg ha, if_neg ha]
  by_cases ho : f.kind = "object".toList
  · rw [if_pos ho, if_pos ho, containerFinding_error_iff, containerFinding_error_iff]
  · exact absurd ⟨hn, hb, ha, ho⟩ ht

end Refusal

end LabInABox.Schema
