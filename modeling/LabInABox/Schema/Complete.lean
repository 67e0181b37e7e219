import LabInABox.Schema.Snapshot

/-!
# Which changes of a schema are reported

What `breaking_changes` and `other_changes` (`libs/schema_versions.py`) leave out between them: the
second is documented as the changes the first does not report, and `schema_versions.py diff` prints
the two lists as all that changed.

* A change of a field is reported by a line of that field's own, which names the field and then the
  property; the lines of two fields are never mixed up, whatever the fields are called.
* A default is compared by its `repr`: one that turns into an equal value of another type (`0` and
  `False`) is left out of the model.

Results:
* `mem_row_iff`: the properties a field's lines report.
* `complete_iff`: exactly when every change is reported.
* `new_enum_not_reported`: a field that gains an `enum` is reported by neither.
-/

namespace LabInABox.Schema

open Text

/-! ## What there is to report -/

/-- The properties of `FIELD_KEYS`. -/
inductive Property
  | type
  | required
  | default
  | enum
  | pattern
  | min
  | max
  deriving DecidableEq

/-- The two forms of a field differ in a property. -/
def Property.Differs (f g : SchemaField) : Property → Prop
  | type => f.type ≠ g.type
  | required => f.required ≠ g.required
  | default => f.default ≠ g.default
  | enum => f.enum ≠ g.enum
  | pattern => f.pattern ≠ g.pattern
  | min => f.min ≠ g.min
  | max => f.max ≠ g.max

/-- What a line on a property says after the field's name. -/
def Property.words : Property → List Text
  | type => ["type ".toList]
  | required => ["became required".toList, "became optional".toList]
  | default => ["default ".toList]
  | enum => ["no longer accepts ".toList, "also accepts ".toList]
  | pattern => ["pattern ".toList]
  | min => ["min ".toList]
  | max => ["max ".toList]

/-- The line names the field and the property. -/
def Property.Reports (name : Text) (p : Property) (m : Text) : Prop :=
  ∃ w ∈ p.words, name ++ ' ' :: w <+: m

/-- The two snapshots declare the same fields, with the same properties. -/
def SameFields (old new : Snapshot) : Prop := ∀ f, f ∈ old.fields ↔ f ∈ new.fields

/-- **The report is complete**: both lists are there, they are empty for snapshots with the same fields
and no others, a field that is gone or new has its line, and so has each property of a field in which
its two forms differ. -/
def Complete (repr : Text → Text) (old new : Snapshot) : Prop :=
  ∃ breaks others, breakingChanges old new = .ok breaks ∧ otherChanges repr old new = .ok others ∧
    ((breaks = [] ∧ others = []) ↔ SameFields old new) ∧
    (∀ f ∈ old.fields, new.get f.name = none → f.name ++ " removed".toList ∈ breaks ++ others) ∧
    (∀ g ∈ new.fields, old.get g.name = none → g.name ++ " added".toList ∈ breaks ++ others ∨
      g.name ++ " added as required".toList ∈ breaks ++ others) ∧
    ∀ f ∈ old.fields, ∀ g, new.get f.name = some g → ∀ p : Property, p.Differs f g →
      ∃ bs os, fieldBreaks f (some g) = .ok bs ∧ fieldChanges repr f (some g) = .ok os ∧
        ∃ m ∈ bs ++ os, p.Reports f.name m ∧ m ∈ breaks ++ others

/-! ## What is reported -/

/-- What `breaking_changes` and `other_changes` see of a property. -/
def Property.Seen (f g : SchemaField) : Property → Prop
  | required => f.isRequired ≠ g.isRequired
  | enum => f.enumEntries ≠ [] ∧ g.enumEntries ≠ [] ∧
      ((∃ v ∈ f.enumEntries, v ∉ g.enumEntries) ∨ ∃ v ∈ g.enumEntries, v ∉ f.enumEntries)
  | p => p.Differs f g

/-- The values that only one of two `enum`s has carry no label. -/
def Joinable (f g : SchemaField) : Prop :=
  f.enumEntries ≠ [] → g.enumEntries ≠ [] → ∀ v ∈ f.enumEntries ++ g.enumEntries,
    v ∉ f.enumEntries ∨ v ∉ g.enumEntries → ∃ value, v = .plain value

/-- **The changes of a field that are reported**: `required` changes as a condition, an `enum` that
changes is there before and after and gains or loses a value, and such a value carries no label. -/
structure FieldSeen (f g : SchemaField) : Prop where
  required : f.required ≠ g.required → f.isRequired ≠ g.isRequired
  enum : f.enum ≠ g.enum → Property.enum.Seen f g
  plain : Joinable f g

variable {repr : Text → Text} {old new : Snapshot} {f g : SchemaField}

theorem fieldSeen_iff : FieldSeen f g ↔ Joinable f g ∧ ∀ p : Property, p.Differs f g → p.Seen f g := by
  constructor
  · rintro ⟨hr, he, hp⟩
    refine ⟨hp, fun p hd => ?_⟩
    cases p with
    | required => exact hr hd
    | enum => exact he hd
    | _ => exact hd
  · rintro ⟨hp, hs⟩
    exact ⟨hs .required, hs .enum, hp⟩

/-! ### The lines of a field -/

/-- A line on one property never reads as a line on another. -/
theorem Property.words_apart {p q : Property} : ∀ w ∈ p.words, ∀ w' ∈ q.words,
    w <+: w' ∨ w' <+: w → p = q := by
  cases p <;> cases q <;> decide

theorem Property.reports_iff {p q : Property} {name m w rest : Text} (hw : w ∈ q.words)
    (hm : m = name ++ ' ' :: (w ++ rest)) : p.Reports name m ↔ p = q := by
  subst hm
  constructor
  · rintro ⟨w', hw', hpre⟩
    rw [List.prefix_append_right_inj, List.cons_prefix_cons] at hpre
    exact words_apart w' hw' w hw (List.prefix_or_prefix_of_prefix hpre.2 (List.prefix_append w rest))
  · rintro rfl
    exact ⟨w, hw, (List.prefix_append_right_inj _).mpr
      (List.cons_prefix_cons.mpr ⟨rfl, List.prefix_append w rest⟩)⟩

theorem exists_mem_ite {α : Type*} {c : Prop} [Decidable c] {a : α} {P : α → Prop} :
    (∃ m ∈ if c then [a] else [], P m) ↔ c ∧ P a := by
  by_cases hc : c
  · rw [if_pos hc, and_iff_right hc]
    simp only [List.mem_singleton, exists_eq_left]
  · rw [if_neg hc, iff_false_right fun h => hc h.1]
    exact fun ⟨_, hm, _⟩ => List.not_mem_nil hm

theorem exists_mem_append {α : Type*} {l l' : List α} {P : α → Prop} :
    (∃ m ∈ l ++ l', P m) ↔ (∃ m ∈ l, P m) ∨ ∃ m ∈ l', P m := by
  simp only [List.mem_append, or_and_right, exists_or]

theorem filter_ne_nil_iff {es es' : List EnumEntry} :
    es.filter (fun v => v ∉ es') ≠ [] ↔ ∃ v ∈ es, v ∉ es' := by
  rw [Ne, List.filter_eq_nil_iff]
  simp only [decide_eq_true_eq, not_forall, exists_prop, not_not]

theorem joinEntries_isOk_iff {es : List EnumEntry} :
    (∃ values, joinEntries es = .ok values) ↔ ∀ v ∈ es, ∃ value, v = .plain value := by
  have hitem : ∀ v : EnumEntry, (∃ t, v.item = .ok t) ↔ ∃ value, v = .plain value := by
    intro v
    cases v with
    | plain value => exact ⟨fun _ => ⟨value, rfl⟩, fun _ => ⟨value, rfl⟩⟩
    | labelled value label => exact ⟨fun ⟨_, h⟩ => (by cases h), fun ⟨_, h⟩ => (by cases h)⟩
  simp only [← hitem, ← mapM_isOk_iff]
  unfold joinEntries
  constructor
  · rintro ⟨_, h⟩
    obtain ⟨values, hv, _⟩ := map_eq_ok.mp h
    exact ⟨values, hv⟩
  · rintro ⟨values, hv⟩
    exact ⟨_, map_eq_ok.mpr ⟨values, hv, rfl⟩⟩

/-- The values an `enum` lost, as `breaking_changes` collects them. -/
theorem dropped_ne_nil_iff : (f.enumEntries.filter fun v => g.enumEntries ≠ [] ∧ v ∉ g.enumEntries) ≠ [] ↔
    g.enumEntries ≠ [] ∧ ∃ v ∈ f.enumEntries, v ∉ g.enumEntries := by
  rw [Ne, List.filter_eq_nil_iff]
  simp only [decide_eq_true_eq, not_forall, exists_prop, not_not]
  exact ⟨fun ⟨v, hv, hg, hn⟩ => ⟨hg, v, hv, hn⟩, fun ⟨hg, v, hv, hn⟩ => ⟨v, hv, hg, hn⟩⟩

variable {p : Property} {bs os : List Text}

/-- **The properties `breaking_changes` reports of a field.** -/
theorem exists_mem_fieldBreaks (h : fieldBreaks f (some g) = .ok bs) :
    (∃ m ∈ bs, p.Reports f.name m) ↔ (f.type ≠ g.type ∧ p = .type) ∨
      ((g.isRequired = true ∧ f.isRequired = false) ∧ p = .required) ∨
      (g.enumEntries ≠ [] ∧ ∃ v ∈ f.enumEntries, v ∉ g.enumEntries) ∧ p = .enum := by
  have htype : p.Reports f.name
      (f.name ++ " type ".toList ++ showNone f.type ++ " -> ".toList ++ showNone g.type) ↔ p = .type :=
    Property.reports_iff List.mem_cons_self (by simp only [List.append_assoc]; rfl)
  have hreq : p.Reports f.name (f.name ++ " became required".toList) ↔ p = .required :=
    Property.reports_iff List.mem_cons_self (congrArg (f.name ++ ·) (List.append_nil _).symm)
  have henum : ∀ values, p.Reports f.name (f.name ++ " no longer accepts ".toList ++ values) ↔ p = .enum :=
    fun values => Property.reports_iff List.mem_cons_self (by simp only [List.append_assoc]; rfl)
  dsimp only [fieldBreaks] at h
  rw [← dropped_ne_nil_iff]
  by_cases hd : (f.enumEntries.filter fun v => g.enumEntries ≠ [] ∧ v ∉ g.enumEntries) = []
  · rw [if_pos hd, Except.ok.injEq] at h
    rw [← h, exists_mem_append, exists_mem_ite, exists_mem_ite, htype, hreq]
    simp only [ne_eq, hd, not_true, false_and, or_false]
  · rw [if_neg hd] at h
    obtain ⟨values, _, rfl⟩ := map_eq_ok.mp h
    rw [exists_mem_append, exists_mem_append, exists_mem_ite, exists_mem_ite, htype, hreq, or_assoc]
    simp only [List.mem_singleton, exists_eq_left, henum, ne_eq, hd, not_false_eq_true, true_and]

/-- **The properties `other_changes` reports of a field.** -/
theorem exists_mem_fieldChanges (h : fieldChanges repr f (some g) = .ok os) :
    (∃ m ∈ os, p.Reports f.name m) ↔ (f.default ≠ g.default ∧ p = .default) ∨
      (f.pattern ≠ g.pattern ∧ p = .pattern) ∨ (f.min ≠ g.min ∧ p = .min) ∨ (f.max ≠ g.max ∧ p = .max) ∨
      ((f.enumEntries ≠ [] ∧ ∃ v ∈ g.enumEntries, v ∉ f.enumEntries) ∧ p = .enum) ∨
      (f.isRequired = true ∧ g.isRequired = false) ∧ p = .required := by
  have hchange : ∀ {α : Type} [DecidableEq α] (q : Property) (key : Text) (shown : α → Text) (a b : Option α),
      key ++ [' '] ∈ q.words →
      ((∃ m ∈ propertyChange shown f.name key a b, p.Reports f.name m) ↔ a ≠ b ∧ p = q) := by
    intro α _ q key shown a b hw
    unfold propertyChange
    rw [exists_mem_ite, Property.reports_iff hw]
    simp only [List.append_assoc, List.cons_append, List.nil_append]
    rfl
  have hopt : p.Reports f.name (f.name ++ " became optional".toList) ↔ p = .required :=
    Property.reports_iff (List.mem_cons_of_mem _ List.mem_cons_self)
      (congrArg (f.name ++ ·) (List.append_nil _).symm)
  have henum : ∀ values, p.Reports f.name (f.name ++ " also accepts ".toList ++ values) ↔ p = .enum :=
    fun values => Property.reports_iff (List.mem_cons_of_mem _ List.mem_cons_self)
      (by simp only [List.append_assoc]; rfl)
  dsimp only [fieldChanges] at h
  rw [and_comm (a := f.enumEntries ≠ []), ← filter_ne_nil_iff]
  by_cases ha : g.enumEntries.filter (fun v => v ∉ f.enumEntries) = [] ∨ f.enumEntries = []
  · rw [if_pos ha, Except.ok.injEq] at h
    rw [← h]
    simp only [exists_mem_append, exists_mem_ite, hopt]
    rw [hchange .default, hchange .pattern, hchange .min, hchange .max]
    · have hsame : ¬ (g.enumEntries.filter (fun v => v ∉ f.enumEntries) ≠ [] ∧ f.enumEntries ≠ []) :=
        fun h => ha.elim h.1 h.2
      simp only [or_assoc, hsame, false_and, false_or]
    all_goals exact List.mem_cons_self
  · rw [if_neg ha] at h
    obtain ⟨values, _, rfl⟩ := map_eq_ok.mp h
    simp only [exists_mem_append, exists_mem_ite, hopt]
    rw [hchange .default, hchange .pattern, hchange .min, hchange .max]
    · have hgained : g.enumEntries.filter (fun v => v ∉ f.enumEntries) ≠ [] ∧ f.enumEntries ≠ [] :=
        not_or.mp ha
      rw [and_iff_right hgained]
      simp only [or_assoc, List.mem_singleton, exists_eq_left, henum]
    all_goals exact List.mem_cons_self

/-- **The lines of a field report what is seen of it**, property by property. -/
theorem mem_row_iff (hb : fieldBreaks f (some g) = .ok bs) (ho : fieldChanges repr f (some g) = .ok os) :
    (∃ m ∈ bs ++ os, p.Reports f.name m) ↔ p.Seen f g := by
  rw [exists_mem_append, exists_mem_fieldBreaks hb, exists_mem_fieldChanges ho]
  cases p with
  | required =>
    simp only [Property.Seen, reduceCtorEq, and_false, and_true, false_or, or_false]
    cases f.isRequired <;> cases g.isRequired <;> decide
  | enum =>
    simp only [Property.Seen, reduceCtorEq, and_false, and_true, false_or, or_false]
    constructor
    · rintro (⟨hg, v, hv, hn⟩ | ⟨hf, v, hv, hn⟩)
      · exact ⟨List.ne_nil_of_mem hv, hg, Or.inl ⟨v, hv, hn⟩⟩
      · exact ⟨hf, List.ne_nil_of_mem hv, Or.inr ⟨v, hv, hn⟩⟩
    · rintro ⟨hf, hg, h | h⟩
      · exact Or.inl ⟨hg, h⟩
      · exact Or.inr ⟨hf, h⟩
  | _ => simp only [Property.Seen, Property.Differs, reduceCtorEq, and_false, and_true, false_or, or_false]

theorem fieldBreaks_isOk_iff : (∃ bs, fieldBreaks f (some g) = .ok bs) ↔
    (g.enumEntries ≠ [] → ∀ v ∈ f.enumEntries, v ∉ g.enumEntries → ∃ value, v = .plain value) := by
  have hjoin := @joinEntries_isOk_iff (f.enumEntries.filter fun v => g.enumEntries ≠ [] ∧ v ∉ g.enumEntries)
  simp only [List.mem_filter, decide_eq_true_eq, and_imp] at hjoin
  rw [show (g.enumEntries ≠ [] → ∀ v ∈ f.enumEntries, v ∉ g.enumEntries → ∃ value, v = .plain value) ↔ _
    from ⟨fun h v hv hg => h hg v hv, fun h hg v hv => h v hv hg⟩, ← hjoin]
  dsimp only [fieldBreaks]
  split
  · rename_i hd
    exact ⟨fun _ => by rw [hd]; exact ⟨_, rfl⟩, fun _ => ⟨_, rfl⟩⟩
  · exact ⟨fun ⟨_, h⟩ => (map_eq_ok.mp h).imp fun _ h => h.1, fun ⟨values, h⟩ => ⟨_, map_eq_ok.mpr ⟨values, h, rfl⟩⟩⟩

theorem fieldChanges_isOk_iff : (∃ os, fieldChanges repr f (some g) = .ok os) ↔
    (f.enumEntries ≠ [] → ∀ v ∈ g.enumEntries, v ∉ f.enumEntries → ∃ value, v = .plain value) := by
  have hjoin := @joinEntries_isOk_iff (g.enumEntries.filter fun v => v ∉ f.enumEntries)
  simp only [List.mem_filter, decide_eq_true_eq, and_imp] at hjoin
  rw [← hjoin]
  dsimp only [fieldChanges]
  split
  · rename_i hd
    refine ⟨fun _ hf => ?_, fun _ => ⟨_, rfl⟩⟩
    rw [hd.resolve_right hf]
    exact ⟨_, rfl⟩
  · rename_i hd
    constructor
    · rintro ⟨_, h⟩ _
      exact (map_eq_ok.mp h).imp fun _ h => h.1
    · intro h
      obtain ⟨values, hv⟩ := h (not_or.mp hd).2
      exact ⟨_, map_eq_ok.mpr ⟨values, hv, rfl⟩⟩

/-- **Both lists of a field are there** exactly when its values can be joined. -/
theorem row_isOk_iff : ((∃ bs, fieldBreaks f (some g) = .ok bs) ∧
    ∃ os, fieldChanges repr f (some g) = .ok os) ↔ Joinable f g := by
  rw [fieldBreaks_isOk_iff, fieldChanges_isOk_iff]
  constructor
  · rintro ⟨hb, ho⟩ hf hg v hv hn
    by_cases hvf : v ∈ f.enumEntries
    · exact hb hg v hvf (hn.resolve_left (not_not_intro hvf))
    · exact ho hf v ((List.mem_append.mp hv).resolve_left hvf) hvf
  · intro h
    refine ⟨fun hg v hv hn => ?_, fun hf v hv hn => ?_⟩
    · exact h (List.ne_nil_of_mem hv) hg v (List.mem_append_left _ hv) (Or.inr hn)
    · exact h hf (List.ne_nil_of_mem hv) v (List.mem_append_right _ hv) (Or.inl hn)

/-! ### The lists -/

variable {breaks others : List Text} {m : Text}

theorem mem_breakingChanges (h : breakingChanges old new = .ok breaks) :
    m ∈ breaks ↔ (∃ f ∈ old.fields, ∃ bs, fieldBreaks f (new.get f.name) = .ok bs ∧ m ∈ bs) ∨
      ∃ g ∈ new.fields, old.get g.name = none ∧ g.isRequired = true ∧
        m = g.name ++ " added as required".toList := by
  obtain ⟨rows, hrows, rfl⟩ := map_eq_ok.mp h
  simp only [List.mem_append, List.mem_flatten, mem_of_mapM_eq_ok hrows, List.mem_map, List.mem_filter,
    Snapshot.mem_sorted, decide_eq_true_eq, Option.isNone_iff_eq_none]
  refine or_congr ?_ ?_
  · exact ⟨fun ⟨bs, ⟨f, hf, hbs⟩, hm⟩ => ⟨f, hf, bs, hbs, hm⟩, fun ⟨f, hf, bs, hbs, hm⟩ => ⟨bs, ⟨f, hf, hbs⟩, hm⟩⟩
  · simp only [and_assoc, eq_comm]

theorem mem_otherChanges (h : otherChanges repr old new = .ok others) :
    m ∈ others ↔ (∃ f ∈ old.fields, ∃ os, fieldChanges repr f (new.get f.name) = .ok os ∧ m ∈ os) ∨
      ∃ g ∈ new.fields, old.get g.name = none ∧ g.isRequired = false ∧
        m = g.name ++ " added".toList := by
  obtain ⟨rows, hrows, rfl⟩ := map_eq_ok.mp h
  simp only [List.mem_append, List.mem_flatten, mem_of_mapM_eq_ok hrows, List.mem_map, List.mem_filter,
    Snapshot.mem_sorted, decide_eq_true_eq, Option.isNone_iff_eq_none]
  rw [or_comm]
  refine or_congr ?_ ?_
  · exact ⟨fun ⟨os, ⟨f, hf, hos⟩, hm⟩ => ⟨f, hf, os, hos, hm⟩, fun ⟨f, hf, os, hos, hm⟩ => ⟨os, ⟨f, hf, hos⟩, hm⟩⟩
  · simp only [and_assoc, eq_comm]

/-- Both lists are there when, at each field that stays, the lines are. -/
theorem lists_isOk_iff : ((∃ breaks, breakingChanges old new = .ok breaks) ∧
    ∃ others, otherChanges repr old new = .ok others) ↔
      ∀ f ∈ old.fields, ∀ g, new.get f.name = some g → Joinable f g := by
  have hb : (∃ breaks, breakingChanges old new = .ok breaks) ↔
      ∀ f ∈ old.fields, ∃ bs, fieldBreaks f (new.get f.name) = .ok bs := by
    simp only [← Snapshot.mem_sorted, ← mapM_isOk_iff]
    exact ⟨fun ⟨_, h⟩ => (map_eq_ok.mp h).imp fun _ h => h.1,
      fun ⟨rows, h⟩ => ⟨_, map_eq_ok.mpr ⟨rows, h, rfl⟩⟩⟩
  have ho : (∃ others, otherChanges repr old new = .ok others) ↔
      ∀ f ∈ old.fields, ∃ os, fieldChanges repr f (new.get f.name) = .ok os := by
    simp only [← Snapshot.mem_sorted, ← mapM_isOk_iff]
    exact ⟨fun ⟨_, h⟩ => (map_eq_ok.mp h).imp fun _ h => h.1,
      fun ⟨rows, h⟩ => ⟨_, map_eq_ok.mpr ⟨rows, h, rfl⟩⟩⟩
  rw [hb, ho, ← forall₂_and]
  refine forall₂_congr fun f _ => ?_
  cases new.get f.name with
  | none => exact ⟨fun _ _ h => absurd h (Option.some_ne_none _).symm, fun _ => ⟨⟨_, rfl⟩, _, rfl⟩⟩
  | some g => simp only [row_isOk_iff, Option.some.injEq, forall_eq']

theorem eq_of_not_differs (hn : g.name = f.name) (h : ∀ p : Property, ¬ p.Differs f g) : f = g := by
  have htype : f.type = g.type := not_not.mp (h .type)
  have hrequired : f.required = g.required := not_not.mp (h .required)
  have hdefault : f.default = g.default := not_not.mp (h .default)
  have henum : f.enum = g.enum := not_not.mp (h .enum)
  have hpattern : f.pattern = g.pattern := not_not.mp (h .pattern)
  have hmin : f.min = g.min := not_not.mp (h .min)
  have hmax : f.max = g.max := not_not.mp (h .max)
  cases f
  cases g
  simp_all only

theorem fieldChanges_self : fieldChanges repr f (some f) = .ok [] := by
  have hsame : ∀ {α : Type} [DecidableEq α] (shown : α → Text) (key : Text) (a : Option α),
      propertyChange shown f.name key a a = [] := fun shown key a => if_neg (not_not_intro rfl)
  have hadded : f.enumEntries.filter (fun v => v ∉ f.enumEntries) = [] :=
    List.filter_eq_nil_iff.mpr fun v hv => by simpa using hv
  have hopt : ¬ (f.isRequired = true ∧ f.isRequired = false) := fun h =>
    absurd (h.1.symm.trans h.2) (by decide)
  dsimp only [fieldChanges]
  rw [if_pos (Or.inl hadded), if_neg hopt, hsame, hsame, hsame, hsame]
  rfl

theorem SameFields.get_eq (h : SameFields old new) (hf : f ∈ old.fields) : new.get f.name = some f :=
  Snapshot.get_eq_some.mpr ⟨(h f).mp hf, rfl⟩

/-- Snapshots with the same fields have two empty lists. -/
theorem SameFields.lists_eq (h : SameFields old new) :
    breakingChanges old new = .ok [] ∧ otherChanges repr old new = .ok [] := by
  constructor
  · refine breakingChanges_eq_nil_iff.mpr ⟨fun f hf => ?_, fun g hg _ => ⟨g, (h g).mpr hg, rfl⟩⟩
    exact ⟨f, (h f).mp hf, rfl, rfl, id, fun _ _ hv => hv⟩
  · obtain ⟨_, others, hothers⟩ := (@lists_isOk_iff repr old new).mpr fun f hf g hg _ _ v hv hn => by
      obtain rfl := Option.some.inj ((h.get_eq hf).symm.trans hg)
      exact absurd ((List.mem_append.mp hv).elim id id) (hn.elim id id)
    rw [hothers, Except.ok.injEq]
    refine List.eq_nil_iff_forall_not_mem.mpr fun m hm => ?_
    obtain ⟨f, hf, os, hos, hm⟩ | ⟨g, hg, hn, _⟩ := (mem_otherChanges hothers).mp hm
    · rw [h.get_eq hf, fieldChanges_self] at hos
      exact List.not_mem_nil (Except.ok.inj hos ▸ hm)
    · have hsome : old.get g.name = some g := Snapshot.get_eq_some.mpr ⟨(h g).mpr hg, rfl⟩
      exact absurd (hsome.symm.trans hn) (Option.some_ne_none g)

theorem Complete.fieldSeen (h : Complete repr old new) (hf : f ∈ old.fields)
    (hg : new.get f.name = some g) : FieldSeen f g := by
  obtain ⟨breaks, others, hbreaks, hothers, _, _, _, hdiff⟩ := h
  refine fieldSeen_iff.mpr ⟨lists_isOk_iff.mp ⟨⟨_, hbreaks⟩, _, hothers⟩ f hf g hg, fun p hp => ?_⟩
  obtain ⟨bs, os, hb, ho, m, hm, hr, _⟩ := hdiff f hf g hg p hp
  exact (mem_row_iff hb ho).mp ⟨m, hm, hr⟩

/-- **When every change is reported**: exactly when what changes of each field that stays is seen. -/
theorem complete_iff : Complete repr old new ↔
    ∀ f ∈ old.fields, ∀ g, new.get f.name = some g → FieldSeen f g := by
  constructor
  · exact fun h f hf g hg => h.fieldSeen hf hg
  · intro h
    obtain ⟨⟨breaks, hbreaks⟩, others, hothers⟩ :=
      (@lists_isOk_iff repr old new).mpr fun f hf g hg => (h f hf g hg).plain
    have hgone : ∀ f ∈ old.fields, new.get f.name = none →
        f.name ++ " removed".toList ∈ breaks ++ others := fun f hf hg =>
      List.mem_append_left _ ((mem_breakingChanges hbreaks).mpr
        (Or.inl ⟨f, hf, _, by rw [hg]; rfl, List.mem_singleton.mpr rfl⟩))
    have hnew : ∀ g ∈ new.fields, old.get g.name = none → g.name ++ " added".toList ∈ breaks ++ others ∨
        g.name ++ " added as required".toList ∈ breaks ++ others := by
      intro g hg hn
      cases hr : g.isRequired with
      | true => exact Or.inr (List.mem_append_left _
          ((mem_breakingChanges hbreaks).mpr (Or.inr ⟨g, hg, hn, hr, rfl⟩)))
      | false => exact Or.inl (List.mem_append_right _
          ((mem_otherChanges hothers).mpr (Or.inr ⟨g, hg, hn, hr, rfl⟩)))
    have hdiff : ∀ f ∈ old.fields, ∀ g, new.get f.name = some g → ∀ p : Property, p.Differs f g →
        ∃ bs os, fieldBreaks f (some g) = .ok bs ∧ fieldChanges repr f (some g) = .ok os ∧
          ∃ m ∈ bs ++ os, p.Reports f.name m ∧ m ∈ breaks ++ others := by
      intro f hf g hg p hp
      obtain ⟨hjoin, hseen⟩ := fieldSeen_iff.mp (h f hf g hg)
      obtain ⟨⟨bs, hb⟩, os, ho⟩ := row_isOk_iff.mpr hjoin
      obtain ⟨m, hm, hr⟩ := (mem_row_iff hb ho).mpr (hseen p hp)
      refine ⟨bs, os, hb, ho, m, hm, hr, ?_⟩
      rcases List.mem_append.mp hm with hm | hm
      · exact List.mem_append_left _
          ((mem_breakingChanges hbreaks).mpr (Or.inl ⟨f, hf, bs, by rw [hg]; exact hb, hm⟩))
      · exact List.mem_append_right _
          ((mem_otherChanges hothers).mpr (Or.inl ⟨f, hf, os, by rw [hg]; exact ho, hm⟩))
    refine ⟨breaks, others, hbreaks, hothers, ⟨?_, fun hsame => ?_⟩, hgone, hnew, hdiff⟩
    · rintro ⟨rfl, rfl⟩
      have hstay : ∀ f ∈ old.fields, ∀ g, new.get f.name = some g → f = g := by
        intro f hf g hg
        refine eq_of_not_differs (Snapshot.get_eq_some.mp hg).2 fun p hp => ?_
        obtain ⟨_, _, _, _, m, _, _, hm⟩ := hdiff f hf g hg p hp
        exact List.not_mem_nil hm
      refine fun f => ⟨fun hf => ?_, fun hf => ?_⟩
      · cases hg : new.get f.name with
        | none => exact absurd (hgone f hf hg) List.not_mem_nil
        | some g => exact hstay f hf g hg ▸ (Snapshot.get_eq_some.mp hg).1
      · cases hg : old.get f.name with
        | none => exact ((hnew f hf hg).elim List.not_mem_nil List.not_mem_nil).elim
        | some g =>
          obtain ⟨hgo, hn⟩ := Snapshot.get_eq_some.mp hg
          exact hstay g hgo f (Snapshot.get_eq_some.mpr ⟨hf, hn.symm⟩) ▸ hgo
    · obtain ⟨hb, ho⟩ := @SameFields.lists_eq repr old new hsame
      exact ⟨Except.ok.inj (hbreaks.symm.trans hb), Except.ok.inj (hothers.symm.trans ho)⟩

/-! ## A field that gains an `enum` -/

/-- An optional text field, with the values it declares. -/
private def modeField (enum : Option (List EnumEntry)) : SchemaField where
  name := "mode".toList
  type := some "string".toList
  required := some false
  default := some "''".toList
  enum := enum
  pattern := none
  min := none
  max := none

/-- A snapshot with that field only. -/
private def modeSnapshot (version : Text) (enum : Option (List EnumEntry)) : Snapshot where
  version := version
  fields := [modeField enum]
  nodup := List.nodup_singleton _

/-- A field that took any text takes two values only, and neither list says so. -/
theorem new_enum_not_reported : ¬ Complete id (modeSnapshot "1.0".toList none)
    (modeSnapshot "1.1".toList (some [.plain "local".toList, .plain "remote".toList])) := by
  intro h
  have hseen := h.fieldSeen (f := modeField none) List.mem_cons_self
    (Snapshot.get_eq_some.mpr ⟨List.mem_cons_self, rfl⟩)
  exact (hseen.enum (Option.some_ne_none _).symm).1 rfl

end LabInABox.Schema
