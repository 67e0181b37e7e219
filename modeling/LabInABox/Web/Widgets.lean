import LabInABox.JsValue
import LabInABox.Web.VersionMatrix

/-!
# The widgets of a form

Model of the widget a field of a schema gets (`fieldRow`, `applyFieldDefault`, `webui/htdocs/app.js`), of the
text it is given (`setWidgetValue`) and of the value that is read from it (`readWidget`).

* A text input and the hidden input behind the image chooser hold the text they are given, a select that of
  the option it gives itself. A number input empties itself of a text that is no number.
* Of a select, only the values of its options matter.
* How JavaScript prints and reads numbers is a parameter.

Results:
* `reads_held_iff`: exactly which values come back from a widget.
-/

namespace LabInABox.Web.Editor

open Text JsValue

/-- `t.trim()`. -/
def trim (t : Text) : Text := Versions.stripBy jsSpace t

/-- The numbers of JavaScript. -/
structure Numbers (ν : Type) where
  /-- `String(n)`. -/
  shown : ν → Text
  /-- `Number(text)`, unless that is `NaN`. -/
  parse : Text → Option ν
  /-- The text is one a number input keeps. -/
  valid : Text → Bool
  isZero : ν → Bool
  trim_shown : ∀ n, trim (shown n) = shown n
  shown_ne : ∀ n, shown n ≠ []
  valid_shown : ∀ n, valid (shown n) = true
  parse_shown : ∀ n, parse (shown n) = some n
  parse_valid : ∀ t, valid t = true → parse (trim t) ≠ none

variable {ν : Type} (N : Numbers ν)

/-! ## Values as texts -/

mutual

/-- `String(v)`. -/
def jsText : JsValue ν → Text
  | null => "null".toList
  | .bool b => if b then "true".toList else "false".toList
  | number n => N.shown n
  | text t => t
  | list vs => [','].intercalate (jsTexts vs)
  | mapping _ => "[object Object]".toList

/-- The texts `vs.join(",")` joins. -/
def jsTexts : List (JsValue ν) → List Text
  | [] => []
  | null :: vs => [] :: jsTexts vs
  | v :: vs => jsText v :: jsTexts vs

end

/-- `!!v`. -/
def isTrue : JsValue ν → Bool
  | null => false
  | .bool b => b
  | number n => !N.isZero n
  | text t => t ≠ []
  | _ => true

/-! ## Fields -/

/-- What a type of a field makes of a text. -/
inductive Kind
  | boolean
  | number
  | array
  | text

/-- The kind of a type. -/
def kindOf (type : Text) : Kind :=
  if type = "boolean".toList then .boolean
  else if type = "integer".toList ∨ type = "port".toList then .number
  else if type = "array".toList then .array
  else .text

/-- A field of a schema: `options` is its `enum`, if that is a list. -/
structure Field (ν : Type) where
  name : Text
  type : Text
  options : List (JsValue ν)
  default : Option (JsValue ν)
  hidden : Bool
  showIf : Option (JsValue ν)

namespace Field

variable (f : Field ν)

/-- `optValue(o)`; what has no value is undefined. -/
def optValue : JsValue ν → Option (JsValue ν)
  | mapping es => es.lookup "value".toList
  | list _ => none
  | v => some v

/-- `opt.value`. -/
def optText (o : JsValue ν) : Text := (optValue o).elim "undefined".toList (jsText N)

/-- The widget is a select. -/
def isSelect : Bool :=
  f.name ≠ "SOURCE_IMAGE".toList && (f.type = "boolean".toList || !f.options.isEmpty)

/-- `options`, of a select. -/
def choices : List (JsValue ν) :=
  if f.type = "boolean".toList then [.text "true".toList, .text "false".toList] else f.options

/-- `optValue(o) === ""`. -/
def isUnset (o : JsValue ν) : Bool :=
  match optValue o with
  | some (.text t) => t.isEmpty
  | _ => false

/-- The values of a select's options. -/
def optionTexts : List Text :=
  (if f.choices.any isUnset then [] else [[]]) ++ f.choices.map (optText N)

/-- The widget is a number input. -/
def isNumberInput : Bool :=
  f.name ≠ "SOURCE_IMAGE".toList && !f.isSelect && (f.type = "integer".toList || f.type = "port".toList)

/-- What the widget holds before it is given a value, `live` being the default of the common section; one
in an instance is left at its first option. -/
def preset (inInstance : Bool) (live : Option Text) : Text :=
  if f.isSelect then
    if inInstance then ((f.optionTexts N).head?).getD []
    else
      let default := (live.or (f.default.map (jsText N))).getD []
      if default ∈ f.optionTexts N then default else []
  else []

/-- What the widget holds when it was given a value. -/
def held (preset : Text) : Option (JsValue ν) → Text
  | none | some null => preset
  | some v =>
    let s := jsText N v
    if f.isNumberInput && !N.valid s then [] else s

/-- `readWidget(elm)`, of what the widget holds. -/
def readWidget (value : Text) : Option (JsValue ν) :=
  let raw := trim value
  if raw = [] then none
  else
    match kindOf f.type with
    | .boolean => some (.bool (raw = "true".toList))
    | .number => some ((N.parse raw).elim (.text raw) .number)
    | .array => some (.list ((((raw.splitOn ',').map trim).filter fun t => t ≠ []).map .text))
    | .text => some (.text raw)

/-- What is taken from the widget: `v === undefined || (Array.isArray(v) && !v.length)` is left out. -/
def reads (value : Text) : Option (JsValue ν) :=
  (f.readWidget N value).filter fun
    | .list vs => !vs.isEmpty
    | _ => true

/-- A text that comes back as it was. -/
def IsPlain (t : Text) : Prop := t ≠ [] ∧ trim t = t

/-- **The value is one the field's widget gives back.** -/
def Faithful (v : JsValue ν) : Prop :=
  match kindOf f.type with
  | .boolean => ∃ b, v = .bool b
  | .number => (∃ n, v = .number n) ∨ (f.isNumberInput = false ∧ ∃ t, v = .text t ∧ IsPlain t ∧ N.parse t = none)
  | .array => ∃ ts, v = .list (ts.map .text) ∧ ts ≠ [] ∧ ∀ t ∈ ts, IsPlain t ∧ ',' ∉ t
  | .text => ∃ t, v = .text t ∧ IsPlain t

end Field

/-! ## Trimmed texts -/

section Trim

variable {t : Text}

/-- A trimmed text neither starts nor ends with a blank. -/
theorem trim_ends (t : Text) : (∀ c, (trim t).head? = some c → jsSpace c = false) ∧
    ∀ c, (trim t).getLast? = some c → jsSpace c = false := by
  have hprefix : trim t <+: t.dropWhile jsSpace := List.rdropWhile_prefix _ _
  constructor
  · intro c hc
    have hhead : (t.dropWhile jsSpace).head? = some c := by
      obtain ⟨rest, hrest⟩ := hprefix
      rw [← hrest, List.head?_append, hc, Option.some_or]
    have hnot := List.head?_dropWhile_not jsSpace t
    rw [hhead] at hnot
    exact hnot
  · intro c hc
    have hne : (t.dropWhile jsSpace).rdropWhile jsSpace ≠ [] := fun h => by
      rw [trim, Versions.stripBy, h] at hc
      cases hc
    have hlast := List.rdropWhile_last_not jsSpace _ hne
    have hget := (List.getLast?_eq_some_getLast hne).symm.trans hc
    rw [Option.some.inj hget] at hlast
    exact Bool.eq_false_of_not_eq_true hlast

/-- A text stays as it is exactly when it neither starts nor ends with a blank. -/
theorem trim_eq_self_iff : trim t = t ↔
    (∀ c, t.head? = some c → jsSpace c = false) ∧ ∀ c, t.getLast? = some c → jsSpace c = false := by
  refine ⟨fun h => h ▸ trim_ends t, fun ⟨hhead, hlast⟩ => ?_⟩
  have hdrop : t.dropWhile jsSpace = t := by
    cases t with
    | nil => rfl
    | cons c cs => rw [List.dropWhile_cons_of_neg (by rw [hhead c rfl]; simp)]
  rw [trim, Versions.stripBy, hdrop, List.rdropWhile_eq_self_iff]
  intro hne
  rw [hlast _ (List.getLast?_eq_some_getLast hne)]
  simp

theorem trim_trim (t : Text) : trim (trim t) = trim t := trim_eq_self_iff.mpr (trim_ends t)

theorem mem_of_mem_trim {c : Char} (h : c ∈ trim t) : c ∈ t :=
  (List.dropWhile_sublist _).subset ((List.rdropWhile_prefix _ _).subset h)

/-- No part of a text that is split contains what it is split at. -/
theorem not_mem_of_mem_splitOn {c : Char} {t u : Text} (h : u ∈ t.splitOn c) : c ∉ u := by
  induction t generalizing u with
  | nil =>
    obtain rfl := List.mem_singleton.mp h
    exact List.not_mem_nil
  | cons x xs ih =>
    rw [List.splitOn, List.splitOnP_cons_eq_if_modifyHead] at h
    split at h
    · rcases List.mem_cons.mp h with rfl | h
      · exact List.not_mem_nil
      · exact ih h
    · rename_i hx
      cases hxs : xs.splitOnP (· == c) with
      | nil =>
        rw [hxs] at h
        cases h
      | cons w ws =>
        rw [hxs, List.modifyHead_cons] at h
        have hmem : ∀ u ∈ w :: ws, c ∉ u := fun u hu => ih (by rw [List.splitOn, hxs]; exact hu)
        rcases List.mem_cons.mp h with rfl | h
        · refine List.not_mem_cons_of_ne_of_not_mem (fun hc => hx ?_) (hmem w List.mem_cons_self)
          exact beq_iff_eq.mpr hc.symm
        · exact hmem u (List.mem_cons_of_mem _ h)

/-- Texts that come back, with commas between them, come back as well. -/
theorem isPlain_intercalate {ts : List Text} (hne : ts ≠ []) (h : ∀ t ∈ ts, Field.IsPlain t) :
    Field.IsPlain ([','].intercalate ts) := by
  induction ts with
  | nil => exact absurd rfl hne
  | cons t ts ih =>
    obtain ⟨ht, htrim⟩ := h t List.mem_cons_self
    cases ts with
    | nil =>
      rw [List.intercalate_singleton]
      exact ⟨ht, htrim⟩
    | cons u us =>
      obtain ⟨hrest, hrtrim⟩ := ih (List.cons_ne_nil _ _) fun t ht => h t (List.mem_cons_of_mem _ ht)
      rw [List.intercalate_cons_cons]
      refine ⟨by simp [ht], trim_eq_self_iff.mpr ⟨fun c hc => ?_, fun c hc => ?_⟩⟩
      · rw [List.append_assoc, List.head?_append_of_ne_nil _ ht] at hc
        exact (trim_eq_self_iff.mp htrim).1 c hc
      · rw [List.getLast?_append_of_ne_nil _ hrest] at hc
        exact (trim_eq_self_iff.mp hrtrim).2 c hc

end Trim

/-! ## What comes back -/

namespace Field

variable {N} {f : Field ν} {v : JsValue ν} {t preset : Text}

@[simp] theorem jsText_bool (b : Bool) : jsText N (.bool b) = if b then "true".toList else "false".toList := rfl

@[simp] theorem jsText_number (n : ν) : jsText N (.number n) = N.shown n := rfl

@[simp] theorem jsText_text (t : Text) : jsText N (.text t) = t := rfl

@[simp] theorem jsText_list (vs : List (JsValue ν)) : jsText N (.list vs) = [','].intercalate (jsTexts N vs) := rfl

theorem jsTexts_texts (ts : List Text) : jsTexts N (ts.map .text) = ts := by
  induction ts with
  | nil => rfl
  | cons t ts ih => exact congrArg (List.cons t) ih

theorem held_of_not_number (hn : f.isNumberInput = false) (hv : v ≠ null) : f.held N preset (some v) = jsText N v := by
  cases v with
  | null => exact absurd rfl hv
  | _ => simp [held, hn]

theorem kindOf_of_number (h : f.isNumberInput = true) : kindOf f.type = .number := by
  unfold isNumberInput at h
  obtain ⟨-, htype⟩ := (Bool.and_eq_true _ _).mp h
  rcases (Bool.or_eq_true _ _).mp htype with htype | htype
  · rw [of_decide_eq_true htype]
    rfl
  · rw [of_decide_eq_true htype]
    rfl

theorem not_number_of_kind {k : Kind} (hk : kindOf f.type = k) (hne : k ≠ .number) : f.isNumberInput = false :=
  Bool.eq_false_of_not_eq_true fun h => hne (hk.symm.trans (kindOf_of_number h))

/-! ### What is read -/

/-- The texts between commas that are not blank, trimmed. -/
def words (s : Text) : List Text := (((trim s).splitOn ',').map trim).filter fun t => t ≠ []

theorem reads_of_blank {s : Text} (h : trim s = []) : f.reads N s = none := by
  unfold reads readWidget
  dsimp only
  rw [if_pos h, Option.filter_none]

theorem reads_boolean {s : Text} (hk : kindOf f.type = .boolean) (h : trim s ≠ []) :
    f.reads N s = some (.bool (trim s = "true".toList)) := by
  unfold reads readWidget
  dsimp only
  rw [if_neg h, hk]
  rfl

theorem reads_text {s : Text} (hk : kindOf f.type = .text) (h : trim s ≠ []) : f.reads N s = some (.text (trim s)) := by
  unfold reads readWidget
  dsimp only
  rw [if_neg h, hk]
  rfl

theorem reads_number {s : Text} (hk : kindOf f.type = .number) (h : trim s ≠ []) :
    f.reads N s = some ((N.parse (trim s)).elim (.text (trim s)) .number) := by
  unfold reads readWidget
  dsimp only
  rw [if_neg h, hk]
  cases N.parse (trim s) <;> rfl

theorem reads_array {s : Text} (hk : kindOf f.type = .array) (h : trim s ≠ []) :
    f.reads N s = if words s = [] then none else some (.list ((words s).map .text)) := by
  unfold reads readWidget
  dsimp only
  rw [if_neg h, hk]
  change Option.filter _ (some (list ((words s).map .text))) = _
  cases words s with
  | nil => rfl
  | cons t ts => rfl

/-- A value that is read is read from a text that is not blank. -/
theorem not_blank_of_reads {s : Text} (h : f.reads N s = some v) : trim s ≠ [] := fun hs => by
  rw [reads_of_blank hs] at h
  cases h

/-! ### Kind by kind -/

theorem reads_held_boolean (hk : kindOf f.type = .boolean) (hv : v ≠ null) :
    f.reads N (f.held N preset (some v)) = some v ↔ ∃ b, v = .bool b := by
  rw [held_of_not_number (not_number_of_kind hk (by simp)) hv]
  constructor
  · intro h
    rw [reads_boolean hk (not_blank_of_reads h)] at h
    exact ⟨_, (Option.some.inj h).symm⟩
  · rintro ⟨b, rfl⟩
    have htrue : trim "true".toList = "true".toList := by decide
    have hfalse : trim "false".toList = "false".toList := by decide
    cases b with
    | true =>
      change f.reads N "true".toList = _
      rw [reads_boolean hk (by rw [htrue]; decide), htrue]
      rfl
    | false =>
      change f.reads N "false".toList = _
      rw [reads_boolean hk (by rw [hfalse]; decide), hfalse]
      rfl

theorem reads_held_text (hk : kindOf f.type = .text) (hv : v ≠ null) :
    f.reads N (f.held N preset (some v)) = some v ↔ ∃ t, v = .text t ∧ IsPlain t := by
  rw [held_of_not_number (not_number_of_kind hk (by simp)) hv]
  constructor
  · intro h
    have hne := not_blank_of_reads h
    rw [reads_text hk hne] at h
    exact ⟨_, (Option.some.inj h).symm, hne, trim_trim _⟩
  · rintro ⟨t, rfl, hne, htrim⟩
    rw [jsText_text, reads_text hk (by rwa [htrim]), htrim]

theorem reads_held_number (hk : kindOf f.type = .number) (hv : v ≠ null) :
    f.reads N (f.held N preset (some v)) = some v ↔ (∃ n, v = .number n) ∨
      (f.isNumberInput = false ∧ ∃ t, v = .text t ∧ IsPlain t ∧ N.parse t = none) := by
  have hother : (∀ n, v ≠ .number n) → (∀ t, v ≠ .text t) → ∀ s, f.reads N s ≠ some v := fun hn ht s h => by
    rw [reads_number hk (not_blank_of_reads h)] at h
    cases hp : N.parse (trim s) with
    | none => rw [hp] at h; exact ht _ (Option.some.inj h).symm
    | some n => rw [hp] at h; exact hn _ (Option.some.inj h).symm
  cases v with
  | null => exact absurd rfl hv
  | number n =>
    refine iff_of_true ?_ (Or.inl ⟨n, rfl⟩)
    have hheld : f.held N preset (some (.number n)) = N.shown n := by simp [held, N.valid_shown]
    have hne : trim (N.shown n) ≠ [] := by rw [N.trim_shown]; exact N.shown_ne n
    rw [hheld, reads_number hk hne, N.trim_shown, N.parse_shown, Option.elim_some]
  | text t =>
    cases hn : f.isNumberInput with
    | true =>
      refine iff_of_false (fun h => ?_) (by simp)
      have hne := not_blank_of_reads h
      cases hvalid : N.valid t with
      | false =>
        have hheld : f.held N preset (some (.text t)) = [] := by simp [held, hn, hvalid]
        exact hne (by rw [hheld]; rfl)
      | true =>
        have hheld : f.held N preset (some (.text t)) = t := by simp [held, hvalid]
        obtain ⟨n, hp⟩ := Option.ne_none_iff_exists'.mp (N.parse_valid t hvalid)
        rw [hheld] at h hne
        rw [reads_number hk hne, hp] at h
        cases Option.some.inj h
    | false =>
      rw [held_of_not_number hn hv, jsText_text]
      constructor
      · intro h
        have hne := not_blank_of_reads h
        rw [reads_number hk hne] at h
        cases hp : N.parse (trim t) with
        | some n => rw [hp] at h; cases Option.some.inj h
        | none =>
          rw [hp] at h
          have htrim : trim t = t := JsValue.text.inj (Option.some.inj h)
          rw [htrim] at hp hne
          exact Or.inr ⟨rfl, t, rfl, ⟨hne, htrim⟩, hp⟩
      · rintro (⟨n, hcon⟩ | ⟨-, t', heq, ⟨hne, htrim⟩, hp⟩)
        · cases hcon
        · obtain rfl := JsValue.text.inj heq
          rw [reads_number hk (by rwa [htrim]), htrim, hp, Option.elim_none]
  | bool b => exact iff_of_false (hother (by simp) (by simp) _) (by simp)
  | list vs => exact iff_of_false (hother (by simp) (by simp) _) (by simp)
  | mapping es => exact iff_of_false (hother (by simp) (by simp) _) (by simp)

theorem words_plain {s : Text} (h : t ∈ words s) : IsPlain t ∧ ',' ∉ t := by
  obtain ⟨hmem, hne⟩ := List.mem_filter.mp h
  obtain ⟨u, hu, rfl⟩ := List.mem_map.mp hmem
  exact ⟨⟨of_decide_eq_true hne, trim_trim u⟩, fun hc => not_mem_of_mem_splitOn hu (mem_of_mem_trim hc)⟩

theorem words_intercalate {ts : List Text} (hne : ts ≠ []) (h : ∀ t ∈ ts, IsPlain t ∧ ',' ∉ t) :
    words ([','].intercalate ts) = ts := by
  obtain ⟨-, htrim⟩ := isPlain_intercalate hne fun t ht => (h t ht).1
  have hmap : ts.map trim = ts := (List.map_congr_left fun t ht => (h t ht).1.2).trans (List.map_id _)
  rw [words, htrim, List.splitOn_intercalate ',' (fun t ht => (h t ht).2) hne, hmap, List.filter_eq_self]
  exact fun t ht => decide_eq_true (h t ht).1.1

theorem reads_held_array (hk : kindOf f.type = .array) (hv : v ≠ null) :
    f.reads N (f.held N preset (some v)) = some v ↔
      ∃ ts, v = .list (ts.map .text) ∧ ts ≠ [] ∧ ∀ t ∈ ts, IsPlain t ∧ ',' ∉ t := by
  rw [held_of_not_number (not_number_of_kind hk (by simp)) hv]
  constructor
  · intro h
    rw [reads_array hk (not_blank_of_reads h)] at h
    split at h
    · cases h
    · rename_i hne
      exact ⟨_, (Option.some.inj h).symm, hne, fun t ht => words_plain ht⟩
  · rintro ⟨ts, rfl, hne, hts⟩
    obtain ⟨hnil, htrim⟩ := isPlain_intercalate hne fun t ht => (hts t ht).1
    rw [jsText_list, jsTexts_texts, reads_array hk (by rwa [htrim]), words_intercalate hne hts, if_neg hne]

/-- **Exactly which values come back.** -/
theorem reads_held_iff (hv : v ≠ null) : f.reads N (f.held N preset (some v)) = some v ↔ f.Faithful N v := by
  unfold Faithful
  cases hk : kindOf f.type with
  | boolean => exact reads_held_boolean hk hv
  | number => exact reads_held_number hk hv
  | array => exact reads_held_array hk hv
  | text => exact reads_held_text hk hv

end Field

end LabInABox.Web.Editor
