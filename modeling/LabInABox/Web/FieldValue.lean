import Mathlib.Algebra.Group.Nat.Defs
import LabInABox.Schema.Validate

/-!
# A value in the form, and in the preflight

Model of `validateFieldValue` (`webui/htdocs/app.js`), beside `value_finding` (`libs/schema_validate.py`):
what the web form says of a value, and what the checks before a run say of it.

* Where a pattern matches is a parameter, one for both: `re.match` asks for a match at the start,
  `RegExp.test` for one anywhere. Every pattern is one both take.
* A JavaScript number is kept as the integer it stands for: `toNumber` rounds to 53 bits, half to even,
  and `2 ^ 1024` stands for an infinity. `parseInt` rounds the same way.

Results:
* `parseInt_of_isWhole`: a whole number of the form is that number to `int(..)`.
* `reports_iff_rejects_iff`: exactly when the form and the preflight judge a value alike.
* `jsInRange_iff`: below `2 ^ 53`, and for a port without bounds of its own, the bounds are the same.
* `placeholder_reported`: a placeholder in a number field.
-/

namespace LabInABox.Web

open Text Schema

/-! ## Numbers -/

/-- The nearest number of 53 bits, the even one of two. -/
def roundNat (n : Nat) : Nat :=
  if n < 2 ^ 53 then n
  else
    let unit := 2 ^ (Nat.log2 n - 52)
    let q := n / unit
    let r := n % unit
    (if unit < 2 * r ∨ (2 * r = unit ∧ q % 2 = 1) then q + 1 else q) * unit

/-- What stands for an infinity, `2 ^ 1024`. -/
def infinity : Nat := 1 <<< 1024

/-- The number an integer becomes. -/
def toNumber (n : Int) : Int := n.sign * (min (roundNat n.natAbs) infinity : Nat)

/-- Integers below `2 ^ 53` are numbers. -/
theorem toNumber_of_lt {n : Int} (h : n.natAbs < 2 ^ 53) : toNumber n = n := by
  have hinf : 2 ^ 53 ≤ infinity := by decide
  have hle : n.natAbs ≤ infinity := le_trans (le_of_lt h) hinf
  unfold toNumber roundNat
  rw [if_pos h, min_eq_left hle]
  exact Int.sign_mul_natAbs n

/-! ## The form -/

/-- `[0-9]+` -/
def isDigits (t : Text) : Bool := t ≠ [] && t.all Char.isDigit

/-- `/^-?\d+$/.test(value)` -/
def isWhole : Text → Bool
  | '-' :: cs => isDigits cs
  | cs => isDigits cs

/-- The integer a whole number spells. -/
def wholeValue : Text → Int
  | '-' :: cs => -(Nat.ofDigitChars 10 cs 0 : Int)
  | cs => Nat.ofDigitChars 10 cs 0

section Form

variable (matchesAt : Text → Text → Nat → Bool) (f : SchemaField) (value : Text)

/-- `new RegExp(pattern).test(value)` -/
def regExpTest (pattern : Text) : Bool := (List.range (value.length + 1)).any (matchesAt pattern value)

/-- `lo` -/
def lo : Option Int := if f.type = some "port".toList then some 1 else f.min

/-- `hi` -/
def hi : Option Int := if f.type = some "port".toList then some 65535 else f.max

/-- `validateFieldValue(field, value)`. -/
def validateFieldValue : Option Text :=
  if value = [] then none
  else if f.type = some "integer".toList ∨ f.type = some "port".toList then
    if isWhole value = false then some "must be a whole number".toList
    else
      let n := toNumber (wholeValue value)
      if ∃ low ∈ lo f, n < toNumber low then
        some ("must be ".toList ++ (lo f).elim [] intText ++ " or more".toList)
      else if ∃ high ∈ hi f, toNumber high < n then
        some ("must be ".toList ++ (hi f).elim [] intText ++ " or less".toList)
      else none
  else
    match f.pattern with
    | none => none
    | some pattern =>
      if pattern = [] ∨ regExpTest matchesAt value pattern = true then none
      else some "doesn't match the expected format".toList

/-- The number is within the bounds of the form. -/
def JsInRange (n : Int) : Prop :=
  (∀ low ∈ lo f, toNumber low ≤ toNumber n) ∧ ∀ high ∈ hi f, toNumber n ≤ toNumber high

/-- The pattern of the field occurs in the value. -/
def Occurs : Prop := ∀ pattern ∈ f.pattern, pattern = [] ∨ regExpTest matchesAt value pattern = true

end Form

/-! ## The number a text spells -/

theorem isDigits_iff {t : Text} : isDigits t = true ↔ t ≠ [] ∧ ∀ c ∈ t, c.isDigit = true := by
  unfold isDigits
  rw [Bool.and_eq_true, decide_eq_true_eq, List.all_eq_true]

theorem isSpace_of_isDigit {c : Char} (h : c.isDigit = true) : isSpace c = false :=
  isSpace_of_isAlphanum (by unfold Char.isAlphanum; rw [h, Bool.or_true])

theorem isWhole_cons_of_ne {c : Char} {cs : Text} (h : c ≠ '-') : isWhole (c :: cs) = isDigits (c :: cs) := by
  unfold isWhole
  split
  · rename_i heq
    exact absurd (List.cons.inj heq).1 h
  · rfl

theorem wholeValue_cons_of_ne {c : Char} {cs : Text} (h : c ≠ '-') :
    wholeValue (c :: cs) = Nat.ofDigitChars 10 (c :: cs) 0 := by
  unfold wholeValue
  split
  · rename_i heq
    exact absurd (List.cons.inj heq).1 h
  · rfl

/-- A whole number is its sign and digits. -/
theorem noSpace_of_isWhole {t : Text} (h : isWhole t = true) : t ≠ [] ∧ ∀ c ∈ t, isSpace c = false := by
  cases t with
  | nil => exact absurd h (by decide)
  | cons c cs =>
    refine ⟨List.cons_ne_nil _ _, fun x hx => ?_⟩
    by_cases hc : c = '-'
    · rw [hc] at h hx
      rcases List.mem_cons.mp hx with rfl | hx
      · decide
      · exact isSpace_of_isDigit ((isDigits_iff.mp h).2 x hx)
    · rw [isWhole_cons_of_ne hc] at h
      exact isSpace_of_isDigit ((isDigits_iff.mp h).2 x hx)

/-- **A whole number of the form** is that number to `int(..)`. -/
theorem parseInt_of_isWhole {t : Text} (h : isWhole t = true) : parseInt t = some (wholeValue t) := by
  obtain ⟨hne, hspace⟩ := noSpace_of_isWhole h
  have hintSpace : ∀ c ∈ t, intSpace c = false := fun c hc => by
    rw [intSpace, hspace c hc, Bool.false_and]
  have hdrop : t.dropWhile intSpace = t := List.dropWhile_eq_self_iff.mpr fun hl => by
    rw [hintSpace _ (List.getElem_mem hl)]
    exact Bool.false_ne_true
  have hrdrop : t.rdropWhile intSpace = t := List.rdropWhile_eq_self_iff.mpr fun hl => by
    rw [hintSpace _ (List.getLast_mem hl)]
    exact Bool.false_ne_true
  rw [parseInt, hdrop, hrdrop]
  obtain ⟨c, cs, rfl⟩ := List.exists_cons_of_ne_nil hne
  by_cases hc : c = '-'
  · rw [hc] at h ⊢
    obtain ⟨hcs, hd⟩ := isDigits_iff.mp h
    simp only [parseNat_of_isDigit hcs hd, Option.map_some]
    rfl
  · rw [isWhole_cons_of_ne hc] at h
    have hd := (isDigits_iff.mp h).2
    rw [wholeValue_cons_of_ne hc]
    split
    · rename_i heq
      have hplus := hd c List.mem_cons_self
      rw [(List.cons.inj heq).1] at hplus
      exact absurd hplus (by decide)
    · rename_i heq
      exact absurd (List.cons.inj heq).1 hc
    · rw [parseNat_of_isDigit hne hd]
      rfl

/-- A whole number is checked, as that number. -/
theorem asInt_of_isWhole {t : Text} (h : isWhole t = true) :
    IsChecked (.text t) ∧ asInt (.text t) = some (wholeValue t) := by
  obtain ⟨hne, hspace⟩ := noSpace_of_isWhole h
  have hstrip : strip t = t := strip_of_isField ⟨hne, hspace⟩
  refine ⟨⟨?_, ?_⟩, ?_⟩
  · rw [isAbsent, hstrip]
    exact decide_eq_false hne
  · rw [isPlaceholder, hstrip]
    cases hp : "??".toList.isPrefixOf t with
    | false => rfl
    | true =>
      obtain ⟨u, rfl⟩ := List.isPrefixOf_iff_prefix.mp hp
      have hq : isWhole ("??".toList ++ u) = isDigits ('?' :: '?' :: u) := isWhole_cons_of_ne (by decide)
      rw [hq] at h
      exact absurd ((isDigits_iff.mp h).2 '?' List.mem_cons_self) (by decide)
  · rw [asInt, hstrip]
    exact parseInt_of_isWhole h

/-! ## What is judged alike -/

section Judged

variable (matchesAt : Text → Text → Nat → Bool) (f : SchemaField) (value : Text)

/-- `re.match(pattern, str(value))` -/
def reMatch (pattern text : Text) : Bool := matchesAt pattern text 0

/-- The form reports a problem. -/
def Reports : Prop := ∃ message, validateFieldValue matchesAt f value = some message

/-- A number field: the value is checked; a number that `int(..)` reads and the form does not is out of the
bounds, and of a number both read, the bounds of the form say what those of the preflight do. -/
structure NumberAlike : Prop where
  checked : IsChecked (.text value)
  spelled : isWhole value = false → ∀ n, asInt (.text value) = some n → ¬ InRange f n
  bounded : isWhole value = true → (JsInRange f (wholeValue value) ↔ InRange f (wholeValue value))

/-- A text field: the pattern occurs in a value that is not checked; one that is checked is of the declared
values and begins with the pattern where the pattern occurs, or is not of them and the pattern does not occur. -/
structure TextAlike : Prop where
  unchecked : ¬ IsChecked (.text value) → Occurs matchesAt f value
  undeclared : IsChecked (.text value) → ¬ (f.enumValues = [] ∨ value ∈ f.enumValues) →
    ¬ Occurs matchesAt f value
  begins : IsChecked (.text value) → f.enumValues = [] ∨ value ∈ f.enumValues → Occurs matchesAt f value →
    PatternTakes (reMatch matchesAt) f value

/-- The value is one the form and the preflight judge alike. -/
def Alike : Prop := (f.IsNumber → NumberAlike f value) ∧ (f.IsText → TextAlike matchesAt f value)

variable {matchesAt f value}

/-- The type of a field is its kind, but for the kind of a field without a type. -/
theorem type_eq_iff {t : Text} (hs : t ≠ "string".toList) (hne : t ≠ []) : f.type = some t ↔ f.kind = t := by
  unfold SchemaField.kind
  cases f.type with
  | none =>
    rw [Option.getD_none, if_pos rfl]
    exact ⟨fun h => absurd h.symm (Option.some_ne_none t), fun h => absurd h.symm hs⟩
  | some u =>
    rw [Option.getD_some]
    by_cases hu : u = []
    · rw [if_pos hu, hu]
      exact ⟨fun h => absurd (Option.some.inj h).symm hne, fun h => absurd h.symm hs⟩
    · rw [if_neg hu, Option.some.injEq]

theorem type_port_iff : f.type = some "port".toList ↔ f.kind = "port".toList :=
  type_eq_iff (by decide) (by decide)

/-- The form asks for a number where the preflight does. -/
theorem type_iff : f.type = some "integer".toList ∨ f.type = some "port".toList ↔ f.IsNumber := by
  unfold SchemaField.IsNumber
  rw [type_port_iff, type_eq_iff (by decide) (by decide)]

/-- The form takes a whole number that is within its bounds. -/
theorem not_reports_number_iff (hv : value ≠ []) (hk : f.IsNumber) :
    ¬ Reports matchesAt f value ↔ isWhole value = true ∧ JsInRange f (wholeValue value) := by
  unfold Reports validateFieldValue
  rw [if_neg hv, if_pos (type_iff.mpr hk)]
  cases isWhole value with
  | false => exact ⟨fun h => absurd ⟨_, rfl⟩ h, fun h => absurd h.1 Bool.false_ne_true⟩
  | true =>
    rw [if_neg (by decide)]
    unfold JsInRange
    by_cases hl : ∃ low ∈ lo f, toNumber (wholeValue value) < toNumber low
    · obtain ⟨low, hm, hlt⟩ := hl
      rw [if_pos ⟨low, hm, hlt⟩]
      exact ⟨fun h => absurd ⟨_, rfl⟩ h, fun h => absurd (h.2.1 low hm) (not_le.mpr hlt)⟩
    rw [if_neg hl]
    by_cases hh : ∃ high ∈ hi f, toNumber high < toNumber (wholeValue value)
    · obtain ⟨high, hm, hlt⟩ := hh
      rw [if_pos ⟨high, hm, hlt⟩]
      exact ⟨fun h => absurd ⟨_, rfl⟩ h, fun h => absurd (h.2.2 high hm) (not_le.mpr hlt)⟩
    rw [if_neg hh]
    refine ⟨fun _ => ⟨rfl, fun low hm => ?_, fun high hm => ?_⟩, fun _ ⟨m, hm⟩ => absurd hm.symm (Option.some_ne_none m)⟩
    · exact not_lt.mp fun hlt => hl ⟨low, hm, hlt⟩
    · exact not_lt.mp fun hlt => hh ⟨high, hm, hlt⟩

/-- The form takes a text in which the pattern occurs. -/
theorem not_reports_text_iff (hv : value ≠ []) (hk : ¬ f.IsNumber) :
    ¬ Reports matchesAt f value ↔ Occurs matchesAt f value := by
  unfold Reports validateFieldValue Occurs
  rw [if_neg hv, if_neg (mt type_iff.mp hk)]
  cases f.pattern with
  | none => exact ⟨fun _ p hp => absurd hp.symm (Option.some_ne_none p), fun _ ⟨m, hm⟩ => absurd hm.symm (Option.some_ne_none m)⟩
  | some pattern =>
    simp only [Option.mem_some_iff, forall_eq']
    by_cases hp : pattern = [] ∨ regExpTest matchesAt value pattern = true
    · rw [if_pos hp]
      exact ⟨fun _ => hp, fun _ ⟨m, hm⟩ => absurd hm.symm (Option.some_ne_none m)⟩
    · rw [if_neg hp]
      exact ⟨fun h => absurd ⟨_, rfl⟩ h, fun h => absurd h hp⟩

theorem regExpTest_of_reMatch {pattern : Text} (h : reMatch matchesAt pattern value = true) :
    regExpTest matchesAt value pattern = true :=
  List.any_eq_true.mpr ⟨0, List.mem_range.mpr (Nat.succ_pos _), h⟩

/-- A pattern at the start occurs. -/
theorem occurs_of_patternTakes (h : PatternTakes (reMatch matchesAt) f value) : Occurs matchesAt f value :=
  fun pattern hp => (h pattern hp).imp id regExpTest_of_reMatch

theorem number_alike_iff (hv : value ≠ []) (hk : f.IsNumber) (place : Text) :
    (Reports matchesAt f value ↔ Rejects (reMatch matchesAt) f (.text value) place) ↔ NumberAlike f value := by
  rw [← @not_iff_not (Reports matchesAt f value), not_reports_number_iff hv hk]
  by_cases hc : IsChecked (.text value)
  swap
  · -- the preflight takes it, and it is no whole number
    have hno : isWhole value ≠ true := fun hw => hc (asInt_of_isWhole hw).1
    refine iff_of_false (fun h => ?_) (fun h => hc h.checked)
    exact hno (h.mpr (not_rejects_of_not_isChecked hc)).1
  rw [rejects_number_iff hc hk]
  cases hw : isWhole value with
  | true =>
    rw [(asInt_of_isWhole hw).2]
    simp only [Option.some.injEq, forall_eq', not_not, true_and]
    constructor
    · intro h
      exact ⟨hc, fun hf => absurd (hw.symm.trans hf) (by decide), fun _ => h⟩
    · intro h
      exact h.bounded hw
  | false =>
    constructor
    · intro h
      refine ⟨hc, fun _ n hn hin => ?_, fun ht => absurd (hw.symm.trans ht) (by decide)⟩
      exact absurd (h.mpr fun hall => hall n hn hin).1 (by decide)
    · intro h
      refine iff_of_false (fun hand => absurd hand.1 (by decide)) ?_
      exact not_not_intro (h.spelled hw)

theorem text_alike_iff (hv : value ≠ []) (hk : f.IsText) (place : Text) :
    (Reports matchesAt f value ↔ Rejects (reMatch matchesAt) f (.text value) place) ↔
      TextAlike matchesAt f value := by
  rw [← @not_iff_not (Reports matchesAt f value), not_reports_text_iff hv hk.1]
  by_cases hc : IsChecked (.text value)
  swap
  · constructor
    · intro h
      exact ⟨fun _ => h.mpr (not_rejects_of_not_isChecked hc), fun h => absurd h hc, fun h => absurd h hc⟩
    · intro h
      exact iff_of_true (h.unchecked hc) (not_rejects_of_not_isChecked hc)
  rw [rejects_text_iff hc hk, not_not]
  unfold Declares
  dsimp only [Json.str]
  constructor
  · intro h
    refine ⟨fun hn => absurd hc hn, fun _ he ho => ?_, fun _ _ ho => ?_⟩
    · exact he (h.mp ho).1
    · exact (h.mp ho).2
  · intro h
    by_cases he : f.enumValues = [] ∨ value ∈ f.enumValues
    · refine ⟨fun ho => ⟨he, h.begins hc he ho⟩, fun ht => occurs_of_patternTakes ht.2⟩
    · exact iff_of_false (h.undeclared hc he) fun ht => he ht.1

/-- **The form and the preflight judge a value alike** exactly in the cases of `Alike`. -/
theorem reports_iff_rejects_iff (hv : value ≠ []) (hk : f.IsNumber ∨ f.IsText) (place : Text) :
    (Reports matchesAt f value ↔ Rejects (reMatch matchesAt) f (.text value) place) ↔
      Alike matchesAt f value := by
  unfold Alike
  rcases hk with hk | hk
  · rw [number_alike_iff hv hk]
    exact ⟨fun h => ⟨fun _ => h, fun ht => absurd hk ht.1⟩, fun h => h.1 hk⟩
  · rw [text_alike_iff hv hk]
    exact ⟨fun h => ⟨fun hn => absurd hn hk.1, fun _ => h⟩, fun h => h.2 hk⟩

/-- **The bounds** of small numbers are the same, but for a port with bounds of its own. -/
theorem jsInRange_iff {n : Int} (hn : n.natAbs < 2 ^ 53) (hmin : ∀ low ∈ f.min, low.natAbs < 2 ^ 53)
    (hmax : ∀ high ∈ f.max, high.natAbs < 2 ^ 53)
    (hport : f.kind = "port".toList → f.min = none ∧ f.max = none) : JsInRange f n ↔ InRange f n := by
  have hlo : lo f = f.low := by
    unfold lo SchemaField.low
    by_cases hp : f.kind = "port".toList
    · rw [if_pos (type_port_iff.mpr hp), if_pos hp, (hport hp).1, Option.none_or]
    · rw [if_neg (mt type_port_iff.mp hp), if_neg hp, Option.or_none]
  have hhi : hi f = f.high := by
    unfold hi SchemaField.high
    by_cases hp : f.kind = "port".toList
    · rw [if_pos (type_port_iff.mpr hp), if_pos hp, (hport hp).2, Option.none_or]
    · rw [if_neg (mt type_port_iff.mp hp), if_neg hp, Option.or_none]
  have hlow : ∀ low ∈ f.low, toNumber low = low := by
    intro low hl
    rcases Option.or_eq_some_iff.mp hl with hm | ⟨_, hm⟩
    · exact toNumber_of_lt (hmin low hm)
    · split at hm
      · obtain rfl := Option.some.inj hm
        exact toNumber_of_lt (by decide)
      · exact absurd hm.symm (Option.some_ne_none low)
  have hhigh : ∀ high ∈ f.high, toNumber high = high := by
    intro high hl
    rcases Option.or_eq_some_iff.mp hl with hm | ⟨_, hm⟩
    · exact toNumber_of_lt (hmax high hm)
    · split at hm
      · obtain rfl := Option.some.inj hm
        exact toNumber_of_lt (by decide)
      · exact absurd hm.symm (Option.some_ne_none high)
  unfold JsInRange InRange
  rw [hlo, hhi, toNumber_of_lt hn]
  refine and_congr (forall₂_congr fun low hl => ?_) (forall₂_congr fun high hh => ?_)
  · rw [hlow low hl]
  · rw [hhigh high hh]

end Judged

/-! ## A placeholder -/

/-- A field for a number, without bounds. -/
def numberField : SchemaField :=
  ⟨"VM_MEM".toList, some "integer".toList, none, none, none, none, none, none⟩

/-- The form reports a placeholder that the preflight takes. -/
theorem placeholder_reported :
    ¬ (Reports (fun _ _ _ => false) numberField "??mem".toList ↔
      Rejects (reMatch fun _ _ _ => false) numberField (.text "??mem".toList) []) := by
  have hnot : ¬ IsChecked (.text "??mem".toList) := by
    rw [not_isChecked_iff]
    exact Or.inr (by decide)
  intro h
  refine not_rejects_of_not_isChecked hnot (h.mp ⟨"must be a whole number".toList, ?_⟩)
  decide

/-- A number of memory, which both take. -/
theorem number_judged_alike :
    "8192".toList ≠ [] ∧ Alike (fun _ _ _ => false) numberField "8192".toList ∧
      ((Reports (fun _ _ _ => false) numberField "8192".toList ↔
        Rejects (reMatch fun _ _ _ => false) numberField (.text "8192".toList) []) ↔
          Alike (fun _ _ _ => false) numberField "8192".toList) := by
  have hw : isWhole "8192".toList = true := by decide
  have hn : numberField.IsNumber := by decide
  have hv : wholeValue "8192".toList = 8192 := by decide
  have hp : numberField.kind ≠ "port".toList := by decide
  refine ⟨by decide, ⟨fun _ => ⟨(asInt_of_isWhole hw).1, fun hf => ?_, fun _ => ?_⟩, fun ht => absurd hn ht.1⟩,
    reports_iff_rejects_iff (by decide) (Or.inl hn) []⟩
  · exact absurd (hw.symm.trans hf) (by decide)
  · rw [hv]
    exact jsInRange_iff (by decide) (fun _ h => absurd h.symm (Option.some_ne_none _))
      (fun _ h => absurd h.symm (Option.some_ne_none _)) fun h => absurd h hp

end LabInABox.Web
