import LabInABox.Text.Yaml

/-!
# Scalars of hand-built YAML

Model of `yaml_scalar` (`libs/lab_creation.py`), which the install configuration of a VM and the
settings of a cluster are written with, against the YAML 1.1 reader of `Text/Yaml.lean`.

* `Value` has the four kinds of flat value a caller passes. A float is its shortest decimal, one that
  `nearest` keeps: the `str` of a float is read back as the same float.
* `replace` is `str.replace` of one character, and `escaped` the four replacements in their order.

Results:
* `escaped_eq`: the four replacements are one pass, character by character.
* `one_entry`: whatever the value, its text is one entry, or no YAML.
* `faithful_iff`: when the value is read back, on its own line. Beside `'\n'` and `'\r'` the other three
  line breaks of YAML 1.1 are left as they are, and so are the characters YAML does not allow. A float
  whose text has no point is no float there.
-/

namespace LabInABox.Config.YamlScalar

open Text Yaml

/-! ## The encoder -/

/-- A flat value. -/
inductive Value (nearest : Decimal → FloatValue)
  | bool (b : Bool)
  | int (n : Int)
  | float (x : PyFloat nearest)
  | str (s : Text)

/-- `str` of a float. -/
def floatText : FloatValue → Text
  | .finite d => d.repr
  | .infinite negative => sign negative ++ "inf".toList
  | .nan => "nan".toList

/-- `str.replace`, for one character. -/
def replace (c : Char) (w s : Text) : Text := s.flatMap fun x => if x = c then w else [x]

/-- A text between double quotes. -/
def escaped (s : Text) : Text :=
  replace '\r' ['\\', 'r'] (replace '\n' ['\\', 'n'] (replace '"' ['\\', '"'] (replace '\\' ['\\', '\\'] s)))

section Encoder

variable {nearest : Decimal → FloatValue}

/-- `yaml_scalar`. -/
def yamlScalar : Value nearest → Text
  | .bool b => if b then "true".toList else "false".toList
  | .int n => strInt n
  | .float x => floatText x.val
  | .str s => '"' :: (escaped s ++ ['"'])

/-- The value as the reader gives it. -/
def Value.scalar : Value nearest → Scalar
  | .bool b => .bool b
  | .int n => .int n
  | .float x => .float x.val
  | .str s => .str s

/-- The text of the value, behind a key, is that one entry, and its line ends behind it. -/
def Faithful (key : Key) (v : Value nearest) : Prop :=
  load nearest (line key (yamlScalar v)) = some [⟨key.text, v.scalar, 0⟩]

instance (key : Key) (v : Value nearest) : Decidable (Faithful key v) := inferInstanceAs (Decidable (_ = _))

/-- The characters that are neither escaped nor kept. -/
def otherBreaks : Text := ['\u0085', '\u2028', '\u2029']

/-- The values that survive. -/
def Kept : Value nearest → Prop
  | .bool _ => True
  | .int _ => True
  | .float x => ∃ d, x.val = .finite d ∧ (d.point ≤ -4 ∨ 16 < d.point → 2 ≤ d.digits.length)
  | .str s => ∀ c ∈ s, printable c = true ∧ c ∉ otherBreaks

/-! ## Strings -/

/-- What the replacements make of one character. -/
def escapeChar (c : Char) : Text :=
  if c = '\\' then ['\\', '\\'] else if c = '"' then ['\\', '"'] else if c = '\n' then ['\\', 'n']
  else if c = '\r' then ['\\', 'r'] else [c]

/-- None of the replacements touches what another one wrote. -/
theorem escaped_eq (s : Text) : escaped s = s.flatMap escapeChar := by
  have hreplace : ∀ (c : Char) (w t : Text), replace c w t = t.flatMap fun x => if x = c then w else [x] :=
    fun _ _ _ => rfl
  simp only [escaped, hreplace, List.flatMap_assoc]
  refine List.flatMap_congr fun c _ => ?_
  by_cases h₁ : c = '\\'
  · subst h₁
    rfl
  by_cases h₂ : c = '"'
  · subst h₂
    rfl
  by_cases h₃ : c = '\n'
  · subst h₃
    rfl
  by_cases h₄ : c = '\r'
  · subst h₄
    rfl
  simp [escapeChar, h₁, h₂, h₃, h₄]

theorem isBreak_iff {c : Char} : isBreak c = true ↔ c = '\n' ∨ c = '\r' ∨ c ∈ otherBreaks := by
  simp [isBreak, isFeed, otherBreaks, or_assoc]

/-- Every character reads as itself again, or is a break that is left as it is. -/
theorem escapeChar_cases (c : Char) : Reads escapeChar c ∧ c ∉ otherBreaks ∨
    RawBreak escapeChar c ∧ c ∈ otherBreaks := by
  by_cases h₁ : c = '\\'
  · subst h₁
    exact Or.inl ⟨Or.inl ⟨'\\', rfl, rfl⟩, by decide⟩
  by_cases h₂ : c = '"'
  · subst h₂
    exact Or.inl ⟨Or.inl ⟨'"', rfl, rfl⟩, by decide⟩
  by_cases h₃ : c = '\n'
  · subst h₃
    exact Or.inl ⟨Or.inl ⟨'n', rfl, rfl⟩, by decide⟩
  by_cases h₄ : c = '\r'
  · subst h₄
    exact Or.inl ⟨Or.inl ⟨'r', rfl, rfl⟩, by decide⟩
  have hself : escapeChar c = [c] := by simp [escapeChar, h₁, h₂, h₃, h₄]
  by_cases hb : c ∈ otherBreaks
  · exact Or.inr ⟨⟨hself, isBreak_iff.mpr (Or.inr (Or.inr hb)), h₄⟩, hb⟩
  · refine Or.inl ⟨Or.inr ⟨hself, h₂, h₁, ?_⟩, hb⟩
    simpa [h₃, h₄, hb] using isBreak_iff (c := c)

theorem reads_or_raw (s : Text) : ∀ c ∈ s, Reads escapeChar c ∨ RawBreak escapeChar c := fun c _ =>
  (escapeChar_cases c).imp And.left And.left

theorem rawBreak_iff {c : Char} : RawBreak escapeChar c ↔ c ∈ otherBreaks := by
  rcases escapeChar_cases c with ⟨hr, hn⟩ | ⟨hr, hm⟩
  · refine iff_of_false (fun h => hn ?_) hn
    rcases isBreak_iff.mp h.2.1 with rfl | rfl | hm
    · exact absurd h.1 (by decide)
    · exact absurd rfl h.2.2
    · exact hm
  · exact iff_of_true hr hm

/-- Escaping makes no character printable, and none unprintable. -/
theorem printable_escapeChar {c : Char} :
    (∀ x ∈ escapeChar c, printable x = true) ↔ printable c = true := by
  by_cases h : escapeChar c = [c]
  · simp [h]
  · have hc : c = '\\' ∨ c = '"' ∨ c = '\n' ∨ c = '\r' := by
      by_contra hc
      simp only [not_or] at hc
      exact h (by simp [escapeChar, hc.1, hc.2.1, hc.2.2.1, hc.2.2.2])
    rcases hc with rfl | rfl | rfl | rfl <;> decide

theorem faithful_str_iff {key : Key} {s : Text} :
    Faithful key (.str s : Value nearest) ↔ Kept (.str s : Value nearest) := by
  have hprint : (∀ c ∈ s.flatMap escapeChar, printable c = true) ↔ ∀ c ∈ s, printable c = true := by
    simp only [List.mem_flatMap, forall_exists_index, and_imp]
    exact ⟨fun h c hc => printable_escapeChar.mp fun x hx => h x c hc hx,
      fun h x c hc hx => printable_escapeChar.mpr (h c hc) x hx⟩
  rw [Faithful, yamlScalar, escaped_eq, Value.scalar, load_quoted_iff key (reads_or_raw s), hprint]
  simp only [rawBreak_iff, Kept]
  exact ⟨fun ⟨h₁, h₂⟩ c hc => ⟨h₁ c hc, h₂ c hc⟩, fun h => ⟨fun c hc => (h c hc).1, fun c hc => (h c hc).2⟩⟩

/-! ## Plain words -/

variable {key : Key}

theorem isWordChar_of_isDigit {c : Char} (h : c.isDigit = true) : isWordChar c = true := by
  simp [isWordChar, Char.isAlphanum, h]

theorem load_bool (b : Bool) :
    load nearest (line key (if b then "true".toList else "false".toList)) = some [⟨key.text, .bool b, 0⟩] := by
  cases b with
  | true => exact load_word key false 't' ['r', 'u', 'e'] rfl (by decide)
  | false => exact load_word key false 'f' ['a', 'l', 's', 'e'] rfl (by decide)

theorem load_int (n : Int) : load nearest (line key (strInt n)) = some [⟨key.text, .int n, 0⟩] := by
  obtain ⟨c, cs, hc⟩ := List.exists_cons_of_ne_nil (Nat.toDigits_ne_nil (n := n.natAbs) (b := 10))
  have hd : ∀ x ∈ c :: cs, x.isDigit = true := fun x hx =>
    Nat.isDigit_of_mem_toDigits (by decide) (by decide) (hc ▸ hx)
  have hword : load nearest (line key (strInt n)) = some [⟨key.text, resolve nearest (strInt n), 0⟩] := by
    rw [strInt, hc]
    exact load_word key _ c cs (by simp [Char.isAlphanum, hd c List.mem_cons_self])
      fun x hx => isWordChar_of_isDigit (hd x hx)
  rw [hword, resolve_int]

/-- The text of a float is a word, whatever type that has. -/
theorem load_float (x : FloatValue) :
    load nearest (line key (floatText x)) = some [⟨key.text, resolve nearest (floatText x), 0⟩] := by
  cases x with
  | finite d =>
    obtain ⟨c, cs, hr, hc, hcs⟩ := d.exists_repr_cons
    rw [floatText, hr]
    refine load_word key d.negative c cs (by simp [Char.isAlphanum, hc]) fun x hx => ?_
    rcases hcs x hx with h | h
    · exact isWordChar_of_isDigit h
    · have : ∀ x ∈ ['.', 'e', '-', '+'], isWordChar x = true := by decide
      exact this x h
  | infinite negative => exact load_word key negative 'i' ['n', 'f'] rfl (by decide)
  | nan => exact load_word key false 'n' ['a', 'n'] rfl (by decide)

theorem pointless_iff {d : Decimal} :
    d.Pointless ↔ ¬ (d.point ≤ -4 ∨ 16 < d.point → 2 ≤ d.digits.length) := by
  have := List.length_pos_of_ne_nil d.digits_ne_nil
  rw [Decimal.Pointless, Classical.not_imp]
  exact and_congr_right fun _ => by omega

theorem faithful_float_iff (x : PyFloat nearest) : Faithful key (.float x) ↔ Kept (.float x) := by
  obtain ⟨x, hx⟩ := x
  have hload : load nearest (line key (yamlScalar (.float ⟨x, hx⟩))) =
      some [⟨key.text, resolve nearest (floatText x), 0⟩] := load_float x
  have hpoint : '.' ∉ floatText x → ¬ Faithful key (.float ⟨x, hx⟩) := by
    intro hp h
    rw [Faithful, hload, Option.some.injEq, List.cons.injEq, Entry.mk.injEq] at h
    exact resolve_ne_float hp x h.1.2.1
  cases x with
  | finite d =>
    by_cases hd : d.Pointless
    · refine iff_of_false (hpoint fun h => Decimal.point_mem_repr_iff.mp h hd) ?_
      rintro ⟨d', hd', hk⟩
      obtain rfl := FloatValue.finite.inj hd'
      exact pointless_iff.mp hd hk
    · refine iff_of_true ?_ ⟨d, rfl, not_not.mp (mt pointless_iff.mpr hd)⟩
      rw [Faithful, hload, floatText, resolve_repr hd, hx d rfl]
      rfl
  | infinite negative =>
    refine iff_of_false (hpoint ?_) fun ⟨d, hd, _⟩ => by cases hd
    cases negative <;> decide
  | nan => exact iff_of_false (hpoint (by decide)) fun ⟨d, hd, _⟩ => by cases hd

/-! ## All values -/

/-- Whatever the value is, its text never adds a key: it reads as one entry, or not at all. -/
theorem one_entry (key : Key) (v : Value nearest) {es : List Entry}
    (h : load nearest (line key (yamlScalar v)) = some es) : ∃ x n, es = [⟨key.text, x, n⟩] := by
  cases v with
  | bool b => exact ⟨_, _, (Option.some.inj ((load_bool b).symm.trans h)).symm⟩
  | int n => exact ⟨_, _, (Option.some.inj ((load_int n).symm.trans h)).symm⟩
  | float x => exact ⟨_, _, (Option.some.inj ((load_float x.val).symm.trans h)).symm⟩
  | str s =>
    rw [yamlScalar, escaped_eq, load_quoted key (reads_or_raw s)] at h
    split at h
    · obtain ⟨r, -, hr⟩ := Option.map_eq_some_iff.mp h
      exact ⟨_, _, hr.symm⟩
    · cases h

/-- **A value survives exactly when it is a boolean, an integer, a float with a point in its text, or a
string of characters YAML allows without NEL, LS and PS.** -/
theorem faithful_iff (nearest : Decimal → FloatValue) (key : Key) (v : Value nearest) :
    Faithful key v ↔ Kept v := by
  cases v with
  | bool b => exact iff_of_true (load_bool b) trivial
  | int n => exact iff_of_true (load_int n) trivial
  | float x => exact faithful_float_iff x
  | str s => exact faithful_str_iff

end Encoder

/-- The key of a setting. -/
def valueKey : Key where
  text := "value".toList
  nonempty := by decide
  plain := by decide

theorem one_lt_ten : 1 < 10 := by decide

/-- The digit one. -/
def digitOne : Fin 10 := ⟨1, one_lt_ten⟩

theorem digitOne_normal : ([digitOne] = [0] ∧ (17 : Int) = 1) ∨
    ([digitOne] ≠ [] ∧ [digitOne].head? ≠ some 0 ∧ [digitOne].getLast? ≠ some 0) := by decide

/-- The decimal of `1e+16`. -/
def tenQuadrillionDecimal : Decimal := ⟨false, [digitOne], 17, digitOne_normal⟩

theorem tenQuadrillionDecimal_finite (d : Decimal) (h : FloatValue.finite tenQuadrillionDecimal = .finite d) :
    FloatValue.finite d = .finite tenQuadrillionDecimal := h.symm

/-- `1e+16`. -/
def tenQuadrillion : PyFloat .finite := ⟨.finite tenQuadrillionDecimal, tenQuadrillionDecimal_finite⟩

/-- A string with a NEL is read with a blank in its place, and `1e+16` is read as a string. -/
theorem next_line_and_exponent_lost :
    ¬ Faithful valueKey (.str "a\u0085b".toList : Value .finite) ∧
      ¬ Faithful valueKey (.float tenQuadrillion) := by
  have hstr : load .finite (line valueKey (yamlScalar (.str "a\u0085b".toList : Value .finite))) =
      some [⟨"value".toList, .str "a b".toList, 1⟩] := by decide
  have hfloat : load .finite (line valueKey (yamlScalar (.float tenQuadrillion))) =
      some [⟨"value".toList, .str "1e+16".toList, 0⟩] := by decide
  constructor
  · rw [Faithful, hstr]
    decide
  · rw [Faithful, hfloat]
    decide

end LabInABox.Config.YamlScalar
