import Mathlib.Data.List.DropRight
import Mathlib.Data.List.Infix

/-!
# Text: blanks, fields and joining

A text is its list of characters. The reading functions here follow Python's `str` methods and the
tools that share their shape:

* `isSpace` is `str.isspace` of one character, `isDecimal` the regular expression class `\d`, and
  `isDigit` is `str.isdigit` of one character (decimal digits, and the superscript and circled
  ones).
* `fieldsBy p` cuts a text at its runs of `p` characters, as `str.split()` (`fields`) cuts at runs
  of blanks and `awk` at runs of spaces and tabs.
* `strip` is `str.strip()`, `join` is `" ".join(..)`.

Results:
* `fieldsBy_join`: the fields of joined fields are the fields.
* `fieldsBy_flatten`: cutting loses separators only.
* `fields_strip`: stripping does not change the fields.
-/

namespace LabInABox

/-- A text: its characters in order. -/
abbrev Text := List Char

instance : LawfulBEq Text := List.instLawfulBEq

/-- What holds of the characters of a text is decided along the text, not over every character there is. -/
instance decidableForallMem (p : Char → Prop) [DecidablePred p] (t : Text) : Decidable (∀ c, c ∈ t → p c) :=
  List.decidableBAll p t

/-- The same, of some character. -/
instance decidableExistsMem (p : Char → Prop) [DecidablePred p] (t : Text) : Decidable (∃ c, c ∈ t ∧ p c) :=
  List.decidableBEx p t

namespace Text

/-! ## Character classes -/

/-- `str.isspace` of one character. -/
def isSpace (c : Char) : Bool :=
  let n := c.toNat
  (9 ≤ n && n ≤ 13) || (28 ≤ n && n ≤ 32) || n == 0x85 || n == 0xA0 || n == 0x1680 ||
    (0x2000 ≤ n && n ≤ 0x200A) || n == 0x2028 || n == 0x2029 || n == 0x202F || n == 0x205F ||
    n == 0x3000

/-- The characters `str.splitlines` ends a line at. -/
def isLineBreak (c : Char) : Bool :=
  let n := c.toNat
  (10 ≤ n && n ≤ 13) || (28 ≤ n && n ≤ 30) || n == 0x85 || n == 0x2028 || n == 0x2029

/-- The code points of the digits zero: each starts a block of ten decimal digits. -/
def zeros : List Nat :=
  [0x30, 0x660, 0x6F0, 0x7C0, 0x966, 0x9E6, 0xA66, 0xAE6, 0xB66, 0xBE6, 0xC66, 0xCE6, 0xD66, 0xDE6,
    0xE50, 0xED0, 0xF20, 0x1040, 0x1090, 0x17E0, 0x1810, 0x1946, 0x19D0, 0x1A80, 0x1A90, 0x1B50,
    0x1BB0, 0x1C40, 0x1C50, 0xA620, 0xA8D0, 0xA900, 0xA9D0, 0xA9F0, 0xAA50, 0xABF0, 0xFF10, 0x104A0,
    0x10D30, 0x11066, 0x110F0, 0x11136, 0x111D0, 0x112F0, 0x11450, 0x114D0, 0x11650, 0x116C0,
    0x11730, 0x118E0, 0x11950, 0x11C50, 0x11D50, 0x11DA0, 0x16A60, 0x16AC0, 0x16B50, 0x1D7CE,
    0x1D7D8, 0x1D7E2, 0x1D7EC, 0x1D7F6, 0x1E140, 0x1E2F0, 0x1E950, 0x1FBF0]

/-- A decimal digit of any script, `\d`. -/
def isDecimal (c : Char) : Bool :=
  zeros.any fun z => z ≤ c.toNat && c.toNat < z + 10

/-- First and last code points of the digits that are not decimal (superscripts, circled ones). -/
def otherDigits : List (Nat × Nat) :=
  [(0xB2, 0xB3), (0xB9, 0xB9), (0x1369, 0x1371), (0x19DA, 0x19DA), (0x2070, 0x2070),
    (0x2074, 0x2079), (0x2080, 0x2089), (0x2460, 0x2468), (0x2474, 0x247C), (0x2488, 0x2490),
    (0x24EA, 0x24EA), (0x24F5, 0x24FD), (0x24FF, 0x24FF), (0x2776, 0x277E), (0x2780, 0x2788),
    (0x278A, 0x2792), (0x10A40, 0x10A43), (0x10E60, 0x10E68), (0x11052, 0x1105A),
    (0x1F100, 0x1F10A)]

/-- `str.isdigit` of one character. -/
def isDigit (c : Char) : Bool :=
  isDecimal c || otherDigits.any fun r => r.1 ≤ c.toNat && c.toNat ≤ r.2

/-- `str.isdigit`: a nonempty text of digits. -/
def isdigit (t : Text) : Bool := !t.isEmpty && t.all isDigit

theorem isSpace_of_isLineBreak {c : Char} (h : isLineBreak c = true) : isSpace c = true := by
  simp only [isLineBreak, Bool.or_eq_true, Bool.and_eq_true, decide_eq_true_eq, beq_iff_eq] at h
  simp only [isSpace, Bool.or_eq_true, Bool.and_eq_true, decide_eq_true_eq, beq_iff_eq]
  omega

theorem toNat_of_isAlphanum {c : Char} (h : c.isAlphanum = true) : 48 ≤ c.toNat ∧ c.toNat ≤ 122 := by
  change (decide ('A'.val ≤ c.val ∧ c.val ≤ 'Z'.val) || ('a'.val ≤ c.val && c.val ≤ 'z'.val) ||
    ('0'.val ≤ c.val && c.val ≤ '9'.val)) = true at h
  simp only [Bool.or_eq_true, Bool.and_eq_true, decide_eq_true_eq, UInt32.le_iff_toNat_le] at h
  have hval : c.toNat = c.val.toNat := rfl
  have hA : 'A'.val.toNat = 65 := rfl
  have hZ : 'Z'.val.toNat = 90 := rfl
  have ha : 'a'.val.toNat = 97 := rfl
  have hz : 'z'.val.toNat = 122 := rfl
  have h0 : '0'.val.toNat = 48 := rfl
  have h9 : '9'.val.toNat = 57 := rfl
  omega

/-- An ASCII letter or digit is no blank. -/
theorem isSpace_of_isAlphanum {c : Char} (h : c.isAlphanum = true) : isSpace c = false := by
  have hn := toNat_of_isAlphanum h
  simp only [isSpace, Bool.or_eq_false_iff, Bool.and_eq_false_iff, decide_eq_false_iff_not,
    beq_eq_false_iff_ne]
  omega

theorem isLineBreak_of_not_isSpace {c : Char} (h : isSpace c = false) : isLineBreak c = false := by
  cases hb : isLineBreak c with
  | false => rfl
  | true => rw [isSpace_of_isLineBreak hb] at h; exact absurd h (by simp)

/-! ## Fields -/

/-- Put a character at the front of the first piece. -/
def consHead (c : Char) : List Text → List Text
  | [] => [[c]]
  | l :: ls => (c :: l) :: ls

/-- The text starts inside a field. -/
def startsField (p : Char → Bool) : Text → Bool
  | [] => false
  | c :: _ => !p c

/-- The fields of a text: what its runs of `p` characters separate. -/
def fieldsBy (p : Char → Bool) : Text → List Text
  | [] => []
  | c :: cs =>
    if p c then fieldsBy p cs
    else if startsField p cs then consHead c (fieldsBy p cs)
    else [c] :: fieldsBy p cs

/-- `str.split()`. -/
def fields : Text → List Text := fieldsBy isSpace

/-- A field: not empty, and no character of it separates fields. -/
def IsField (p : Char → Bool) (f : Text) : Prop :=
  f ≠ [] ∧ ∀ c ∈ f, p c = false

instance (p : Char → Bool) (f : Text) : Decidable (IsField p f) :=
  -- by the list: over all characters it would not end
  decidable_of_iff (f ≠ [] ∧ (f.all fun c => !p c) = true) (by simp [IsField])

/-- `" ".join(..)`. -/
def join (fs : List Text) : Text := [' '].intercalate fs

section Fields

variable {p : Char → Bool}

theorem fieldsBy_cons_sep {c : Char} (h : p c = true) (cs : Text) :
    fieldsBy p (c :: cs) = fieldsBy p cs := by
  simp only [fieldsBy, if_pos h]

theorem fieldsBy_cons_cons {c d : Char} (hc : p c = false) (hd : p d = false) (cs : Text) :
    fieldsBy p (c :: d :: cs) = consHead c (fieldsBy p (d :: cs)) := by
  rw [fieldsBy]
  simp [hc, hd, startsField]

theorem fieldsBy_cons_of_not_starts {c : Char} {cs : Text} (hc : p c = false)
    (h : startsField p cs = false) : fieldsBy p (c :: cs) = [c] :: fieldsBy p cs := by
  rw [fieldsBy]
  simp [hc, h]

/-- A text that begins with a character of a field begins with its first field. -/
theorem exists_fieldsBy_cons {c : Char} (hc : p c = false) (cs : Text) :
    ∃ f fs, fieldsBy p (c :: cs) = (c :: f) :: fs := by
  rw [fieldsBy, if_neg (by simp [hc])]
  split
  · cases fieldsBy p cs with
    | nil => exact ⟨[], [], rfl⟩
    | cons f fs => exact ⟨f, fs, rfl⟩
  · exact ⟨[], fieldsBy p cs, rfl⟩

/-- A first field that another follows is the first field whatever follows them. -/
theorem head?_fieldsBy_append {u v : Text} (h : 1 < (fieldsBy p u).length) :
    (fieldsBy p (u ++ v)).head? = (fieldsBy p u).head? := by
  induction u with
  | nil => exact absurd h (by simp [fieldsBy])
  | cons c cs ih =>
    by_cases hc : p c = true
    · rw [fieldsBy_cons_sep hc] at h ⊢
      rw [List.cons_append, fieldsBy_cons_sep hc]
      exact ih h
    · rw [Bool.not_eq_true] at hc
      cases cs with
      | nil =>
        rw [fieldsBy_cons_of_not_starts hc rfl] at h
        exact absurd h (by simp [fieldsBy])
      | cons d ds =>
        by_cases hd : p d = true
        · have hs : ∀ w, startsField p (d :: w) = false := fun w => by rw [startsField, hd]; rfl
          rw [List.cons_append, List.cons_append, fieldsBy_cons_of_not_starts hc (hs _),
            fieldsBy_cons_of_not_starts hc (hs _)]
          rfl
        · rw [Bool.not_eq_true] at hd
          rw [fieldsBy_cons_cons hc hd] at h
          rw [List.cons_append, List.cons_append, fieldsBy_cons_cons hc hd,
            fieldsBy_cons_cons hc hd]
          obtain ⟨f, fs, hf⟩ := exists_fieldsBy_cons hd ds
          obtain ⟨g, gs, hg⟩ := exists_fieldsBy_cons hd (ds ++ v)
          rw [hf] at h ih
          rw [hf, hg]
          have hih := ih h
          rw [List.cons_append, hg] at hih
          obtain ⟨-, rfl⟩ := List.cons.inj (Option.some.inj hih)
          rfl

/-- A field, then a separator or the end, is cut off as it is. -/
theorem fieldsBy_append {f rest : Text} (hf : IsField p f) (hr : startsField p rest = false) :
    fieldsBy p (f ++ rest) = f :: fieldsBy p rest := by
  obtain ⟨hne, hall⟩ := hf
  induction f with
  | nil => exact absurd rfl hne
  | cons c cs ih =>
    have hc := hall c List.mem_cons_self
    cases cs with
    | nil => exact fieldsBy_cons_of_not_starts hc hr
    | cons d ds =>
      have hd := hall d (List.mem_cons_of_mem _ List.mem_cons_self)
      have ih' := ih (List.cons_ne_nil d ds) (fun x hx => hall x (List.mem_cons_of_mem _ hx))
      show fieldsBy p (c :: d :: (ds ++ rest)) = _
      rw [fieldsBy_cons_cons hc hd]
      show consHead c (fieldsBy p ((d :: ds) ++ rest)) = _
      rw [ih']
      rfl

@[simp] theorem fieldsBy_nil : fieldsBy p [] = [] := rfl

/-- Only the separators of the text itself matter. -/
theorem fieldsBy_congr {q : Char → Bool} {t : Text} (h : ∀ c ∈ t, p c = q c) :
    fieldsBy p t = fieldsBy q t := by
  induction t with
  | nil => rfl
  | cons c cs ih =>
    have hcs : ∀ x ∈ cs, p x = q x := fun x hx => h x (List.mem_cons_of_mem _ hx)
    have hstarts : startsField p cs = startsField q cs := by
      cases cs with
      | nil => rfl
      | cons d ds => rw [startsField, startsField, hcs d List.mem_cons_self]
    rw [fieldsBy, fieldsBy, h c List.mem_cons_self, hstarts, ih hcs]

theorem fieldsBy_of_isField {f : Text} (hf : IsField p f) : fieldsBy p f = [f] := by
  have h : fieldsBy p (f ++ []) = f :: fieldsBy p [] := fieldsBy_append hf rfl
  rwa [List.append_nil] at h

theorem fieldsBy_append_sep {f : Text} {s : Char} (hf : IsField p f) (hs : p s = true)
    (rest : Text) : fieldsBy p (f ++ s :: rest) = f :: fieldsBy p rest := by
  rw [fieldsBy_append hf (by simp [startsField, hs]), fieldsBy_cons_sep hs]

/-- Separators in front change nothing. -/
theorem fieldsBy_blank_append {b : Text} (hb : ∀ c ∈ b, p c = true) (t : Text) :
    fieldsBy p (b ++ t) = fieldsBy p t := by
  induction b with
  | nil => rfl
  | cons c cs ih =>
    rw [List.cons_append, fieldsBy_cons_sep (hb c List.mem_cons_self)]
    exact ih fun x hx => hb x (List.mem_cons_of_mem _ hx)

theorem fieldsBy_eq_nil_of_blank {b : Text} (hb : ∀ c ∈ b, p c = true) : fieldsBy p b = [] := by
  have h := fieldsBy_blank_append hb []
  rwa [List.append_nil] at h

/-- **Cutting at a separator.** What stands before one and what stands after it are cut apart. -/
theorem fieldsBy_append_cons_sep {s : Char} (hs : p s = true) (t u : Text) :
    fieldsBy p (t ++ s :: u) = fieldsBy p t ++ fieldsBy p u := by
  induction t with
  | nil => rw [List.nil_append, fieldsBy_cons_sep hs]; rfl
  | cons c cs ih =>
    rw [List.cons_append]
    cases hc : p c with
    | true => rw [fieldsBy_cons_sep hc, fieldsBy_cons_sep hc, ih]
    | false =>
      cases cs with
      | nil =>
        rw [List.nil_append, fieldsBy_cons_of_not_starts hc (by simp [startsField, hs]),
          fieldsBy_cons_sep hs, fieldsBy_cons_of_not_starts hc rfl]
        rfl
      | cons d ds =>
        rw [List.cons_append] at ih ⊢
        cases hd : p d with
        | true =>
          rw [fieldsBy_cons_of_not_starts hc (by simp [startsField, hd]),
            fieldsBy_cons_of_not_starts hc (by simp [startsField, hd]), ih]
          rfl
        | false =>
          rw [fieldsBy_cons_cons hc hd, fieldsBy_cons_cons hc hd, ih]
          have hne : fieldsBy p (d :: ds) ≠ [] := by
            rw [fieldsBy]
            simp only [hd, Bool.false_eq_true, if_false]
            split
            · cases fieldsBy p ds <;> simp [consHead]
            · simp
          obtain ⟨l, ls, hl⟩ := List.exists_cons_of_ne_nil hne
          rw [hl]
          rfl

/-- Separators behind change nothing. -/
theorem fieldsBy_append_blank {b : Text} (hb : ∀ c ∈ b, p c = true) (t : Text) :
    fieldsBy p (t ++ b) = fieldsBy p t := by
  cases b with
  | nil => rw [List.append_nil]
  | cons c cs =>
    rw [fieldsBy_append_cons_sep (hb c List.mem_cons_self),
      fieldsBy_eq_nil_of_blank fun x hx => hb x (List.mem_cons_of_mem _ hx), List.append_nil]

/-- **Cutting loses separators only.** -/
theorem fieldsBy_flatten (t : Text) : (fieldsBy p t).flatten = t.filter (fun c => !p c) := by
  induction t with
  | nil => rfl
  | cons c cs ih =>
    rw [fieldsBy]
    split
    · rename_i h
      rw [ih, List.filter_cons_of_neg (by simp [h])]
    · rename_i h
      rw [List.filter_cons_of_pos (by simpa using h), ← ih]
      split
      · cases fieldsBy p cs <;> rfl
      · rfl

theorem isField_of_mem_fieldsBy {t f : Text} (h : f ∈ fieldsBy p t) : IsField p f := by
  induction t generalizing f with
  | nil => exact absurd h List.not_mem_nil
  | cons c cs ih =>
    rw [fieldsBy] at h
    split at h
    · exact ih h
    · rename_i hc
      have hc' : p c = false := by simpa using hc
      have hsingle : IsField p [c] := ⟨List.cons_ne_nil _ _, by simpa using hc'⟩
      split at h
      · cases hcs : fieldsBy p cs with
        | nil =>
          rw [hcs] at h
          exact List.mem_singleton.mp h ▸ hsingle
        | cons l ls =>
          rw [hcs] at h ih
          rcases List.mem_cons.mp h with rfl | h
          · refine ⟨List.cons_ne_nil _ _, fun x hx => ?_⟩
            rcases List.mem_cons.mp hx with rfl | hx
            · exact hc'
            · exact (ih List.mem_cons_self).2 x hx
          · exact ih (List.mem_cons_of_mem _ h)
      · rcases List.mem_cons.mp h with rfl | h
        · exact hsingle
        · exact ih h

theorem fieldsBy_eq_nil_iff {t : Text} : fieldsBy p t = [] ↔ ∀ c ∈ t, p c = true := by
  refine ⟨fun h c hc => ?_, fieldsBy_eq_nil_of_blank⟩
  have hf := fieldsBy_flatten (p := p) t
  rw [h] at hf
  have := List.filter_eq_nil_iff.mp hf.symm c hc
  simpa using this

end Fields

/-! ## Joining -/

@[simp] theorem join_nil : join [] = [] := rfl

@[simp] theorem join_singleton (f : Text) : join [f] = f := List.intercalate_singleton

theorem join_cons_cons (f g : Text) (fs : List Text) :
    join (f :: g :: fs) = f ++ ' ' :: join (g :: fs) := by
  simp [join, List.intercalate_cons_cons]

/-- **Fields survive joining**, when a space separates fields. -/
theorem fieldsBy_join {p : Char → Bool} (hp : p ' ' = true) :
    ∀ {fs : List Text}, (∀ f ∈ fs, IsField p f) → fieldsBy p (join fs) = fs
  | [], _ => rfl
  | [f], h => by rw [join_singleton, fieldsBy_of_isField (h f List.mem_cons_self)]
  | f :: g :: fs, h => by
    rw [join_cons_cons, fieldsBy_append_sep (h f List.mem_cons_self) hp,
      fieldsBy_join hp fun x hx => h x (List.mem_cons_of_mem _ hx)]

theorem mem_join {c : Char} : ∀ {fs : List Text}, c ∈ join fs → c = ' ' ∨ ∃ f ∈ fs, c ∈ f
  | [], h => absurd h List.not_mem_nil
  | [f], h => Or.inr ⟨f, List.mem_cons_self, by rwa [join_singleton] at h⟩
  | f :: g :: fs, h => by
    rw [join_cons_cons] at h
    rcases List.mem_append.mp h with h | h
    · exact Or.inr ⟨f, List.mem_cons_self, h⟩
    · rcases List.mem_cons.mp h with h | h
      · exact Or.inl h
      · rcases mem_join h with h | ⟨x, hx, hc⟩
        · exact Or.inl h
        · exact Or.inr ⟨x, List.mem_cons_of_mem _ hx, hc⟩

theorem mem_join_of_mem {c : Char} {f : Text} (hc : c ∈ f) :
    ∀ {fs : List Text}, f ∈ fs → c ∈ join fs
  | [g], h => by rwa [join_singleton, ← List.mem_singleton.mp h]
  | g :: g' :: fs, h => by
    rw [join_cons_cons, List.mem_append, List.mem_cons]
    rcases List.mem_cons.mp h with rfl | h
    · exact Or.inl hc
    · exact Or.inr (Or.inr (mem_join_of_mem hc h))

theorem isSpace_space : isSpace ' ' = true := by decide

theorem fields_join {fs : List Text} (h : ∀ f ∈ fs, IsField isSpace f) : fields (join fs) = fs :=
  fieldsBy_join isSpace_space h

/-! ## Stripping -/

/-- `str.strip()`. -/
def strip (t : Text) : Text := (t.dropWhile isSpace).rdropWhile isSpace

theorem strip_eq_nil_iff {t : Text} : strip t = [] ↔ ∀ c ∈ t, isSpace c = true := by
  rw [strip, List.rdropWhile_eq_nil_iff]
  constructor
  · intro h c hc
    rw [← List.takeWhile_append_dropWhile (p := isSpace) (l := t)] at hc
    rcases List.mem_append.mp hc with hc | hc
    · exact List.mem_takeWhile_imp hc
    · exact h c hc
  · exact fun h c hc => h c (List.dropWhile_subset _ hc)

/-- **Stripping does not change the fields.** -/
theorem fields_strip (t : Text) : fields (strip t) = fields t := by
  have h1 : ∀ c ∈ t.takeWhile isSpace, isSpace c = true := fun c hc => List.mem_takeWhile_imp hc
  have h2 : ∀ c ∈ (t.dropWhile isSpace).rtakeWhile isSpace, isSpace c = true :=
    fun c hc => List.mem_rtakeWhile_imp hc
  calc fields (strip t)
      = fields (strip t ++ (t.dropWhile isSpace).rtakeWhile isSpace) :=
        (fieldsBy_append_blank h2 _).symm
    _ = fields (t.dropWhile isSpace) := by rw [strip, List.rdropWhile_append_rtakeWhile]
    _ = fields (t.takeWhile isSpace ++ t.dropWhile isSpace) := (fieldsBy_blank_append h1 _).symm
    _ = fields t := by rw [List.takeWhile_append_dropWhile]

/-- A text with no blank at either end is its own strip. -/
theorem strip_eq_self {t : Text} (hh : ∀ c, t.head? = some c → isSpace c = false)
    (hl : ∀ c, t.getLast? = some c → isSpace c = false) : strip t = t := by
  have h1 : t.dropWhile isSpace = t := by
    cases t with
    | nil => rfl
    | cons c cs => rw [List.dropWhile_cons_of_neg (by rw [hh c rfl]; simp)]
  rw [strip, h1, List.rdropWhile_eq_self_iff]
  intro hne
  rw [hl _ (List.getLast?_eq_some_getLast hne)]
  simp

/-- Trailing blanks go. -/
theorem strip_of_isField {f : Text} (h : IsField isSpace f) : strip f = f :=
  strip_eq_self (fun _ hc => h.2 _ (List.mem_of_mem_head? hc)) fun _ hc =>
    h.2 _ (List.mem_of_mem_getLast? hc)

theorem strip_append_blank {t b : Text} (ht : t ≠ []) (hh : ∀ c, t.head? = some c → isSpace c = false)
    (hl : ∀ c, t.getLast? = some c → isSpace c = false) (hb : ∀ c ∈ b, isSpace c = true) :
    strip (t ++ b) = t := by
  have h1 : (t ++ b).dropWhile isSpace = t ++ b := by
    cases t with
    | nil => exact absurd rfl ht
    | cons c cs => rw [List.cons_append, List.dropWhile_cons_of_neg (by rw [hh c rfl]; simp)]
  rw [strip, h1, List.rdropWhile, List.reverse_append,
    List.dropWhile_append_of_pos (by simpa using hb)]
  have h3 : t.rdropWhile isSpace = t := List.rdropWhile_eq_self_iff.mpr fun hne => by
    rw [hl _ (List.getLast?_eq_some_getLast hne)]
    simp
  exact h3

end Text

end LabInABox
