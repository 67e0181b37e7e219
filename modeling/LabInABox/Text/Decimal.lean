import LabInABox.Text.Fields
import Mathlib.Data.List.DropRight

/-!
# Decimals, as a float is written

A `Decimal` is `± 0.d₁d₂…dₙ · 10^point`, with no zero digit at either end. Each number has one, so
two decimals are equal iff the numbers and the signs are.

* `repr` is the text Python's `str` gives for a float whose shortest decimal this is: an exponent
  when `point` is outside `-3 … 16`, and otherwise always a point with a digit on both sides.
* `read` takes a text with a point apart: the digits on its two sides, without underscores, and
  the exponent.

Results:
* `ofParts_eq`: the decimal of the digits on the two sides of a point, wherever the zeros are.
* `read_repr`: a decimal is read back from its text.
* `point_mem_repr_iff`: the text has no point exactly when it is one digit and an exponent.
-/

namespace LabInABox.Text

/-! ## Digits -/

/-- The character of a digit. -/
def charOf (d : Fin 10) : Char := Nat.digitChar d

/-- The digit of a character. -/
def digitOf (c : Char) : Option (Fin 10) := (List.finRange 10).find? fun d => charOf d = c

/-- The digits of a text, whatever stands between them. -/
def digitsIn (t : Text) : List (Fin 10) := t.filterMap digitOf

@[simp] theorem digitOf_charOf (d : Fin 10) : digitOf (charOf d) = some d := by
  revert d
  decide

@[simp] theorem digitsIn_map (ds : List (Fin 10)) : digitsIn (ds.map charOf) = ds := by
  induction ds with
  | nil => rfl
  | cons d ds ih => simp [digitsIn]

@[simp] theorem isDigit_charOf (d : Fin 10) : (charOf d).isDigit = true := by
  revert d
  decide

/-- The value of a hexadecimal digit. -/
def hexDigit (c : Char) : Option Nat :=
  if c.isDigit then some (c.toNat - '0'.toNat)
  else if 'a' ≤ c ∧ c ≤ 'f' then some (c.toNat - 'a'.toNat + 10)
  else if 'A' ≤ c ∧ c ≤ 'F' then some (c.toNat - 'A'.toNat + 10)
  else none

/-- The sign of a number, when it is written. -/
def sign (negative : Bool) : Text := if negative then ['-'] else []

/-- A number without its sign. -/
def unsigned (t : Text) : Text := if t.head? = some '-' ∨ t.head? = some '+' then t.tail else t

theorem unsigned_sign (negative : Bool) {t : Text} (hm : t.head? ≠ some '-') (hp : t.head? ≠ some '+') :
    unsigned (sign negative ++ t) = t ∧ decide ((sign negative ++ t).head? = some '-') = negative := by
  cases negative with
  | true => exact ⟨by simp [unsigned, sign], by simp [sign]⟩
  | false => exact ⟨by simp [unsigned, sign, hm, hp], by simpa [sign] using hm⟩

/-- An integer, as Python's `str` writes it. -/
def strInt (n : Int) : Text := sign (n < 0) ++ Nat.toDigits 10 n.natAbs

/-- A number other than zero is not written with a leading zero. -/
theorem head?_toDigits (n : Nat) (h : n ≠ 0) : (Nat.toDigits 10 n).head? ≠ some '0' := by
  induction n using Nat.strongRecOn with
  | ind n ih =>
    by_cases hlt : n < 10
    · rw [Nat.toDigits_of_lt_base hlt]
      have : ∀ k < 10, k ≠ 0 → [Nat.digitChar k].head? ≠ some '0' := by decide
      exact this n hlt h
    · rw [Nat.toDigits_of_base_le (by decide) (by omega), List.head?_append_of_ne_nil _ Nat.toDigits_ne_nil]
      exact ih (n / 10) (by omega) (by omega)

/-- An integer with its sign, and two digits at least. -/
def exponent (e : Int) : Text :=
  let ds := Nat.toDigits 10 e.natAbs
  (if e < 0 then '-' else '+') :: (if ds.length < 2 then '0' :: ds else ds)

/-- The integer of a sign and digits, `0` when there is neither. -/
def readExponent : Text → Int
  | '-' :: ds => -(Nat.ofDigitChars 10 ds 0 : Int)
  | '+' :: ds => (Nat.ofDigitChars 10 ds 0 : Int)
  | _ => 0

theorem exists_exponent (e : Int) : ∃ ds : Text, exponent e = (if e < 0 then '-' else '+') :: ds ∧
    ds ≠ [] ∧ (∀ c ∈ ds, c.isDigit = true) ∧ Nat.ofDigitChars 10 ds 0 = e.natAbs := by
  have hd : ∀ c ∈ Nat.toDigits 10 e.natAbs, c.isDigit = true := fun c hc =>
    Nat.isDigit_of_mem_toDigits (by decide) (by decide) hc
  refine ⟨_, rfl, ?_⟩
  split
  · refine ⟨List.cons_ne_nil _ _, fun c hc => ?_, ?_⟩
    · rcases List.mem_cons.mp hc with rfl | hc
      · rfl
      · exact hd c hc
    · simp [Nat.ofDigitChars_cons]
  · exact ⟨Nat.toDigits_ne_nil, hd, Nat.ofDigitChars_ten_toDigits⟩

theorem readExponent_exponent (e : Int) : readExponent (exponent e) = e := by
  obtain ⟨ds, he, -, -, hv⟩ := exists_exponent e
  rw [he]
  by_cases h : e < 0
  · simp only [h, if_true, readExponent, hv]
    omega
  · simp only [h, if_false, readExponent, hv]
    omega

/-! ## Decimals -/

/-- `± 0.d₁d₂…dₙ · 10^point`, with no zero at either end; zero is `± 0.0 · 10`. -/
structure Decimal where
  negative : Bool
  digits : List (Fin 10)
  point : Int
  normal : (digits = [0] ∧ point = 1) ∨
    (digits ≠ [] ∧ digits.head? ≠ some 0 ∧ digits.getLast? ≠ some 0)
  deriving DecidableEq

/-- Digits without the zeros at the two ends. -/
def trimZeros (ds : List (Fin 10)) : List (Fin 10) := (ds.dropWhile (· = 0)).rdropWhile (· = 0)

theorem trimZeros_normal {ds : List (Fin 10)} (h : trimZeros ds ≠ []) :
    trimZeros ds ≠ [] ∧ (trimZeros ds).head? ≠ some 0 ∧ (trimZeros ds).getLast? ≠ some 0 := by
  refine ⟨h, fun h0 => ?_, fun h0 => ?_⟩
  · -- what is cut off at the end leaves the first digit
    have hpre : trimZeros ds <+: ds.dropWhile (· = 0) := List.rdropWhile_prefix _ _
    obtain ⟨rest, hrest⟩ := hpre
    have hhead : (ds.dropWhile (· = 0)).head? = some 0 := by
      rw [← hrest, List.head?_append, h0]
      rfl
    have := List.head?_dropWhile_not (fun d : Fin 10 => decide (d = 0)) ds
    rw [hhead] at this
    simp at this
  · have := List.rdropWhile_last_not (fun d : Fin 10 => decide (d = 0)) (ds.dropWhile (· = 0)) h
    rw [List.getLast?_eq_some_getLast h] at h0
    exact this (decide_eq_true (Option.some.inj h0))

namespace Decimal

/-- The decimal of the digits before and after a point, times a power of ten. -/
def ofParts (negative : Bool) (whole frac : List (Fin 10)) (e : Int) : Decimal :=
  if h : trimZeros (whole ++ frac) = [] then ⟨negative, [0], 1, Or.inl ⟨rfl, rfl⟩⟩
  else ⟨negative, trimZeros (whole ++ frac),
    whole.length + e - ((whole ++ frac).takeWhile (· = 0)).length, Or.inr (trimZeros_normal h)⟩

/-- The text of a float whose shortest decimal this is. -/
def repr (d : Decimal) : Text :=
  sign d.negative ++
    if d.point ≤ -4 ∨ 16 < d.point then
      (d.digits.take 1).map charOf ++
        ((if d.digits.length ≤ 1 then [] else '.' :: (d.digits.drop 1).map charOf) ++
          'e' :: exponent (d.point - 1))
    else if d.point ≤ 0 then
      ['0'] ++ '.' :: (List.replicate (-d.point).toNat 0 ++ d.digits).map charOf
    else
      (d.digits.take d.point.toNat ++
        List.replicate (d.point.toNat - d.digits.length) 0).map charOf ++
        '.' :: (if d.digits.length ≤ d.point.toNat then [0] else d.digits.drop d.point.toNat).map charOf

/-- The decimal a text with a point stands for. -/
def read (t : Text) : Decimal :=
  let rest := ((unsigned t).dropWhile (· ≠ '.')).tail
  ofParts (t.head? = some '-') (digitsIn ((unsigned t).takeWhile (· ≠ '.')))
    (digitsIn (rest.takeWhile fun c => c ≠ 'e' ∧ c ≠ 'E'))
    (readExponent (rest.dropWhile fun c => c ≠ 'e' ∧ c ≠ 'E').tail)

/-! ## Reading back -/

theorem ext_parts {d d' : Decimal} (hn : d.negative = d'.negative) (hd : d.digits = d'.digits)
    (hp : d.point = d'.point) : d = d' := by
  cases d
  cases d'
  simp only at hn hd hp
  subst hn hd hp
  rfl

theorem digits_ne_nil (d : Decimal) : d.digits ≠ [] := by
  rcases d.normal with ⟨h, -⟩ | ⟨h, -⟩
  · simp [h]
  · exact h

theorem takeWhile_zeros {ds : List (Fin 10)} (h : ds.head? ≠ some 0) (hne : ds ≠ []) (a : Nat)
    (rest : List (Fin 10)) :
    ((List.replicate a 0 ++ ds ++ rest).takeWhile (· = 0)).length = a := by
  obtain ⟨x, xs, rfl⟩ := List.exists_cons_of_ne_nil hne
  have hx : x ≠ 0 := fun e => h (by rw [e]; rfl)
  induction a with
  | zero => simp [hx]
  | succ a ih => simpa [List.replicate_succ] using ih

theorem trimZeros_zeros {ds : List (Fin 10)} (hne : ds ≠ []) (h : ds.head? ≠ some 0)
    (hl : ds.getLast? ≠ some 0) (a b : Nat) :
    trimZeros (List.replicate a 0 ++ ds ++ List.replicate b 0) = ds := by
  have hdrop : (List.replicate a (0 : Fin 10) ++ ds ++ List.replicate b 0).dropWhile (· = 0) =
      ds ++ List.replicate b 0 := by
    obtain ⟨x, xs, rfl⟩ := List.exists_cons_of_ne_nil hne
    have hx : x ≠ 0 := fun e => h (by rw [e]; rfl)
    rw [List.append_assoc, List.dropWhile_append_of_pos (fun d hd => by simp [List.eq_of_mem_replicate hd])]
    simp [hx]
  rw [trimZeros, hdrop]
  clear hdrop
  induction b with
  | zero =>
    rw [List.replicate_zero, List.append_nil, List.rdropWhile_eq_self_iff]
    exact fun hds h0 => hl (by rw [List.getLast?_eq_some_getLast hds, of_decide_eq_true h0])
  | succ b ih =>
    rw [List.replicate_succ', ← List.append_assoc, List.rdropWhile_concat_pos _ _ _ (by simp)]
    exact ih

/-- The digits may stand anywhere between zeros, as long as the point is counted with them. -/
theorem ofParts_eq (d : Decimal) {whole frac : List (Fin 10)} {e : Int} {a b : Nat}
    (hds : whole ++ frac = List.replicate a 0 ++ d.digits ++ List.replicate b 0)
    (hp : d.digits ≠ [0] → d.point = whole.length + e - a) :
    ofParts d.negative whole frac e = d := by
  rcases d.normal with ⟨h0, h1⟩ | ⟨hne, hh, hl⟩
  · have hnil : trimZeros (whole ++ frac) = [] := by
      rw [hds, h0, trimZeros, List.rdropWhile_eq_nil_iff]
      intro x hx
      have hmem := (List.dropWhile_sublist fun d : Fin 10 => decide (d = 0)).subset hx
      simp only [List.mem_append, List.mem_replicate, List.mem_singleton] at hmem
      rw [decide_eq_true_eq]
      omega
    rw [ofParts, dif_pos hnil]
    exact ext_parts rfl h0.symm h1.symm
  · have htrim : trimZeros (whole ++ frac) = d.digits := by rw [hds, trimZeros_zeros hne hh hl]
    have hne' : trimZeros (whole ++ frac) ≠ [] := htrim ▸ hne
    rw [ofParts, dif_neg hne']
    have hlead : ((whole ++ frac).takeWhile (· = 0)).length = a := by rw [hds, takeWhile_zeros hh hne]
    refine ext_parts rfl htrim ?_
    simp only [hlead, hp fun h => hh (by rw [h]; rfl)]

/-- One digit and an exponent: the only form without a point. -/
def Pointless (d : Decimal) : Prop := (d.point ≤ -4 ∨ 16 < d.point) ∧ d.digits.length = 1

instance (d : Decimal) : Decidable d.Pointless := inferInstanceAs (Decidable (_ ∧ _))

/-- The text in parts that are read back as the number: digits without a needless zero in front, then a
point and digits, or an exponent, or both. -/
theorem exists_parts (d : Decimal) : ∃ (whole frac : List (Fin 10)) (tail : Text),
    whole ≠ [] ∧ (whole = [0] ∨ whole.head? ≠ some 0) ∧ (frac = [] ↔ d.Pointless) ∧
      d.repr = sign d.negative ++
        (whole.map charOf ++ ((if frac = [] then [] else '.' :: frac.map charOf) ++ tail)) ∧
      (tail = [] ∧ frac ≠ [] ∨ ∃ e, tail = 'e' :: exponent e) ∧
      ofParts d.negative whole frac (readExponent tail.tail) = d := by
  have hlen : 0 < d.digits.length := List.length_pos_of_ne_nil d.digits_ne_nil
  by_cases hexp : d.point ≤ -4 ∨ 16 < d.point
  · have hfrac : d.digits.drop 1 = [] ↔ d.digits.length ≤ 1 := List.drop_eq_nil_iff
    refine ⟨d.digits.take 1, d.digits.drop 1, 'e' :: exponent (d.point - 1), ?_, ?_, ?_, ?_,
      Or.inr ⟨_, rfl⟩, ?_⟩
    · simpa using d.digits_ne_nil
    · rcases d.normal with ⟨-, h1⟩ | ⟨-, hh, -⟩
      · omega
      · right
        rwa [List.head?_take, if_neg (by omega)]
    · rw [hfrac, Pointless]
      exact ⟨fun h => ⟨hexp, by omega⟩, fun h => h.2.le⟩
    · rw [repr, if_pos hexp]
      by_cases h1 : d.digits.length ≤ 1
      · rw [if_pos h1, if_pos (hfrac.mpr h1)]
      · rw [if_neg h1, if_neg (mt hfrac.mp h1)]
    · rw [List.tail_cons, readExponent_exponent]
      refine ofParts_eq d (a := 0) (b := 0) (by rw [List.take_append_drop]; simp) fun _ => ?_
      rw [List.length_take, Nat.min_eq_left hlen]
      omega
  · have hpoint : ¬ d.Pointless := fun h => hexp h.1
    by_cases hzero : d.point ≤ 0
    · have hne : List.replicate (-d.point).toNat 0 ++ d.digits ≠ [] := by simp [d.digits_ne_nil]
      refine ⟨[0], List.replicate (-d.point).toNat 0 ++ d.digits, [], List.cons_ne_nil _ _, Or.inl rfl,
        iff_of_false hne hpoint, ?_, Or.inl ⟨rfl, hne⟩, ?_⟩
      · rw [repr, if_neg hexp, if_pos hzero, if_neg hne, List.append_nil]
        rfl
      · refine ofParts_eq d (a := (-d.point).toNat + 1) (b := 0)
          (by simp [List.replicate_succ]) fun _ => ?_
        simp only [List.length_singleton, List.tail_nil, readExponent]
        omega
    · have hne : (if d.digits.length ≤ d.point.toNat then [0] else d.digits.drop d.point.toNat) ≠ [] := by
        split
        · exact List.cons_ne_nil _ _
        · rename_i h
          exact mt List.drop_eq_nil_iff.mp h
      refine ⟨d.digits.take d.point.toNat ++ List.replicate (d.point.toNat - d.digits.length) 0,
        if d.digits.length ≤ d.point.toNat then [0] else d.digits.drop d.point.toNat, [], ?_, ?_,
        iff_of_false hne hpoint, ?_, Or.inl ⟨rfl, hne⟩, ?_⟩
      · have : 0 < d.point.toNat := by omega
        simp [List.take_eq_nil_iff, d.digits_ne_nil]
        omega
      · rcases d.normal with ⟨h0, h1⟩ | ⟨-, hh, -⟩
        · left
          rw [h0, h1]
          rfl
        · right
          rw [List.head?_append, List.head?_take, if_neg (by omega)]
          obtain ⟨x, xs, hx⟩ := List.exists_cons_of_ne_nil d.digits_ne_nil
          rw [hx] at hh ⊢
          exact hh
      · rw [repr, if_neg hexp, if_neg hzero, if_neg hne, List.append_nil]
      · by_cases hle : d.digits.length ≤ d.point.toNat
        · rw [if_pos hle]
          refine ofParts_eq d (a := 0) (b := d.point.toNat - d.digits.length + 1) ?_ fun _ => ?_
          · rw [List.take_of_length_le hle, List.replicate_succ']
            simp
          · simp only [List.length_append, List.length_replicate, List.take_of_length_le hle,
              List.tail_nil, readExponent]
            omega
        · rw [if_neg hle]
          refine ofParts_eq d (a := 0) (b := 0) ?_ fun _ => ?_
          · rw [Nat.sub_eq_zero_of_le (by omega)]
            simp
          · simp only [List.length_append, List.length_replicate, List.length_take, List.tail_nil,
              readExponent]
            omega

/-- The parts of a text with a point. -/
theorem exists_repr {d : Decimal} (h : ¬ d.Pointless) : ∃ (whole frac : List (Fin 10)) (tail : Text),
    whole ≠ [] ∧ d.repr = sign d.negative ++ (whole.map charOf ++ '.' :: (frac.map charOf ++ tail)) ∧
      (tail = [] ∨ ∃ e, tail = 'e' :: exponent e) ∧
      ofParts d.negative whole frac (readExponent tail.tail) = d := by
  obtain ⟨whole, frac, tail, hw, -, hf, hr, ht, hd⟩ := d.exists_parts
  rw [if_neg (mt hf.mp h)] at hr
  exact ⟨whole, frac, tail, hw, hr, ht.imp_left And.left, hd⟩

/-- The characters of the text: a digit first, behind the sign. -/
theorem exists_repr_cons (d : Decimal) : ∃ (c : Char) (cs : Text), d.repr = sign d.negative ++ c :: cs ∧
    c.isDigit = true ∧ ∀ x ∈ c :: cs, x.isDigit = true ∨ x ∈ ['.', 'e', '-', '+'] := by
  have hmap : ∀ (ds : List (Fin 10)), ∀ x ∈ ds.map charOf, x.isDigit = true := by
    intro ds x hx
    obtain ⟨y, -, rfl⟩ := List.mem_map.mp hx
    exact isDigit_charOf y
  by_cases h : d.Pointless
  · obtain ⟨ds, he, -, hds, -⟩ := exists_exponent (d.point - 1)
    obtain ⟨x, xs, hx⟩ := List.exists_cons_of_ne_nil d.digits_ne_nil
    refine ⟨charOf x, 'e' :: exponent (d.point - 1), ?_, isDigit_charOf x, fun y hy => ?_⟩
    · rw [repr, if_pos h.1, if_pos h.2.le, hx]
      rfl
    · rw [he] at hy
      simp only [List.mem_cons] at hy
      rcases hy with rfl | rfl | rfl | hy
      · exact Or.inl (isDigit_charOf x)
      · simp
      · split <;> simp
      · exact Or.inl (hds y hy)
  · obtain ⟨whole, frac, tail, hw, hr, ht, -⟩ := exists_repr h
    obtain ⟨x, xs, rfl⟩ := List.exists_cons_of_ne_nil hw
    refine ⟨charOf x, xs.map charOf ++ '.' :: (frac.map charOf ++ tail), hr, isDigit_charOf x, fun y hy => ?_⟩
    have htail : ∀ y ∈ tail, y.isDigit = true ∨ y ∈ ['.', 'e', '-', '+'] := by
      intro y hy
      rcases ht with rfl | ⟨e, rfl⟩
      · exact absurd hy List.not_mem_nil
      · obtain ⟨ds, he, -, hds, -⟩ := exists_exponent e
        rw [he] at hy
        simp only [List.mem_cons] at hy
        rcases hy with rfl | rfl | hy
        · simp
        · split <;> simp
        · exact Or.inl (hds y hy)
    simp only [List.mem_cons, List.mem_append] at hy
    rcases hy with rfl | hy | rfl | hy | hy
    · exact Or.inl (isDigit_charOf x)
    · exact Or.inl (hmap xs y hy)
    · simp
    · exact Or.inl (hmap frac y hy)
    · exact htail y hy

theorem charOf_ne {c : Char} (hc : c.isDigit = false) (d : Fin 10) : charOf d ≠ c := fun e => by
  have := isDigit_charOf d
  rw [e, hc] at this
  cases this

theorem takeWhile_digits {p : Char → Bool} (hp : ∀ d, p (charOf d) = true) (ds : List (Fin 10))
    (tail : Text) (ht : ∀ c, tail.head? = some c → p c = false) :
    (ds.map charOf ++ tail).takeWhile p = ds.map charOf ∧
      (ds.map charOf ++ tail).dropWhile p = tail := by
  have hall : ∀ c ∈ ds.map charOf, p c = true := by
    intro c hc
    obtain ⟨d, -, rfl⟩ := List.mem_map.mp hc
    exact hp d
  rw [List.takeWhile_append_of_pos hall, List.dropWhile_append_of_pos hall]
  cases tail with
  | nil => simp
  | cons c cs => simp [ht c rfl]

theorem read_parts (negative : Bool) {whole : List (Fin 10)} (hw : whole ≠ []) (frac : List (Fin 10))
    {tail : Text} (ht : tail = [] ∨ ∃ x, tail = 'e' :: x) :
    read (sign negative ++ (whole.map charOf ++ '.' :: (frac.map charOf ++ tail))) =
      ofParts negative whole frac (readExponent tail.tail) := by
  obtain ⟨d, ds, rfl⟩ := List.exists_cons_of_ne_nil hw
  have hwhole := takeWhile_digits (p := (· ≠ '.')) (fun x => decide_eq_true (charOf_ne rfl x)) (d :: ds)
    ('.' :: (frac.map charOf ++ tail)) fun c hc => by
      rw [← Option.some.inj hc]
      rfl
  have hfrac := takeWhile_digits (p := fun c => c ≠ 'e' ∧ c ≠ 'E')
    (fun x => decide_eq_true ⟨charOf_ne rfl x, charOf_ne rfl x⟩) frac tail fun c hc => by
      rcases ht with rfl | ⟨x, rfl⟩
      · cases hc
      · rw [← Option.some.inj hc]
        rfl
  obtain ⟨hbody, hneg⟩ := unsigned_sign negative
    (t := (d :: ds).map charOf ++ '.' :: (frac.map charOf ++ tail))
    (by simp [charOf_ne (c := '-') rfl d]) (by simp [charOf_ne (c := '+') rfl d])
  simp only [read, hbody, hneg, hwhole.1, hwhole.2, List.tail_cons, hfrac.1, hfrac.2, digitsIn_map]

/-- A float is read back from its text, when that has a point. -/
theorem read_repr {d : Decimal} (h : ¬ d.Pointless) : read d.repr = d := by
  obtain ⟨whole, frac, tail, hw, hr, ht, hd⟩ := exists_repr h
  rw [hr, read_parts _ hw _ (ht.imp_right fun ⟨e, he⟩ => ⟨_, he⟩), hd]

/-- The text of a decimal has no point exactly when it is one digit and an exponent. -/
theorem point_mem_repr_iff {d : Decimal} : '.' ∈ d.repr ↔ ¬ d.Pointless := by
  constructor
  · intro hm hd
    have hexp := hd.1
    rw [repr, if_pos hexp, if_pos hd.2.le] at hm
    obtain ⟨ds, he, -, hds, -⟩ := exists_exponent (d.point - 1)
    simp only [List.mem_append, List.mem_map, List.nil_append, List.mem_cons, he] at hm
    rcases hm with hm | ⟨x, -, hx⟩ | hm | hm | hm
    · cases d.negative <;> simp [sign] at hm
    · exact charOf_ne rfl x hx
    · simp at hm
    · split at hm <;> simp at hm
    · simpa using hds _ hm
  · intro h
    obtain ⟨whole, frac, tail, -, hr, -, -⟩ := exists_repr h
    rw [hr]
    simp

end Decimal

/-! ## Floats -/

/-- The value of a float. -/
inductive FloatValue
  | finite (d : Decimal)
  | infinite (negative : Bool)
  | nan
  deriving DecidableEq

/-- A float: its shortest decimal rounds to itself. -/
def PyFloat (nearest : Decimal → FloatValue) : Type := {x : FloatValue // ∀ d, x = .finite d → nearest d = x}

end LabInABox.Text
