import LabInABox.JsValue
import LabInABox.Text.Decimal

/-!
# JSON texts of Python

Model of Python's `json.dumps` with its defaults, and of `json.loads`.

* The writer is over the way a character is written, so that a text whose strings are written otherwise is
  read by the same theorem.
* A number is an integer or a float; `Rounding` rounds a decimal to a float.
* A surrogate without its partner, which a string of Python may hold, reads as U+FFFD. The pairs of an object
  are given as they stand: those of a `dict` have different keys.

Results:
* `loads_dumpsWith`: what is written is read back, however its characters are escaped.
* `costs_readString_le`: what a string costs, where few characters stand for themselves.
-/

namespace LabInABox.Text.PyJson

open JsValue

/-- The rounding of decimals to floats. -/
structure Rounding where
  nearest : Decimal → FloatValue
  idem : ∀ d d', nearest d = .finite d' → nearest d' = .finite d'

/-- Decimals can be their own floats. -/
theorem Rounding.finite_idem (d d' : Decimal) (_ : FloatValue.finite d = .finite d') :
    FloatValue.finite d' = .finite d' := rfl

/-- A number of Python. -/
inductive Number (R : Rounding)
  | int (n : Int)
  | float (x : PyFloat R.nearest)

variable {R : Rounding}

/-! ## Writing -/

/-- Four hexadecimal digits. -/
def hex4 (n : Nat) : Text :=
  [Nat.digitChar (n / 4096 % 16), Nat.digitChar (n / 256 % 16), Nat.digitChar (n / 16 % 16),
    Nat.digitChar (n % 16)]

/-- The escape of a code unit. -/
def escapeUnit (u : Nat) : Text := '\\' :: 'u' :: hex4 u

/-- The code units of a character: two beyond the first plane. -/
def codeUnits (c : Char) : List Nat :=
  if c.toNat < 0x10000 then [c.toNat]
  else [0xD800 + (c.toNat - 0x10000) / 0x400, 0xDC00 + (c.toNat - 0x10000) % 0x400]

/-- The characters with an escape of their own, and what stands for them behind the backslash. -/
def shortEscapes : List (Char × Char) :=
  [('"', '"'), ('\\', '\\'), ('\n', 'n'), ('\r', 'r'), ('\t', 't'), ('\x0c', 'f'), ('\x08', 'b')]

/-- A character inside quotes. -/
def asciiEscape (c : Char) : Text :=
  match shortEscapes.lookup c with
  | some e => ['\\', e]
  | none => if ' ' ≤ c ∧ c ≤ '~' then [c] else (codeUnits c).flatMap escapeUnit

/-- A float. -/
def floatJson : FloatValue → Text
  | .finite d => d.repr
  | .infinite negative => sign negative ++ "Infinity".toList
  | .nan => "NaN".toList

/-- A number. -/
def numberText : Number R → Text
  | .int n => strInt n
  | .float x => floatJson x.val

section Write

variable (enc : Char → Text)

/-- A string, whose characters `enc` writes. -/
def quoted (t : Text) : Text := '"' :: (t.flatMap enc ++ ['"'])

mutual

/-- `json.dumps(value)`, where `enc` writes the characters of strings. -/
def dumpsWith : JsValue (Number R) → Text
  | null => "null".toList
  | .bool b => if b then "true".toList else "false".toList
  | number n => numberText n
  | text t => quoted enc t
  | list [] => ['[', ']']
  | list (v :: vs) => '[' :: (dumpsWith v ++ dumpsItems vs)
  | mapping [] => ['\x7b', '\x7d']
  | mapping ((k, v) :: es) => '\x7b' :: (quoted enc k ++ ':' :: ' ' :: (dumpsWith v ++ dumpsEntries es))

/-- The further elements of a list, and its bracket. -/
def dumpsItems : List (JsValue (Number R)) → Text
  | [] => [']']
  | v :: vs => ',' :: ' ' :: (dumpsWith v ++ dumpsItems vs)

/-- The further pairs of an object, and its brace. -/
def dumpsEntries : List (Text × JsValue (Number R)) → Text
  | [] => ['\x7d']
  | (k, v) :: es => ',' :: ' ' :: (quoted enc k ++ ':' :: ' ' :: (dumpsWith v ++ dumpsEntries es))

end

end Write

/-- `json.dumps(value)`. -/
def dumps (v : JsValue (Number R)) : Text := dumpsWith asciiEscape v

/-! ## Reading strings -/

/-- Where the reader stands inside a string. -/
inductive Mode
  | plain
  | escape
  | code (left value : Nat)

/-- What a character does: an error, the end of the string, or the next mode, with code units. -/
inductive Step
  | fail
  | close
  | go (m : Mode) (out : List Nat)

/-- One character inside a string. -/
def next (m : Mode) (c : Char) : Step :=
  match m with
  | .plain =>
    if c = '"' then .close
    else if c = '\\' then .go .escape []
    else if c.toNat < 0x20 then .fail
    else .go .plain [c.toNat]
  | .escape =>
    if c = 'u' then .go (.code 4 0) []
    else
      match (('/', '/') :: shortEscapes).find? fun e => e.2 = c with
      | some e => .go .plain [e.1.toNat]
      | none => .fail
  | .code left value =>
    match hexDigit c with
    | none => .fail
    | some d => if left ≤ 1 then .go .plain [16 * value + d] else .go (.code (left - 1) (16 * value + d)) []

/-- The code units up to the closing quote. -/
def units : Mode → Text → Option (List Nat × Text)
  | _, [] => none
  | m, c :: cs =>
    match next m c with
    | .fail => none
    | .close => some ([], cs)
    | .go m' out => (units m' cs).map fun r => (out ++ r.1, r.2)

/-- The character of a code unit. -/
def charOfUnit (u : Nat) : Char := if u.isValidChar then Char.ofNat u else '\uFFFD'

/-- The text of code units. -/
def combine : List Nat → Text
  | [] => []
  | [u] => [charOfUnit u]
  | u :: u' :: us =>
    if (0xD800 ≤ u ∧ u ≤ 0xDBFF) ∧ (0xDC00 ≤ u' ∧ u' ≤ 0xDFFF) then
      charOfUnit (0x10000 + (u - 0xD800) * 0x400 + (u' - 0xDC00)) :: combine us
    else charOfUnit u :: combine (u' :: us)

/-- A string, behind its opening quote. -/
def readString (t : Text) : Option (Text × Text) := (units .plain t).map fun r => (combine r.1, r.2)

/-! ## Reading numbers -/

/-- The text behind digits. -/
def afterDigits (t : Text) : Text := t.dropWhile Char.isDigit

/-- A fraction, and what follows. -/
def fraction (t : Text) : List (Fin 10) × Text :=
  match t with
  | '.' :: r => if (r.takeWhile Char.isDigit).isEmpty then ([], t) else (digitsIn (r.takeWhile Char.isDigit), afterDigits r)
  | _ => ([], t)

/-- An exponent, and what follows. -/
def exponentPart (t : Text) : Option Int × Text :=
  match t with
  | e :: r =>
    if e = 'e' ∨ e = 'E' then
      let ds := (unsigned r).takeWhile Char.isDigit
      if ds.isEmpty then (none, t)
      else (some (if r.head? = some '-' then -(Nat.ofDigitChars 10 ds 0 : Int) else Nat.ofDigitChars 10 ds 0),
        afterDigits (unsigned r))
    else (none, t)
  | [] => (none, t)

/-- A number without its sign, and what follows. -/
def readUnsigned (negative : Bool) (body : Text) : Option (Number R × Text) :=
  let whole := if body.head? = some '0' then ['0'] else body.takeWhile Char.isDigit
  if whole.isEmpty then none
  else
    let frac := fraction (body.drop whole.length)
    let power := exponentPart frac.2
    if frac.1.isEmpty && power.1.isNone then
      some (.int (if negative then -(Nat.ofDigitChars 10 whole 0 : Int) else Nat.ofDigitChars 10 whole 0), power.2)
    else
      let d := Decimal.ofParts negative (digitsIn whole) frac.1 (power.1.getD 0)
      some (.float ⟨R.nearest d, fun d' h => (R.idem d d' h).trans h.symm⟩, power.2)

/-- A number, and what follows. -/
def readNumber (t : Text) : Option (Number R × Text) :=
  if t.head? = some '-' then readUnsigned true t.tail else readUnsigned false t

/-! ## Reading values -/

/-- A blank between the parts of a JSON text. -/
def isBlank (c : Char) : Bool := c = ' ' || c = '\t' || c = '\n' || c = '\r'

/-- The text behind blanks. -/
def skip (t : Text) : Text := t.dropWhile isBlank

/-- A word, a value of its own. -/
def readWord (t : Text) : Option (JsValue (Number R) × Text) :=
  if "null".toList.isPrefixOf t then some (null, t.drop 4)
  else if "true".toList.isPrefixOf t then some (.bool true, t.drop 4)
  else if "false".toList.isPrefixOf t then some (.bool false, t.drop 5)
  else if "NaN".toList.isPrefixOf t then some (number (.float ⟨.nan, fun _ h => by cases h⟩), t.drop 3)
  else if "Infinity".toList.isPrefixOf t then
    some (number (.float ⟨.infinite false, fun _ h => by cases h⟩), t.drop 8)
  else if "-Infinity".toList.isPrefixOf t then
    some (number (.float ⟨.infinite true, fun _ h => by cases h⟩), t.drop 9)
  else (readNumber t).map fun r => (number r.1, r.2)

mutual

/-- A value, and what follows, with so many steps at most. -/
def readValue : Nat → Text → Option (JsValue (Number R) × Text)
  | 0, _ => none
  | n + 1, t =>
    match t with
    | '"' :: r => (readString r).map fun s => (text s.1, s.2)
    | '[' :: r =>
      match skip r with
      | ']' :: r' => some (list [], r')
      | r' => (readValue n r').bind fun v => (readItems n v.2).map fun s => (list (v.1 :: s.1), s.2)
    | '\x7b' :: r =>
      match skip r with
      | '\x7d' :: r' => some (mapping [], r')
      | r' => (readPair n r').bind fun e => (readPairs n e.2).map fun s => (mapping (e.1 :: s.1), s.2)
    | _ => readWord t

/-- The further elements of a list, up to its bracket. -/
def readItems : Nat → Text → Option (List (JsValue (Number R)) × Text)
  | 0, _ => none
  | n + 1, t =>
    match skip t with
    | ']' :: r => some ([], r)
    | ',' :: r => (readValue n (skip r)).bind fun v => (readItems n v.2).map fun s => (v.1 :: s.1, s.2)
    | _ => none

/-- A pair of an object. -/
def readPair : Nat → Text → Option ((Text × JsValue (Number R)) × Text)
  | 0, _ => none
  | n + 1, t =>
    match t with
    | '"' :: r =>
      (readString r).bind fun k =>
        match skip k.2 with
        | ':' :: r => (readValue n (skip r)).map fun v => ((k.1, v.1), v.2)
        | _ => none
    | _ => none

/-- The further pairs of an object, up to its brace. -/
def readPairs : Nat → Text → Option (List (Text × JsValue (Number R)) × Text)
  | 0, _ => none
  | n + 1, t =>
    match skip t with
    | '\x7d' :: r => some ([], r)
    | ',' :: r => (readPair n (skip r)).bind fun e => (readPairs n e.2).map fun s => (e.1 :: s.1, s.2)
    | _ => none

end

/-- `json.loads(t)`, `none` where it raises. -/
def loads (t : Text) : Option (JsValue (Number R)) :=
  (readValue (t.length + 1) (skip t)).bind fun v => if skip v.2 = [] then some v.1 else none

/-! ## Strings are read back -/

/-- The writing of a character is read as its code units. -/
def Decodes (enc : Char → Text) (c : Char) : Prop :=
  ∀ rest, units .plain (enc c ++ rest) = (units .plain rest).map fun r => (codeUnits c ++ r.1, r.2)

theorem codeUnits_of_lt {c : Char} (h : c.toNat < 0x10000) : codeUnits c = [c.toNat] := if_pos h

theorem toNat_ofNat {u : Nat} (h : u.isValidChar) : (Char.ofNat u).toNat = u := by
  rw [Char.ofNat, dif_pos h]
  rfl

theorem charOfUnit_toNat (c : Char) : charOfUnit c.toNat = c := by
  have hvalid : c.toNat.isValidChar := c.valid
  rw [charOfUnit, if_pos hvalid, Char.ofNat_toNat]

/-- Code units are put together to the characters they are from. -/
theorem combine_codeUnits (s : Text) : combine (s.flatMap codeUnits) = s := by
  induction s with
  | nil => rfl
  | cons c s ih =>
    rw [List.flatMap_cons]
    by_cases h : c.toNat < 0x10000
    · -- a character of the first plane is no surrogate
      have hsur : ¬ (0xD800 ≤ c.toNat ∧ c.toNat ≤ 0xDBFF) := by
        have hvalid : c.toNat < 0xd800 ∨ 0xdfff < c.toNat ∧ c.toNat < 0x110000 := c.valid
        omega
      rw [codeUnits_of_lt h, List.singleton_append]
      cases hs : s.flatMap codeUnits with
      | nil =>
        rw [hs] at ih
        rw [combine, charOfUnit_toNat, ← ih]
        rfl
      | cons u us =>
        rw [combine, if_neg fun h => hsur h.1, charOfUnit_toNat, ← hs, ih]
    · have hlt : c.toNat < 0x110000 := by
        have hvalid : c.toNat < 0xd800 ∨ 0xdfff < c.toNat ∧ c.toNat < 0x110000 := c.valid
        omega
      have hc : 0x10000 + (0xD800 + (c.toNat - 0x10000) / 0x400 - 0xD800) * 0x400 +
          (0xDC00 + (c.toNat - 0x10000) % 0x400 - 0xDC00) = c.toNat := by omega
      rw [codeUnits, if_neg h, List.cons_append, List.singleton_append, combine, if_pos (by omega), hc,
        charOfUnit_toNat, ih]

/-- A string is read back, however its characters are escaped. -/
theorem readString_quoted {enc : Char → Text} (henc : ∀ c, Decodes enc c) (s rest : Text) :
    readString (s.flatMap enc ++ '"' :: rest) = some (s, rest) := by
  have hunits : units .plain (s.flatMap enc ++ '"' :: rest) = some (s.flatMap codeUnits, rest) := by
    induction s with
    | nil => rfl
    | cons c s ih =>
      rw [List.flatMap_cons, List.append_assoc, henc c, ih]
      rfl
  rw [readString, hunits, Option.map_some, combine_codeUnits]

section Steps

variable {m : Mode} {c : Char} {cs : Text}

theorem units_of_go (m' : Mode) (out : List Nat) (h : next m c = .go m' out) :
    units m (c :: cs) = (units m' cs).map fun r => (out ++ r.1, r.2) := by rw [units, h]

theorem units_of_go_nil (m' : Mode) (h : next m c = .go m' []) : units m (c :: cs) = units m' cs := by
  rw [units_of_go m' [] h]
  cases units m' cs <;> rfl

end Steps

theorem hexDigit_digitChar : ∀ n < 16, hexDigit (Nat.digitChar n) = some n := by decide

/-- The escape of a code unit is read as that code unit. -/
theorem units_escapeUnit {u : Nat} (hu : u < 65536) (rest : Text) :
    units .plain (escapeUnit u ++ rest) = (units .plain rest).map fun r => (u :: r.1, r.2) := by
  have h₁ := hexDigit_digitChar (u / 4096 % 16) (by omega)
  have h₂ := hexDigit_digitChar (u / 256 % 16) (by omega)
  have h₃ := hexDigit_digitChar (u / 16 % 16) (by omega)
  have h₄ := hexDigit_digitChar (u % 16) (by omega)
  have hsum : 16 * (16 * (16 * (16 * 0 + u / 4096 % 16) + u / 256 % 16) + u / 16 % 16) + u % 16 = u := by omega
  rw [escapeUnit, List.cons_append, List.cons_append, units_of_go_nil .escape rfl,
    units_of_go_nil (.code 4 0) rfl, hex4, List.cons_append,
    units_of_go_nil (.code 3 (16 * 0 + u / 4096 % 16)) (by simp [next, h₁]), List.cons_append,
    units_of_go_nil (.code 2 (16 * (16 * 0 + u / 4096 % 16) + u / 256 % 16)) (by simp [next, h₂]),
    List.cons_append, units_of_go_nil
      (.code 1 (16 * (16 * (16 * 0 + u / 4096 % 16) + u / 256 % 16) + u / 16 % 16)) (by simp [next, h₃]),
    List.cons_append, units_of_go .plain [u] (by simp only [next, h₄, hsum]; rfl), List.nil_append]
  rfl

theorem units_flatMap_escapeUnit {us : List Nat} (hus : ∀ u ∈ us, u < 65536) (rest : Text) :
    units .plain (us.flatMap escapeUnit ++ rest) = (units .plain rest).map fun r => (us ++ r.1, r.2) := by
  induction us with
  | nil => cases h : units .plain rest <;> simp [h]
  | cons u us ih =>
    rw [List.flatMap_cons, List.append_assoc, units_escapeUnit (hus u List.mem_cons_self),
      ih fun x hx => hus x (List.mem_cons_of_mem _ hx), Option.map_map]
    rfl

theorem codeUnits_lt (c : Char) : ∀ u ∈ codeUnits c, u < 65536 := by
  intro u hu
  have hlt : c.toNat < 0x110000 := by
    have hvalid : c.toNat < 0xd800 ∨ 0xdfff < c.toNat ∧ c.toNat < 0x110000 := c.valid
    omega
  unfold codeUnits at hu
  split at hu
  · rw [List.mem_singleton.mp hu]
    omega
  · simp only [List.mem_cons, List.not_mem_nil, or_false] at hu
    omega

theorem shortEscapes_read : ∀ e ∈ shortEscapes, next .escape e.2 = .go .plain [e.1.toNat] ∧
    codeUnits e.1 = [e.1.toNat] := by
  simp [shortEscapes, next, codeUnits]

/-- How a character is written: with an escape of its own, as it stands, or with its code units. -/
theorem asciiEscape_cases (c : Char) :
    (∃ e, (c, e) ∈ shortEscapes ∧ asciiEscape c = ['\\', e]) ∨
      ((∀ e ∈ shortEscapes, c ≠ e.1) ∧ (' ' ≤ c ∧ c ≤ '~') ∧ asciiEscape c = [c]) ∨
      (¬ (' ' ≤ c ∧ c ≤ '~') ∧ asciiEscape c = (codeUnits c).flatMap escapeUnit) := by
  unfold asciiEscape
  cases hl : shortEscapes.lookup c with
  | some e =>
    obtain ⟨l₁, l₂, hmem, -⟩ := List.lookup_eq_some_iff.mp hl
    exact Or.inl ⟨e, by rw [hmem]; simp, rfl⟩
  | none =>
    have hne : ∀ e ∈ shortEscapes, c ≠ e.1 := fun e he => by
      simpa using List.lookup_eq_none_iff.mp hl e he
    by_cases hc : ' ' ≤ c ∧ c ≤ '~'
    · exact Or.inr (Or.inl ⟨hne, hc, if_pos hc⟩)
    · exact Or.inr (Or.inr ⟨hc, if_neg hc⟩)

/-- What `json.dumps` writes for a character is read as that character. -/
theorem decodes_asciiEscape (c : Char) : Decodes asciiEscape c := by
  intro rest
  rcases asciiEscape_cases c with ⟨e, he, heq⟩ | ⟨hne, hc, heq⟩ | ⟨-, heq⟩
  · obtain ⟨hnext, hunits⟩ := shortEscapes_read (c, e) he
    rw [heq, List.cons_append, List.singleton_append, units_of_go_nil .escape rfl,
      units_of_go .plain [c.toNat] hnext, hunits]
  · have hq : c ≠ '"' := hne ('"', '"') (by decide)
    have hb : c ≠ '\\' := hne ('\\', '\\') (by decide)
    have hlow : 32 ≤ c.toNat := hc.1
    have hhigh : c.toNat ≤ 126 := hc.2
    have hnext : next .plain c = .go .plain [c.toNat] := by
      simp only [next, hq, hb, if_false]
      rw [if_neg (by omega)]
    rw [heq, List.singleton_append, units_of_go .plain _ hnext, codeUnits_of_lt (by omega)]
  · rw [heq]
    exact units_flatMap_escapeUnit (codeUnits_lt c) rest

/-- The digits of an escape. -/
theorem mem_hex4 (u : Nat) : ∀ x ∈ hex4 u, x ∈ "0123456789abcdef".toList := by
  have hdigit : ∀ n < 16, Nat.digitChar n ∈ "0123456789abcdef".toList := by decide
  intro x hx
  simp only [hex4, List.mem_cons, List.not_mem_nil, or_false] at hx
  rcases hx with rfl | rfl | rfl | rfl <;> exact hdigit _ (Nat.mod_lt _ (by decide))

/-! ## Numbers are read back -/

/-- What may follow a value. -/
def Ends (rest : Text) : Prop := ∀ c, rest.head? = some c → c = ',' ∨ c = ']' ∨ c = '\x7d' ∨ isBlank c = true

theorem not_isDigit_of_isBlank {c : Char} (h : isBlank c = true) :
    c.isDigit = false ∧ c ≠ '.' ∧ c ≠ 'e' ∧ c ≠ 'E' := by
  simp only [isBlank, Bool.or_eq_true, decide_eq_true_eq] at h
  rcases h with ((rfl | rfl) | rfl) | rfl <;> decide

/-- What follows a value is no part of a number. -/
theorem Ends.not_number {rest : Text} (h : Ends rest) :
    ∀ c, rest.head? = some c → c.isDigit = false ∧ c ≠ '.' ∧ c ≠ 'e' ∧ c ≠ 'E' := by
  intro c hc
  rcases h c hc with rfl | rfl | rfl | hb
  · decide
  · decide
  · decide
  · exact not_isDigit_of_isBlank hb

theorem Ends.not_isDigit {rest : Text} (h : Ends rest) : ∀ c, rest.head? = some c → c.isDigit = false :=
  fun c hc => (h.not_number c hc).1

theorem takeWhile_isDigit {ds rest : Text} (hds : ∀ c ∈ ds, c.isDigit = true)
    (hr : ∀ c, rest.head? = some c → c.isDigit = false) :
    (ds ++ rest).takeWhile Char.isDigit = ds ∧ (ds ++ rest).dropWhile Char.isDigit = rest := by
  rw [List.takeWhile_append_of_pos hds, List.dropWhile_append_of_pos hds]
  cases rest with
  | nil => simp
  | cons c cs => simp [hr c rfl]

theorem fraction_of_ends {t : Text} (h : t.head? ≠ some '.') : fraction t = ([], t) := by
  unfold fraction
  split
  · exact absurd rfl h
  · rfl

theorem exponentPart_of_ends {t : Text} (he : t.head? ≠ some 'e') (hE : t.head? ≠ some 'E') :
    exponentPart t = (none, t) := by
  cases t with
  | nil => rfl
  | cons c cs =>
    have h : ¬ (c = 'e' ∨ c = 'E') := by
      rintro (rfl | rfl)
      · exact he rfl
      · exact hE rfl
    rw [exponentPart, if_neg h]

/-- An exponent is read back. -/
theorem exponentPart_exponent (e : Int) {rest : Text} (hr : Ends rest) :
    exponentPart ('e' :: exponent e ++ rest) = (some e, rest) := by
  obtain ⟨ds, he, hne, hds, hv⟩ := exists_exponent e
  obtain ⟨htake, hdrop⟩ := takeWhile_isDigit hds hr.not_isDigit
  have hempty : ds.isEmpty = false := by simpa using hne
  have huns : unsigned ((if e < 0 then '-' else '+') :: ds ++ rest) = ds ++ rest := by
    unfold unsigned
    split <;> simp
  rw [he, List.cons_append, exponentPart, if_pos (Or.inl rfl), huns]
  simp only [htake, hempty, afterDigits, hdrop, Bool.false_eq_true, if_false, hv]
  by_cases h : e < 0
  · simp only [h, if_true, List.cons_append, List.head?_cons]
    rw [show -(e.natAbs : Int) = e by omega]
  · have hplus : ¬ (some '+' = some '-') := by decide
    simp only [h, if_false, List.cons_append, List.head?_cons, hplus]
    rw [show (e.natAbs : Int) = e by omega]

/-- The whole part of a number in the text of one. -/
theorem whole_eq {rest : Text} (whole : Text) (hne : whole ≠ []) (hds : ∀ c ∈ whole, c.isDigit = true)
    (hzero : whole = ['0'] ∨ whole.head? ≠ some '0') (hr : ∀ c, rest.head? = some c → c.isDigit = false) :
    (if (whole ++ rest).head? = some '0' then ['0'] else (whole ++ rest).takeWhile Char.isDigit) = whole := by
  obtain ⟨c, cs, rfl⟩ := List.exists_cons_of_ne_nil hne
  rcases hzero with h | h
  · rw [h]
    rfl
  · have h' : (c :: cs ++ rest).head? ≠ some '0' := h
    rw [if_neg h', (takeWhile_isDigit hds hr).1]

theorem readNumber_sign (negative : Bool) {c : Char} (hc : c.isDigit = true) (cs : Text) :
    readNumber (R := R) (sign negative ++ c :: cs) = readUnsigned negative (c :: cs) := by
  cases negative with
  | true => rfl
  | false =>
    have hne : (c :: cs).head? ≠ some '-' := fun h => by
      rw [Option.some.inj h] at hc
      cases hc
    exact if_neg hne

theorem readNumber_int (n : Int) {rest : Text} (hr : Ends rest) :
    readNumber (R := R) (strInt n ++ rest) = some (.int n, rest) := by
  have hne := Nat.toDigits_ne_nil (n := n.natAbs) (b := 10)
  have hds : ∀ c ∈ Nat.toDigits 10 n.natAbs, c.isDigit = true := fun c hc =>
    Nat.isDigit_of_mem_toDigits (by decide) (by decide) hc
  have hzero : Nat.toDigits 10 n.natAbs = ['0'] ∨ (Nat.toDigits 10 n.natAbs).head? ≠ some '0' := by
    by_cases h : n.natAbs = 0
    · rw [h]
      exact Or.inl rfl
    · exact Or.inr (head?_toDigits _ h)
  have hvalue : Nat.ofDigitChars 10 (Nat.toDigits 10 n.natAbs) 0 = n.natAbs := Nat.ofDigitChars_ten_toDigits
  have hwhole := whole_eq _ hne hds hzero hr.not_isDigit
  have hfrac : fraction rest = ([], rest) := fraction_of_ends fun h =>
    (hr.not_number _ h).2.1 rfl
  have hexp : exponentPart rest = (none, rest) := exponentPart_of_ends
    (fun h => (hr.not_number _ h).2.2.1 rfl) fun h => (hr.not_number _ h).2.2.2 rfl
  rw [strInt, List.append_assoc]
  generalize Nat.toDigits 10 n.natAbs = ds at hne hds hvalue hwhole
  obtain ⟨c, cs, rfl⟩ := List.exists_cons_of_ne_nil hne
  rw [List.cons_append, readNumber_sign _ (hds c List.mem_cons_self), ← List.cons_append]
  simp only [readUnsigned, hwhole, List.drop_left', hfrac, hexp, hvalue, List.isEmpty_nil, List.isEmpty_cons,
    Option.isNone_none, Bool.and_self, Bool.false_eq_true, if_true, if_false]
  by_cases h : n < 0
  · simp only [h, decide_true, if_true]
    rw [show -(n.natAbs : Int) = n by omega]
  · simp only [h, decide_false, Bool.false_eq_true, if_false]
    rw [show (n.natAbs : Int) = n by omega]

theorem isDigit_map_charOf (ds : List (Fin 10)) : ∀ c ∈ ds.map charOf, c.isDigit = true := by
  intro c hc
  obtain ⟨d, -, rfl⟩ := List.mem_map.mp hc
  exact isDigit_charOf d

theorem readNumber_repr (d : Decimal) {rest : Text} (hr : Ends rest) :
    readNumber (R := R) (d.repr ++ rest) =
      some (.float ⟨R.nearest d, fun d' h => (R.idem d d' h).trans h.symm⟩, rest) := by
  obtain ⟨whole, frac, tail, hw, hzero, -, hrepr, ht, hd⟩ := d.exists_parts
  -- the text behind the whole part, and behind the fraction
  have htail : ∀ c, (tail ++ rest).head? = some c → c.isDigit = false := by
    rcases ht with ⟨rfl, -⟩ | ⟨e, rfl⟩
    · exact hr.not_isDigit
    · intro c hc
      rw [← Option.some.inj hc]
      rfl
  have hdot : (tail ++ rest).head? ≠ some '.' := by
    rcases ht with ⟨rfl, -⟩ | ⟨e, rfl⟩
    · exact fun h => (hr.not_number _ h).2.1 rfl
    · simp
  have hpower : exponentPart (tail ++ rest) =
      (if tail = [] then none else some (readExponent tail.tail), rest) := by
    rcases ht with ⟨rfl, -⟩ | ⟨e, rfl⟩
    · exact exponentPart_of_ends (fun h => (hr.not_number _ h).2.2.1 rfl)
        fun h => (hr.not_number _ h).2.2.2 rfl
    · rw [if_neg (List.cons_ne_nil _ _), List.tail_cons, readExponent_exponent]
      exact exponentPart_exponent e hr
  have hmid : ∀ c, ((if frac = [] then [] else '.' :: frac.map charOf) ++ (tail ++ rest)).head? = some c →
      c.isDigit = false := by
    by_cases hf : frac = []
    · rw [if_pos hf]
      exact htail
    · rw [if_neg hf]
      intro c hc
      rw [← Option.some.inj hc]
      rfl
  have hfrac : fraction ((if frac = [] then [] else '.' :: frac.map charOf) ++ (tail ++ rest)) =
      (frac, tail ++ rest) := by
    by_cases hf : frac = []
    · rw [if_pos hf, List.nil_append, fraction_of_ends hdot, hf]
    · obtain ⟨htake, hdrop⟩ := takeWhile_isDigit (isDigit_map_charOf frac) htail
      have hempty : (frac.map charOf).isEmpty = false := by simpa using hf
      rw [if_neg hf, List.cons_append, fraction]
      simp only [htake, hempty, afterDigits, hdrop, digitsIn_map, Bool.false_eq_true, if_false]
  have hwhole := whole_eq (whole.map charOf) (by simpa using hw) (isDigit_map_charOf whole)
    (hzero.imp (fun h => by rw [h]; rfl) fun h h' => h (by
      obtain ⟨x, xs, rfl⟩ := List.exists_cons_of_ne_nil hw
      have hx : charOf x = '0' := Option.some.inj h'
      have : ∀ x : Fin 10, charOf x = '0' → x = 0 := by decide
      rw [this x hx]
      rfl)) hmid
  have hsome : (frac.isEmpty && (if tail = [] then none else some (readExponent tail.tail)).isNone) = false := by
    rcases ht with ⟨-, hf⟩ | ⟨e, rfl⟩
    · rw [Bool.and_eq_false_iff]
      exact Or.inl (by simpa using hf)
    · rw [if_neg (List.cons_ne_nil _ _)]
      simp
  have hpow : (if tail = [] then none else some (readExponent tail.tail)).getD 0 = readExponent tail.tail := by
    by_cases h : tail = []
    · rw [if_pos h, h]
      rfl
    · rw [if_neg h]
      rfl
  have hnonempty : (whole.map charOf).isEmpty = false := by simpa using hw
  obtain ⟨x, xs, hx⟩ := List.exists_cons_of_ne_nil hw
  have htext : d.repr ++ rest = sign d.negative ++ (charOf x :: (xs.map charOf ++
      ((if frac = [] then [] else '.' :: frac.map charOf) ++ (tail ++ rest)))) := by
    rw [hrepr, hx]
    simp
  have hbody : charOf x :: (xs.map charOf ++ ((if frac = [] then [] else '.' :: frac.map charOf) ++
      (tail ++ rest))) = whole.map charOf ++ ((if frac = [] then [] else '.' :: frac.map charOf) ++
      (tail ++ rest)) := by rw [hx]; rfl
  rw [htext, readNumber_sign _ (isDigit_charOf x), hbody]
  simp only [readUnsigned, hwhole, hnonempty, List.drop_left', hfrac, hpower, hsome, hpow, digitsIn_map, hd,
    Bool.false_eq_true, if_false]

/-! ## Values are read back -/

theorem isPrefixOf_of_ne (x : Char) (w : Text) {t : Text} (h : some x ≠ t.head?) :
    (x :: w).isPrefixOf t = false := by
  cases t with
  | nil => rfl
  | cons d ds =>
    have hx : (x == d) = false := beq_false_of_ne fun e => h (by rw [e]; rfl)
    simp [List.isPrefixOf, hx]

theorem ne_of_isDigit {c : Char} (hc : c.isDigit = true) (x : Char) (hx : x.isDigit = false) : c ≠ x := fun e => by
  rw [← e, hc] at hx
  cases hx

/-- A text that begins with a digit, or with a sign and a digit, is no word of letters. -/
theorem readWord_sign (negative : Bool) {c : Char} (hc : c.isDigit = true) (cs : Text) :
    readWord (R := R) (sign negative ++ c :: cs) =
      (readNumber (sign negative ++ c :: cs)).map fun r => (number r.1, r.2) := by
  have hhead : ∀ x : Char, x ≠ '-' → x.isDigit = false → some x ≠ (sign negative ++ c :: cs).head? := by
    intro x hm hx
    cases negative with
    | true => simpa [sign] using hm
    | false => simpa [sign] using (ne_of_isDigit hc x hx).symm
  have hnull : "null".toList.isPrefixOf (sign negative ++ c :: cs) = false :=
    isPrefixOf_of_ne 'n' ['u', 'l', 'l'] (hhead 'n' (by decide) rfl)
  have htrue : "true".toList.isPrefixOf (sign negative ++ c :: cs) = false :=
    isPrefixOf_of_ne 't' ['r', 'u', 'e'] (hhead 't' (by decide) rfl)
  have hfalse : "false".toList.isPrefixOf (sign negative ++ c :: cs) = false :=
    isPrefixOf_of_ne 'f' ['a', 'l', 's', 'e'] (hhead 'f' (by decide) rfl)
  have hnan : "NaN".toList.isPrefixOf (sign negative ++ c :: cs) = false :=
    isPrefixOf_of_ne 'N' ['a', 'N'] (hhead 'N' (by decide) rfl)
  have hinf : "Infinity".toList.isPrefixOf (sign negative ++ c :: cs) = false :=
    isPrefixOf_of_ne 'I' ['n', 'f', 'i', 'n', 'i', 't', 'y'] (hhead 'I' (by decide) rfl)
  have hminus : "-Infinity".toList.isPrefixOf (sign negative ++ c :: cs) = false := by
    cases negative with
    | true =>
      have : ('I' == c) = false := beq_false_of_ne (ne_of_isDigit hc 'I' rfl).symm
      simp [sign, List.isPrefixOf, this]
    | false =>
      refine isPrefixOf_of_ne '-' ['I', 'n', 'f', 'i', 'n', 'i', 't', 'y'] ?_
      simpa [sign] using (ne_of_isDigit hc '-' rfl).symm
  simp only [readWord, hnull, htrue, hfalse, hnan, hinf, hminus, Bool.false_eq_true, if_false]

/-- A number is read back. -/
theorem readWord_number (n : Number R) {rest : Text} (hr : Ends rest) :
    readWord (numberText n ++ rest) = some (number n, rest) := by
  cases n with
  | int n =>
    obtain ⟨c, cs, hc⟩ := List.exists_cons_of_ne_nil (Nat.toDigits_ne_nil (n := n.natAbs) (b := 10))
    have hcd : c.isDigit = true := Nat.isDigit_of_mem_toDigits (b := 10) (n := n.natAbs) (by decide)
      (by decide) (by rw [hc]; simp)
    have htext : strInt n ++ rest = sign (n < 0) ++ c :: (cs ++ rest) := by
      rw [strInt, List.append_assoc, hc]
      rfl
    rw [numberText, htext, readWord_sign _ hcd, ← htext, readNumber_int n hr]
    rfl
  | float x =>
    obtain ⟨x, hx⟩ := x
    cases x with
    | finite d =>
      obtain ⟨c, cs, hc, hcd, -⟩ := d.exists_repr_cons
      have htext : d.repr ++ rest = sign d.negative ++ c :: (cs ++ rest) := by
        rw [hc, List.append_assoc]
        rfl
      have hvalue : (⟨R.nearest d, fun d' h => (R.idem d d' h).trans h.symm⟩ : PyFloat R.nearest) =
          ⟨.finite d, hx⟩ := Subtype.ext (hx d rfl)
      have hnumber : numberText (R := R) (.float ⟨.finite d, hx⟩) = d.repr := rfl
      rw [hnumber, htext, readWord_sign _ hcd, ← htext, readNumber_repr d hr, hvalue]
      rfl
    | infinite negative => cases negative <;> rfl
    | nan => rfl

/-- How a value begins. -/
theorem exists_dumpsWith_cons (enc : Char → Text) (v : JsValue (Number R)) :
    ∃ c cs, dumpsWith enc v = c :: cs ∧ isBlank c = false ∧ c ≠ ']' ∧ c ≠ '\x7d' := by
  have hdigit : ∀ c : Char, c.isDigit = true → isBlank c = false ∧ c ≠ ']' ∧ c ≠ '\x7d' := by
    intro c hc
    have hne := ne_of_isDigit hc
    refine ⟨?_, hne ']' rfl, hne '\x7d' rfl⟩
    simp only [isBlank, Bool.or_eq_false_iff, decide_eq_false_iff_not]
    exact ⟨⟨⟨hne ' ' rfl, hne '\t' rfl⟩, hne '\n' rfl⟩, hne '\r' rfl⟩
  have hsign : ∀ (negative : Bool) (c : Char) (cs : Text), isBlank c = false ∧ c ≠ ']' ∧ c ≠ '\x7d' →
      ∃ x xs, sign negative ++ c :: cs = x :: xs ∧ isBlank x = false ∧ x ≠ ']' ∧ x ≠ '\x7d' := by
    intro negative c cs hc
    cases negative with
    | true => exact ⟨'-', _, rfl, rfl, by decide, by decide⟩
    | false => exact ⟨c, cs, rfl, hc⟩
  cases v with
  | null => exact ⟨'n', _, rfl, rfl, by decide, by decide⟩
  | bool b =>
    cases b with
    | true => exact ⟨'t', _, rfl, rfl, by decide, by decide⟩
    | false => exact ⟨'f', _, rfl, rfl, by decide, by decide⟩
  | number n =>
    cases n with
    | int n =>
      obtain ⟨c, cs, hc⟩ := List.exists_cons_of_ne_nil (Nat.toDigits_ne_nil (n := n.natAbs) (b := 10))
      have hcd : c.isDigit = true := Nat.isDigit_of_mem_toDigits (b := 10) (n := n.natAbs) (by decide)
        (by decide) (by rw [hc]; simp)
      rw [dumpsWith, numberText, strInt, hc]
      exact hsign _ _ _ (hdigit c hcd)
    | float x =>
      obtain ⟨x, hx⟩ := x
      cases x with
      | finite d =>
        obtain ⟨c, cs, hc, hcd, -⟩ := d.exists_repr_cons
        have hnumber : dumpsWith enc (number (.float (R := R) ⟨.finite d, hx⟩)) = d.repr := rfl
        rw [hnumber, hc]
        exact hsign _ _ _ (hdigit c hcd)
      | infinite negative => exact hsign _ 'I' _ (by decide)
      | nan => exact ⟨'N', _, rfl, rfl, by decide, by decide⟩
  | text t => exact ⟨'"', _, rfl, rfl, by decide, by decide⟩
  | list vs => cases vs <;> exact ⟨'[', _, rfl, rfl, by decide, by decide⟩
  | mapping es =>
    cases es with
    | nil => exact ⟨'\x7b', _, rfl, rfl, by decide, by decide⟩
    | cons e es => exact ⟨'\x7b', _, rfl, rfl, by decide, by decide⟩

theorem skip_cons {c : Char} (hc : isBlank c = false) (cs : Text) : skip (c :: cs) = c :: cs := by
  simp [skip, hc]

theorem skip_dumpsWith (enc : Char → Text) (v : JsValue (Number R)) (rest : Text) :
    skip (dumpsWith enc v ++ rest) = dumpsWith enc v ++ rest := by
  obtain ⟨c, cs, hc, hb, -⟩ := exists_dumpsWith_cons enc v
  rw [hc, List.cons_append, skip_cons hb]

theorem readValue_word {t : Text} {n : Nat} (hq : t.head? ≠ some '"') (hl : t.head? ≠ some '[')
    (hm : t.head? ≠ some '\x7b') : readValue (R := R) (n + 1) t = readWord t := by
  rw [readValue]
  · exact fun r e => hq (by rw [e]; rfl)
  · exact fun r e => hl (by rw [e]; rfl)
  · exact fun r e => hm (by rw [e]; rfl)

theorem readValue_list {r : Text} (n : Nat) (hr : (skip r).head? ≠ some ']') :
    readValue (R := R) (n + 1) ('[' :: r) =
      (readValue n (skip r)).bind fun v => (readItems n v.2).map fun s => (list (v.1 :: s.1), s.2) := by
  rw [readValue]
  split
  · rename_i r' h
    exact absurd (by rw [h]; rfl) hr
  · rfl

theorem readValue_mapping {r : Text} (n : Nat) (hr : (skip r).head? ≠ some '\x7d') :
    readValue (R := R) (n + 1) ('\x7b' :: r) =
      (readPair n (skip r)).bind fun e => (readPairs n e.2).map fun s => (mapping (e.1 :: s.1), s.2) := by
  rw [readValue]
  split
  · rename_i r' h
    exact absurd (by rw [h]; rfl) hr
  · rfl

theorem ends_dumpsItems {enc : Char → Text} (vs : List (JsValue (Number R))) (rest : Text) :
    Ends (dumpsItems enc vs ++ rest) := by
  intro c hc
  cases vs with
  | nil => exact Or.inr (Or.inl (Option.some.inj hc).symm)
  | cons v vs => exact Or.inl (Option.some.inj hc).symm

theorem ends_dumpsEntries {enc : Char → Text} (es : List (Text × JsValue (Number R))) (rest : Text) :
    Ends (dumpsEntries enc es ++ rest) := by
  intro c hc
  cases es with
  | nil => exact Or.inr (Or.inr (Or.inl (Option.some.inj hc).symm))
  | cons e es => exact Or.inl (Option.some.inj hc).symm

theorem length_dumpsItems_pos (enc : Char → Text) (vs : List (JsValue (Number R))) :
    0 < (dumpsItems enc vs).length := by
  cases vs <;> simp [dumpsItems]

theorem length_dumpsEntries_pos (enc : Char → Text) (es : List (Text × JsValue (Number R))) :
    0 < (dumpsEntries enc es).length := by
  cases es <;> simp [dumpsEntries]

theorem head_numberText_ne (x : Number R) (rest : Text) {c : Char} (hd : c.isDigit = false) (hm : c ≠ '-')
    (hi : c ≠ 'I') (hn : c ≠ 'N') : (numberText x ++ rest).head? ≠ some c := by
  have hsign : ∀ (negative : Bool) (y : Char) (ys : Text), y ≠ c → (sign negative ++ y :: ys).head? ≠ some c := by
    intro negative y ys hy
    cases negative with
    | true => simpa [sign] using hm.symm
    | false => simpa [sign] using hy
  cases x with
  | int k =>
    obtain ⟨y, ys, hy⟩ := List.exists_cons_of_ne_nil (Nat.toDigits_ne_nil (n := k.natAbs) (b := 10))
    have hyd : y.isDigit = true := Nat.isDigit_of_mem_toDigits (b := 10) (n := k.natAbs) (by decide)
      (by decide) (by rw [hy]; simp)
    rw [numberText, strInt, hy, List.append_assoc]
    exact hsign _ _ _ (ne_of_isDigit hyd c hd)
  | float f =>
    obtain ⟨f, hf⟩ := f
    cases f with
    | finite d =>
      obtain ⟨y, ys, hy, hyd, -⟩ := d.exists_repr_cons
      have hnumber : numberText (R := R) (.float ⟨.finite d, hf⟩) = d.repr := rfl
      rw [hnumber, hy, List.append_assoc]
      exact hsign _ _ _ (ne_of_isDigit hyd c hd)
    | infinite negative =>
      have hnumber : numberText (R := R) (.float ⟨.infinite negative, hf⟩) ++ rest =
          sign negative ++ 'I' :: ("nfinity".toList ++ rest) := by
        cases negative <;> rfl
      rw [hnumber]
      exact hsign negative 'I' _ hi.symm
    | nan => exact fun h => hn (Option.some.inj h).symm

section RoundTrip

variable {enc : Char → Text}

theorem readPair_quoted (henc : ∀ c, Decodes enc c) {n : Nat} {k : Text} {v : JsValue (Number R)} {rest : Text}
    (hv : readValue n (dumpsWith enc v ++ rest) = some (v, rest)) :
    readPair (n + 1) (quoted enc k ++ ':' :: ' ' :: (dumpsWith enc v ++ rest)) = some ((k, v), rest) := by
  have htext : quoted enc k ++ ':' :: ' ' :: (dumpsWith enc v ++ rest) =
      '"' :: (k.flatMap enc ++ '"' :: ':' :: ' ' :: (dumpsWith enc v ++ rest)) := by simp [quoted]
  have hskip : skip (' ' :: (dumpsWith enc v ++ rest)) = dumpsWith enc v ++ rest := skip_dumpsWith enc v rest
  rw [htext, readPair, readString_quoted henc, Option.bind_some, skip_cons rfl]
  simp only [hskip, hv, Option.map_some]

mutual

/-- **What is written is read back**, with as many steps as it has characters. -/
theorem readValue_dumpsWith (henc : ∀ c, Decodes enc c) : ∀ (v : JsValue (Number R)) (n : Nat) (rest : Text),
    Ends rest → (dumpsWith enc v).length ≤ n → readValue n (dumpsWith enc v ++ rest) = some (v, rest)
  | v, 0, rest, _, hn => by
    obtain ⟨c, cs, hc, -⟩ := exists_dumpsWith_cons enc v
    rw [hc] at hn
    simp at hn
  | null, n + 1, rest, _, _ => rfl
  | .bool true, n + 1, rest, _, _ => rfl
  | .bool false, n + 1, rest, _, _ => rfl
  | number x, n + 1, rest, hr, _ => by
    have hdumps : dumpsWith enc (number x) = numberText x := rfl
    rw [hdumps, readValue_word (head_numberText_ne x rest rfl (by decide) (by decide) (by decide))
      (head_numberText_ne x rest rfl (by decide) (by decide) (by decide))
      (head_numberText_ne x rest rfl (by decide) (by decide) (by decide)), readWord_number x hr]
  | text t, n + 1, rest, _, _ => by
    have htext : dumpsWith enc (text t : JsValue (Number R)) ++ rest = '"' :: (t.flatMap enc ++ '"' :: rest) := by
      simp [dumpsWith, quoted]
    rw [htext, readValue, readString_quoted henc, Option.map_some]
  | list [], n + 1, rest, _, _ => rfl
  | list (v :: vs), n + 1, rest, _, hn => by
    have htext : dumpsWith enc (list (v :: vs)) ++ rest =
        '[' :: (dumpsWith enc v ++ (dumpsItems enc vs ++ rest)) := by simp [dumpsWith]
    have hlen : (dumpsWith enc v).length + (dumpsItems enc vs).length ≤ n := by
      simp only [dumpsWith, List.length_cons, List.length_append] at hn
      omega
    have hhead : (skip (dumpsWith enc v ++ (dumpsItems enc vs ++ rest))).head? ≠ some ']' := by
      obtain ⟨c, cs, hc, -, hne, -⟩ := exists_dumpsWith_cons enc v
      rw [skip_dumpsWith, hc]
      exact fun h => hne (Option.some.inj h)
    have hv := readValue_dumpsWith henc v n (dumpsItems enc vs ++ rest) (ends_dumpsItems vs rest) (by omega)
    have hvs := readItems_dumpsItems henc vs n rest (by omega)
    rw [htext, readValue_list n hhead, skip_dumpsWith, hv, Option.bind_some, hvs, Option.map_some]
  | mapping [], n + 1, rest, _, _ => rfl
  | mapping ((k, v) :: es), n + 1, rest, _, hn => by
    have htext : dumpsWith enc (mapping ((k, v) :: es)) ++ rest = '\x7b' ::
        (quoted enc k ++ ':' :: ' ' :: (dumpsWith enc v ++ (dumpsEntries enc es ++ rest))) := by
      simp [dumpsWith]
    have hlen : (dumpsWith enc v).length + (dumpsEntries enc es).length + 2 ≤ n := by
      simp only [dumpsWith, quoted, List.length_cons, List.length_append] at hn
      omega
    have hskip : skip (quoted enc k ++ ':' :: ' ' :: (dumpsWith enc v ++ (dumpsEntries enc es ++ rest))) =
        quoted enc k ++ ':' :: ' ' :: (dumpsWith enc v ++ (dumpsEntries enc es ++ rest)) := skip_cons rfl _
    have hv := fun m hm => readValue_dumpsWith henc v m (dumpsEntries enc es ++ rest)
      (ends_dumpsEntries es rest) hm
    have hes := readPairs_dumpsEntries henc es n rest (by omega)
    rw [htext, readValue_mapping n (by rw [hskip]; simp [quoted]), hskip]
    obtain ⟨m, rfl⟩ : ∃ m, n = m + 1 := ⟨n - 1, by omega⟩
    rw [readPair_quoted henc (hv m (by omega)), Option.bind_some, hes, Option.map_some]

/-- The elements behind the first one. -/
theorem readItems_dumpsItems (henc : ∀ c, Decodes enc c) : ∀ (vs : List (JsValue (Number R))) (n : Nat)
    (rest : Text), (dumpsItems enc vs).length ≤ n → readItems n (dumpsItems enc vs ++ rest) = some (vs, rest)
  | vs, 0, rest, hn => by
    have := length_dumpsItems_pos enc vs
    omega
  | [], n + 1, rest, _ => rfl
  | v :: vs, n + 1, rest, hn => by
    have htext : dumpsItems enc (v :: vs) ++ rest =
        ',' :: ' ' :: (dumpsWith enc v ++ (dumpsItems enc vs ++ rest)) := by simp [dumpsItems]
    have hlen : (dumpsWith enc v).length + (dumpsItems enc vs).length ≤ n := by
      simp only [dumpsItems, List.length_cons, List.length_append] at hn
      omega
    have hskip : skip (' ' :: (dumpsWith enc v ++ (dumpsItems enc vs ++ rest))) =
        dumpsWith enc v ++ (dumpsItems enc vs ++ rest) := skip_dumpsWith enc v _
    have hv := readValue_dumpsWith henc v n (dumpsItems enc vs ++ rest) (ends_dumpsItems vs rest) (by omega)
    have hvs := readItems_dumpsItems henc vs n rest (by omega)
    rw [htext, readItems, skip_cons rfl]
    simp only [hskip, hv, Option.bind_some, hvs, Option.map_some]

/-- The pairs behind the first one. -/
theorem readPairs_dumpsEntries (henc : ∀ c, Decodes enc c) : ∀ (es : List (Text × JsValue (Number R)))
    (n : Nat) (rest : Text), (dumpsEntries enc es).length ≤ n →
    readPairs n (dumpsEntries enc es ++ rest) = some (es, rest)
  | es, 0, rest, hn => by
    have := length_dumpsEntries_pos enc es
    omega
  | [], n + 1, rest, _ => rfl
  | (k, v) :: es, n + 1, rest, hn => by
    have htext : dumpsEntries enc ((k, v) :: es) ++ rest = ',' :: ' ' ::
        (quoted enc k ++ ':' :: ' ' :: (dumpsWith enc v ++ (dumpsEntries enc es ++ rest))) := by
      simp [dumpsEntries]
    have hlen : (dumpsWith enc v).length + (dumpsEntries enc es).length + 2 ≤ n := by
      simp only [dumpsEntries, quoted, List.length_cons, List.length_append] at hn
      omega
    have hskip : skip (' ' :: (quoted enc k ++ ':' :: ' ' :: (dumpsWith enc v ++ (dumpsEntries enc es ++ rest)))) =
        quoted enc k ++ ':' :: ' ' :: (dumpsWith enc v ++ (dumpsEntries enc es ++ rest)) := rfl
    have hv := fun m hm => readValue_dumpsWith henc v m (dumpsEntries enc es ++ rest)
      (ends_dumpsEntries es rest) hm
    have hes := readPairs_dumpsEntries henc es n rest (by omega)
    rw [htext, readPairs, skip_cons rfl]
    obtain ⟨m, rfl⟩ : ∃ m, n = m + 1 := ⟨n - 1, by omega⟩
    simp only [hskip, readPair_quoted henc (hv m (by omega)), Option.bind_some, hes, Option.map_some]

end

/-- **A value is read back from its text**, however the characters of its strings are escaped. -/
theorem loads_dumpsWith (henc : ∀ c, Decodes enc c) (v : JsValue (Number R)) :
    loads (dumpsWith enc v) = some v := by
  have hread := readValue_dumpsWith henc v ((dumpsWith enc v).length + 1) [] (fun c h => by cases h)
    (Nat.le_succ _)
  have hskip := skip_dumpsWith enc v []
  rw [List.append_nil] at hread hskip
  rw [loads, hskip, hread]
  rfl

end RoundTrip

/-! ## The characters that are written -/

/-- A character of a number, of a word or between the parts of a value. -/
def isFixed (c : Char) : Bool := c.isDigit || c ∈ "nultruefalsInfinityNaN+-.[]:, \"\x7b\x7d".toList

theorem isFixed_of_mem_numberText {n : Number R} : ∀ c ∈ numberText n, isFixed c = true ∧ c ≠ ' ' ∧ c ≠ '"' := by
  have hdigit : ∀ c : Char, c.isDigit = true → isFixed c = true ∧ c ≠ ' ' ∧ c ≠ '"' := fun c hc =>
    ⟨by simp [isFixed, hc], ne_of_isDigit hc ' ' rfl, ne_of_isDigit hc '"' rfl⟩
  have hsign : ∀ (negative : Bool), ∀ c ∈ sign negative, isFixed c = true ∧ c ≠ ' ' ∧ c ≠ '"' := by decide
  have hpoint : ∀ c ∈ ['.', 'e', '-', '+'], isFixed c = true ∧ c ≠ ' ' ∧ c ≠ '"' := by decide
  intro c hc
  cases n with
  | int n =>
    rcases List.mem_append.mp hc with hc | hc
    · exact hsign _ c hc
    · exact hdigit c (Nat.isDigit_of_mem_toDigits (b := 10) (by decide) (by decide) hc)
  | float x =>
    obtain ⟨x, hx⟩ := x
    cases x with
    | finite d =>
      obtain ⟨y, ys, hy, -, hall⟩ := d.exists_repr_cons
      have hnumber : numberText (R := R) (.float ⟨.finite d, hx⟩) = d.repr := rfl
      rw [hnumber, hy] at hc
      rcases List.mem_append.mp hc with hc | hc
      · exact hsign _ c hc
      · rcases hall c hc with hd | hp
        · exact hdigit c hd
        · exact hpoint c hp
    | infinite negative =>
      have hall : ∀ negative, ∀ c ∈ floatJson (.infinite negative), isFixed c = true ∧ c ≠ ' ' ∧ c ≠ '"' := by
        decide
      exact hall negative c hc
    | nan =>
      have hall : ∀ c ∈ floatJson .nan, isFixed c = true ∧ c ≠ ' ' ∧ c ≠ '"' := by decide
      exact hall c hc

/-- The texts of the values without parts. -/
theorem isFixed_of_mem_word : ∀ t ∈ ["null".toList, "true".toList, "false".toList, "[]".toList, "]".toList,
    "\x7b\x7d".toList, "\x7d".toList], ∀ c ∈ t, isFixed c = true := by decide

section Characters

variable {enc : Char → Text} {P : Char → Prop}

theorem forall_mem_quoted (hfixed : ∀ c, isFixed c = true → P c) (henc : ∀ x, ∀ c ∈ enc x, P c) (t : Text) :
    ∀ c ∈ quoted enc t, P c := by
  intro c hc
  simp only [quoted, List.mem_cons, List.mem_append, List.mem_flatMap, List.not_mem_nil, or_false] at hc
  rcases hc with rfl | ⟨x, -, hx⟩ | rfl
  · exact hfixed _ rfl
  · exact henc x c hx
  · exact hfixed _ rfl

mutual

/-- What holds of the characters between the strings and of those inside them holds of the whole text. -/
theorem forall_mem_dumpsWith (hfixed : ∀ c, isFixed c = true → P c) (henc : ∀ x, ∀ c ∈ enc x, P c) :
    ∀ (v : JsValue (Number R)), ∀ c ∈ dumpsWith enc v, P c
  | null, c, hc => hfixed c (isFixed_of_mem_word "null".toList (by decide) c hc)
  | .bool true, c, hc => hfixed c (isFixed_of_mem_word "true".toList (by decide) c hc)
  | .bool false, c, hc => hfixed c (isFixed_of_mem_word "false".toList (by decide) c hc)
  | number n, c, hc => hfixed c (isFixed_of_mem_numberText c hc).1
  | text t, c, hc => forall_mem_quoted hfixed henc t c hc
  | list [], c, hc => hfixed c (isFixed_of_mem_word "[]".toList (by decide) c hc)
  | list (v :: vs), c, hc => by
    rcases List.mem_cons.mp hc with rfl | hc
    · exact hfixed _ rfl
    rcases List.mem_append.mp hc with hc | hc
    · exact forall_mem_dumpsWith hfixed henc v c hc
    · exact forall_mem_dumpsItems hfixed henc vs c hc
  | mapping [], c, hc => hfixed c (isFixed_of_mem_word "\x7b\x7d".toList (by decide) c hc)
  | mapping ((k, v) :: es), c, hc => by
    simp only [dumpsWith, List.mem_cons, List.mem_append] at hc
    rcases hc with rfl | hc | rfl | rfl | hc | hc
    · exact hfixed _ rfl
    · exact forall_mem_quoted hfixed henc k c hc
    · exact hfixed _ rfl
    · exact hfixed _ rfl
    · exact forall_mem_dumpsWith hfixed henc v c hc
    · exact forall_mem_dumpsEntries hfixed henc es c hc

theorem forall_mem_dumpsItems (hfixed : ∀ c, isFixed c = true → P c) (henc : ∀ x, ∀ c ∈ enc x, P c) :
    ∀ (vs : List (JsValue (Number R))), ∀ c ∈ dumpsItems enc vs, P c
  | [], c, hc => hfixed c (isFixed_of_mem_word "]".toList (by decide) c hc)
  | v :: vs, c, hc => by
    simp only [dumpsItems, List.mem_cons, List.mem_append] at hc
    rcases hc with rfl | rfl | hc | hc
    · exact hfixed _ rfl
    · exact hfixed _ rfl
    · exact forall_mem_dumpsWith hfixed henc v c hc
    · exact forall_mem_dumpsItems hfixed henc vs c hc

theorem forall_mem_dumpsEntries (hfixed : ∀ c, isFixed c = true → P c) (henc : ∀ x, ∀ c ∈ enc x, P c) :
    ∀ (es : List (Text × JsValue (Number R))), ∀ c ∈ dumpsEntries enc es, P c
  | [], c, hc => hfixed c (isFixed_of_mem_word "\x7d".toList (by decide) c hc)
  | (k, v) :: es, c, hc => by
    simp only [dumpsEntries, List.mem_cons, List.mem_append] at hc
    rcases hc with rfl | rfl | hc | rfl | rfl | hc | hc
    · exact hfixed _ rfl
    · exact hfixed _ rfl
    · exact forall_mem_quoted hfixed henc k c hc
    · exact hfixed _ rfl
    · exact hfixed _ rfl
    · exact forall_mem_dumpsWith hfixed henc v c hc
    · exact forall_mem_dumpsEntries hfixed henc es c hc

end

variable {f : Char → Text}

theorem flatMap_eq_self {t : Text} (h : ∀ c ∈ t, f c = [c]) : t.flatMap f = t := by
  induction t with
  | nil => rfl
  | cons c t ih =>
    rw [List.flatMap_cons, h c List.mem_cons_self, ih fun x hx => h x (List.mem_cons_of_mem c hx)]
    rfl

theorem flatMap_quoted (hf : ∀ c, isFixed c = true → f c = [c]) (t : Text) :
    (quoted enc t).flatMap f = quoted (fun c => (enc c).flatMap f) t := by
  simp only [quoted, List.flatMap_cons, List.flatMap_append, List.flatMap_nil, List.append_nil, hf '"' rfl,
    List.singleton_append, List.flatMap_assoc]

mutual

/-- A replacement of characters of the text, none of them outside the strings, is one of their escapes. -/
theorem flatMap_dumpsWith (hf : ∀ c, isFixed c = true → f c = [c]) : ∀ (v : JsValue (Number R)),
    (dumpsWith enc v).flatMap f = dumpsWith (fun c => (enc c).flatMap f) v
  | null => flatMap_eq_self fun c hc => hf c (isFixed_of_mem_word "null".toList (by decide) c hc)
  | .bool true => flatMap_eq_self fun c hc => hf c (isFixed_of_mem_word "true".toList (by decide) c hc)
  | .bool false => flatMap_eq_self fun c hc => hf c (isFixed_of_mem_word "false".toList (by decide) c hc)
  | number n => flatMap_eq_self fun c hc => hf c (isFixed_of_mem_numberText c hc).1
  | text t => flatMap_quoted hf t
  | list [] => flatMap_eq_self fun c hc => hf c (isFixed_of_mem_word "[]".toList (by decide) c hc)
  | list (v :: vs) => by
    simp only [dumpsWith, List.flatMap_cons, List.flatMap_append, flatMap_dumpsWith hf v,
      flatMap_dumpsItems hf vs, hf '[' rfl, List.singleton_append]
  | mapping [] => flatMap_eq_self fun c hc => hf c (isFixed_of_mem_word "\x7b\x7d".toList (by decide) c hc)
  | mapping ((k, v) :: es) => by
    simp only [dumpsWith, List.flatMap_cons, List.flatMap_append, flatMap_quoted hf k, flatMap_dumpsWith hf v,
      flatMap_dumpsEntries hf es, hf '\x7b' rfl, hf ':' rfl, hf ' ' rfl, List.singleton_append]

theorem flatMap_dumpsItems (hf : ∀ c, isFixed c = true → f c = [c]) : ∀ (vs : List (JsValue (Number R))),
    (dumpsItems enc vs).flatMap f = dumpsItems (fun c => (enc c).flatMap f) vs
  | [] => flatMap_eq_self fun c hc => hf c (isFixed_of_mem_word "]".toList (by decide) c hc)
  | v :: vs => by
    simp only [dumpsItems, List.flatMap_cons, List.flatMap_append, flatMap_dumpsWith hf v,
      flatMap_dumpsItems hf vs, hf ',' rfl, hf ' ' rfl, List.singleton_append]

theorem flatMap_dumpsEntries (hf : ∀ c, isFixed c = true → f c = [c]) :
    ∀ (es : List (Text × JsValue (Number R))),
      (dumpsEntries enc es).flatMap f = dumpsEntries (fun c => (enc c).flatMap f) es
  | [] => flatMap_eq_self fun c hc => hf c (isFixed_of_mem_word "\x7d".toList (by decide) c hc)
  | (k, v) :: es => by
    simp only [dumpsEntries, List.flatMap_cons, List.flatMap_append, flatMap_quoted hf k,
      flatMap_dumpsWith hf v, flatMap_dumpsEntries hf es, hf ',' rfl, hf ':' rfl, hf ' ' rfl,
      List.singleton_append]

end

end Characters

/-! ## What a string costs -/

section Cost

variable (free : Char → Bool)

/-- How many code units of a character are escaped when only `free` characters stand for themselves. -/
def cost (c : Char) : Nat := if free c = true then 0 else (codeUnits c).length

/-- The same, of a text. -/
def costs : Text → Nat
  | [] => 0
  | c :: t => cost free c + costs t

/-- A code unit that is not that of a free character. -/
def isSpecial (u : Nat) : Bool := !(free (charOfUnit u) && (charOfUnit u).toNat = u)

/-- An escape that is not at its end. -/
def Mode.pending : Mode → Nat
  | .plain => 0
  | _ => 1

/-- The digits of an escape that are still to come keep its value small. -/
def Mode.Bounded : Mode → Prop
  | .code left value => 1 ≤ left ∧ (value + 1) * Nat.pow 16 left ≤ 65536
  | _ => True

variable {free}

theorem hexDigit_lt {c : Char} {d : Nat} (h : hexDigit c = some d) : d < 16 := by
  unfold hexDigit at h
  split at h
  · rename_i hc
    have hle := (Char.isDigit_iff_toNat.mp hc).2
    rw [← Option.some.inj h]
    have : '0'.toNat = 48 := rfl
    have : '9'.toNat = 57 := rfl
    omega
  · split at h
    · rename_i hc
      have hle : c.toNat ≤ 102 := hc.2
      rw [← Option.some.inj h]
      have : 'a'.toNat = 97 := rfl
      omega
    · split at h
      · rename_i hc
        have hle : c.toNat ≤ 70 := hc.2
        rw [← Option.some.inj h]
        have : 'A'.toNat = 65 := rfl
        omega
      · cases h

/-- A character inside a string: a code unit that is not that of a free character took a backslash. -/
theorem next_cost {m m' : Mode} {c : Char} {out : List Nat} (h : next m c = .go m' out)
    (hc : c = '"' ∨ c = '\\' ∨ free c = true) (hm : m.Bounded) :
    m'.Bounded ∧ out.countP (isSpecial free) + m'.pending ≤ m.pending + (if c = '\\' then 1 else 0) ∧
      ∀ u ∈ out, isSpecial free u = true → u < 65536 := by
  cases m with
  | plain =>
    unfold next at h
    by_cases hq : c = '"'
    · simp [hq] at h
    by_cases hb : c = '\\'
    · obtain ⟨rfl, rfl⟩ : .escape = m' ∧ [] = out := by simpa [hq, hb] using h
      exact ⟨trivial, by simp [Mode.pending, hb], by simp⟩
    by_cases hlow : c.toNat < 0x20
    · simp [hq, hb, hlow] at h
    obtain ⟨rfl, rfl⟩ : .plain = m' ∧ [c.toNat] = out := by simpa [hq, hb, hlow] using h
    have hfree : isSpecial free c.toNat = false := by
      rw [isSpecial, charOfUnit_toNat, (hc.resolve_left hq).resolve_left hb]
      simp
    refine ⟨trivial, by simp [Mode.pending, hfree], fun u hu hs => ?_⟩
    rw [List.mem_singleton.mp hu, hfree] at hs
    cases hs
  | escape =>
    unfold next at h
    by_cases hu : c = 'u'
    · obtain ⟨rfl, rfl⟩ : .code 4 0 = m' ∧ [] = out := by simpa [hu] using h
      exact ⟨⟨by decide, by decide⟩, by simp [Mode.pending], by simp⟩
    · simp only [hu, if_false] at h
      split at h
      · rename_i e he
        obtain ⟨rfl, rfl⟩ : .plain = m' ∧ [e.1.toNat] = out := by simpa using h
        have hsmall : ∀ e ∈ ('/', '/') :: shortEscapes, e.1.toNat < 65536 := by decide
        have hlt := hsmall e (List.mem_of_find?_eq_some he)
        refine ⟨trivial, ?_, fun u hu _ => by rwa [List.mem_singleton.mp hu]⟩
        have := List.countP_le_length (p := isSpecial free) (l := [e.1.toNat])
        simp only [Mode.pending, List.length_singleton] at this ⊢
        omega
      · cases h
  | code left value =>
    obtain ⟨hleft, hvalue⟩ := hm
    unfold next at h
    cases hd : hexDigit c with
    | none => simp [hd] at h
    | some d =>
      have hd16 := hexDigit_lt hd
      obtain ⟨k, rfl⟩ : ∃ k, left = k + 1 := ⟨left - 1, by omega⟩
      by_cases hk : k = 0
      · subst hk
        obtain ⟨rfl, rfl⟩ : .plain = m' ∧ [16 * value + d] = out := by simpa [hd] using h
        refine ⟨trivial, ?_, fun u hu _ => ?_⟩
        · have := List.countP_le_length (p := isSpecial free) (l := [16 * value + d])
          simp only [Mode.pending, List.length_singleton] at this ⊢
          omega
        · have hone : Nat.pow 16 (0 + 1) = 16 := rfl
          rw [hone] at hvalue
          rw [List.mem_singleton.mp hu]
          omega
      · obtain ⟨rfl, rfl⟩ : .code k (16 * value + d) = m' ∧ [] = out := by simpa [hd, hk] using h
        refine ⟨⟨by omega, le_trans ?_ hvalue⟩, by simp [Mode.pending], by simp⟩
        calc (16 * value + d + 1) * 16 ^ k ≤ ((value + 1) * 16) * 16 ^ k :=
              Nat.mul_le_mul_right _ (by omega)
          _ = (value + 1) * 16 ^ (k + 1) := by rw [Nat.pow_succ, Nat.mul_assoc, Nat.mul_comm 16]

/-- The same along a string. -/
theorem units_cost {t rest : Text} {m : Mode} {us : List Nat} (h : units m t = some (us, rest))
    (ht : ∀ c ∈ t, c = '"' ∨ c = '\\' ∨ free c = true) (hm : m.Bounded) :
    us.countP (isSpecial free) ≤ m.pending + t.count '\\' ∧ ∀ u ∈ us, isSpecial free u = true → u < 65536 := by
  induction t generalizing m us with
  | nil => cases m <;> cases h
  | cons c t ih =>
    rw [units] at h
    split at h
    · cases h
    · obtain ⟨rfl, -⟩ := Prod.mk.inj (Option.some.inj h)
      simp
    · rename_i m' out hnext
      obtain ⟨⟨us', rest'⟩, hus, he⟩ := Option.map_eq_some_iff.mp h
      obtain ⟨rfl, rfl⟩ := Prod.mk.inj he
      obtain ⟨hbounded, hcount, hsmall⟩ := next_cost hnext (ht c List.mem_cons_self) hm
      obtain ⟨hcount', hsmall'⟩ := ih hus (fun x hx => ht x (List.mem_cons_of_mem c hx)) hbounded
      constructor
      · rw [List.countP_append, List.count_cons]
        simp only [beq_iff_eq] at *
        omega
      · intro u hu
        rcases List.mem_append.mp hu with hu | hu
        · exact hsmall u hu
        · exact hsmall' u hu

/-- Characters put together from code units need no more escapes. -/
theorem costs_combine_le {us : List Nat} (h : ∀ u ∈ us, isSpecial free u = true → u < 65536) :
    costs free (combine us) ≤ us.countP (isSpecial free) := by
  have hone : ∀ u, (isSpecial free u = true → u < 65536) →
      cost free (charOfUnit u) ≤ if isSpecial free u = true then 1 else 0 := by
    intro u hu
    by_cases hs : isSpecial free u = true
    · have hlt : (charOfUnit u).toNat < 0x10000 := by
        unfold charOfUnit
        split
        · rename_i hvalid
          rw [toNat_ofNat hvalid]
          exact hu hs
        · decide
      rw [if_pos hs, cost, codeUnits_of_lt hlt]
      split <;> simp
    · rw [if_neg hs]
      have hfree : free (charOfUnit u) = true := by
        simp only [isSpecial, Bool.not_eq_true, Bool.not_eq_false', Bool.and_eq_true] at hs
        exact hs.1
      rw [cost, if_pos hfree]
  induction us using combine.induct with
  | case1 => simp [combine, costs]
  | case2 u =>
    have := hone u (h u (by simp))
    simpa [combine, costs, List.countP_cons] using this
  | case3 u u' us hpair ih =>
    have hspecial : ∀ w, 0xD800 ≤ w → w ≤ 0xDFFF → isSpecial free w = true := by
      intro w h₁ h₂
      have hvalid : ¬ w.isValidChar := by
        rintro (h | ⟨h, -⟩) <;> omega
      have hne : decide (('\uFFFD' : Char).toNat = w) = false := by
        have : ('\uFFFD' : Char).toNat = 0xFFFD := rfl
        simp only [decide_eq_false_iff_not]
        omega
      rw [isSpecial, charOfUnit, if_neg hvalid, hne, Bool.and_false]
      rfl
    have hu := hspecial u hpair.1.1 (by omega)
    have hu' := hspecial u' (by omega) (by omega)
    have hle : ∀ c, cost free c ≤ 2 := by
      intro c
      unfold cost codeUnits
      split
      · omega
      · split <;> simp
    have ih' := ih fun w hw => h w (List.mem_cons_of_mem _ (List.mem_cons_of_mem _ hw))
    have := hle (charOfUnit (0x10000 + (u - 0xD800) * 0x400 + (u' - 0xDC00)))
    rw [combine, if_pos hpair, List.countP_cons, List.countP_cons, if_pos hu, if_pos hu']
    simp only [costs] at ih' ⊢
    omega
  | case4 u u' us hpair ih =>
    have ih' := ih fun w hw => h w (List.mem_cons_of_mem _ hw)
    have := hone u (h u List.mem_cons_self)
    rw [combine, if_neg hpair, List.countP_cons]
    simp only [costs] at ih' ⊢
    omega

/-- **Each code unit of a string took a backslash**, but those of characters that stand for themselves. -/
theorem costs_readString_le {t s rest : Text} (h : readString t = some (s, rest))
    (ht : ∀ c ∈ t, c = '"' ∨ c = '\\' ∨ free c = true) : costs free s ≤ t.count '\\' := by
  obtain ⟨⟨us, rest'⟩, hus, he⟩ := Option.map_eq_some_iff.mp h
  obtain ⟨rfl, -⟩ := Prod.mk.inj he
  obtain ⟨hcount, hsmall⟩ := units_cost hus ht trivial
  have hle := costs_combine_le hsmall
  simp only [Mode.pending] at hcount ⊢
  omega

end Cost

end LabInABox.Text.PyJson
