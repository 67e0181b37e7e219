import LabInABox.Spacecmd.Objects
import LabInABox.Text.PyJson
import LabInABox.Text.Shlex

/-!
# Arguments of an API call

Model of `_api_call` (`libs/spacecmd_common.py`), and of the way of its command: the shell on the server, the
command line `spacecmd` puts together again, and its `-A` option.

* A method is a word of letters, digits and dots, and so are the words of a `kubectl` prefix. A prefix of
  `mgrctl` makes its own shell run the command.
* `spacecmd` wraps a word with whitespace in single quotes, joins the words with blanks, and splits that line.
* Text that is not JSON is one string for each part between commas.

Results:
* `argsJson_eq`: the argument is a JSON text without a single quote.
* `spacecmd_of_spaced`, `spacecmd_of_plain`: with a blank, or without strings, it arrives.
* `costs_le`: strings read from a text of few characters cost backslashes.
* `arrives_iff`: exactly which arguments arrive. A text without a blank loses its quotes, and each value is what
  JSON or the commas make of the rest.
-/

namespace LabInABox.Spacecmd.ApiCall

open Text Text.PyJson JsValue

variable {R : Rounding}

/-! ## The command -/

/-- A word no shell changes. -/
structure PlainWord where
  text : Text
  nonempty : text ≠ []
  safe : text.all isShellSafe = true

/-- How the server is reached. -/
inductive ExecPrefix
  | kubectl (words : List PlainWord)
  | mgrctl

/-- `args[0] if len(args) == 1 else args`. -/
def payload : List (JsValue (Number R)) → JsValue (Number R)
  | [v] => v
  | vs => list vs

/-- `json.dumps(..).replace("'", "\\u0027")`. -/
def argsJson (args : List (JsValue (Number R))) : Text :=
  (dumps (payload args)).flatMap fun c => if c = '\'' then "\\u0027".toList else [c]

/-- `"spacecmd -- api -A {} {}".format(shlex.quote(args_json), method)`. -/
def apiCommand (method : PlainWord) (args : List (JsValue (Number R))) : Text :=
  "spacecmd -- api -A ".toList ++ shlexQuote (argsJson args) ++ ' ' :: method.text

/-- `full_cmd` of `_run`. -/
def fullCmd : ExecPrefix → Text → Text
  | .kubectl words, cmd => (words.flatMap fun w => w.text ++ [' ']) ++ cmd
  | .mgrctl, cmd => "mgrctl exec ".toList ++ shlexQuote cmd

/-- The words of the command that is run. -/
def argv : ExecPrefix → Text → Option (List Text)
  | .kubectl words, cmd => (Shlex.split (fullCmd (.kubectl words) cmd)).map (List.drop words.length)
  | .mgrctl, cmd =>
    (Shlex.split (fullCmd .mgrctl cmd)).bind fun ws =>
      match ws with
      | [_, _, c] => Shlex.split c
      | _ => none

/-! ## What arrives -/

/-- A word on the line `spacecmd` puts together. -/
def requote (w : Text) : Text := if w.any isSpace then '\'' :: (w ++ ['\'']) else w

/-- The value of `-A`. -/
def argsValue (t : Text) : JsValue (Number R) :=
  match loads t with
  | some v => v
  | none =>
    match t.splitOn ',' with
    | [s] => text s
    | ss => list (ss.map text)

/-- What `spacecmd` gives the method, from the words behind `--`. -/
def spacecmd (ws : List Text) : Option (JsValue (Number R)) :=
  (Shlex.split ([' '].intercalate (ws.map requote))).bind fun ws =>
    match ws with
    | [_, _, value, _] => some (argsValue value)
    | _ => none

/-- What the method receives. -/
def received (p : ExecPrefix) (method : PlainWord) (args : List (JsValue (Number R))) :
    Option (JsValue (Number R)) :=
  (argv p (apiCommand method args)).bind fun ws => spacecmd (ws.drop 2)

/-! ## What is kept -/

/-- Does the JSON text have a blank? -/
def spaced : JsValue (Number R) → Bool
  | text t => decide (' ' ∈ t)
  | list (v :: vs) => !vs.isEmpty || spaced v
  | mapping es => !es.isEmpty
  | _ => false

/-- The value inside lists of one element. -/
def innermost : JsValue (Number R) → JsValue (Number R)
  | list [v] => innermost v
  | v => v

/-- A string that is read as itself without its quotes. -/
def Bare (s : Text) : Prop :=
  (∀ c ∈ s, ' ' < c ∧ c ≤ '~' ∧ c ≠ '\'' ∧ c ≠ ',') ∧ loads (R := R) s = none

/-- The value goes through both command lines. -/
def Kept (v : JsValue (Number R)) : Prop :=
  spaced v = true ∨ (∀ s, innermost v ≠ text s) ∨ ∃ s, v = text s ∧ Bare (R := R) s

/-! ## How a character is written -/

/-- `json.dumps` of a character inside quotes, with `replace`. -/
def apiEscape (c : Char) : Text :=
  (asciiEscape c).flatMap fun c => if c = '\'' then "\\u0027".toList else [c]

/-- A character that stands for itself between the quotes. -/
def isFree (c : Char) : Bool := decide (' ' ≤ c ∧ c ≤ '~' ∧ c ≠ '"' ∧ c ≠ '\\' ∧ c ≠ '\'')

/-- What the line of `spacecmd` leaves of a character. -/
def bare (c : Char) : Text := if c = '"' ∨ c = '\\' then [c] else apiEscape c

/-- The characters behind the backslash of an escape that stays. -/
def escapeChars : Text := "0123456789abcdefunrt".toList

/-- The text `t` writes `c` with escapes that the line leaves alone. -/
structure Coded (c : Char) (t : Text) : Prop where
  reads : Shlex.QuotedPiece t t
  count : t.count '\\' = (codeUnits c).length
  chars : ∀ x ∈ t, x = '\\' ∨ x ∈ escapeChars

theorem isFree_of_mem_escapeChars : ∀ x ∈ escapeChars, isFree x = true ∧ x ≠ ' ' := by decide

theorem coded_short {c e : Char} (h : (c, e) ∈ shortEscapes) (hq : c ≠ '"') (hb : c ≠ '\\') :
    Coded c ['\\', e] := by
  have hall : ∀ p ∈ shortEscapes, p.1 ≠ '"' → p.1 ≠ '\\' →
      p.2 ∈ escapeChars ∧ p.2 ≠ '"' ∧ p.2 ≠ '\\' ∧ (codeUnits p.1).length = 1 := by decide
  obtain ⟨hmem, hq', hb', hlen⟩ := hall _ h hq hb
  refine ⟨.backslash hq' hb', ?_, fun x hx => ?_⟩
  · rw [hlen, List.count_cons_self, List.count_cons_of_ne hb', List.count_nil]
  · simp only [List.mem_cons, List.not_mem_nil, or_false] at hx
    rcases hx with rfl | rfl
    · exact Or.inl rfl
    · exact Or.inr hmem

/-- The escapes of code units. -/
theorem coded_units (us : List Nat) : Shlex.QuotedPiece (us.flatMap escapeUnit) (us.flatMap escapeUnit) ∧
    (us.flatMap escapeUnit).count '\\' = us.length ∧
      ∀ x ∈ us.flatMap escapeUnit, x = '\\' ∨ x ∈ escapeChars := by
  have hdigits : ∀ x ∈ "0123456789abcdef".toList, x ∈ escapeChars ∧ x ≠ '"' ∧ x ≠ '\\' := by decide
  induction us with
  | nil => exact ⟨.nil, rfl, fun x hx => by cases hx⟩
  | cons u us ih =>
    obtain ⟨hpiece, hcount, hchars⟩ := ih
    have hhex : ∀ x ∈ hex4 u, x ∈ escapeChars ∧ x ≠ '"' ∧ x ≠ '\\' := fun x hx => hdigits x (mem_hex4 u x hx)
    have hunit : Shlex.QuotedPiece (escapeUnit u) (escapeUnit u) :=
      (Shlex.QuotedPiece.backslash (c := 'u') (by decide) (by decide)).append
        (.plain (fun h => (hhex _ h).2.1 rfl) fun h => (hhex _ h).2.2 rfl)
    refine ⟨?_, ?_, fun x hx => ?_⟩
    · rw [List.flatMap_cons]
      exact hunit.append hpiece
    · have hnone : (hex4 u).count '\\' = 0 := List.count_eq_zero.mpr fun h => (hhex _ h).2.2 rfl
      rw [List.flatMap_cons, List.count_append, hcount, escapeUnit, List.count_cons_self,
        List.count_cons_of_ne (by decide), hnone, List.length_cons]
      omega
    · rw [List.flatMap_cons, List.mem_append] at hx
      rcases hx with hx | hx
      · simp only [escapeUnit, List.mem_cons] at hx
        rcases hx with rfl | rfl | hx
        · exact Or.inl rfl
        · exact Or.inr (by decide)
        · exact Or.inr (hhex x hx).1
      · exact hchars x hx

/-- No escape has a single quote but its own. -/
theorem flatMap_apostrophe {t : Text} (h : '\'' ∉ t) :
    (t.flatMap fun c => if c = '\'' then "\\u0027".toList else [c]) = t :=
  flatMap_eq_self fun c hc => if_neg (by rintro rfl; exact h hc)

/-- How a character is written: behind a backslash, as it stands, or with escapes that stay. -/
theorem apiEscape_cases (c : Char) :
    (c = '"' ∨ c = '\\') ∧ apiEscape c = ['\\', c] ∨
      isFree c = true ∧ apiEscape c = [c] ∨
      isFree c = false ∧ c ≠ '"' ∧ c ≠ '\\' ∧ Coded c (apiEscape c) := by
  by_cases hquote : c = '\''
  · subst hquote
    have hkept := coded_units [39]
    exact Or.inr (Or.inr ⟨rfl, by decide, by decide, hkept.1, hkept.2.1, hkept.2.2⟩)
  have hapostrophe : ∀ x, x ∈ escapeChars → x ≠ '\'' := by decide
  rcases asciiEscape_cases c with ⟨e, he, heq⟩ | ⟨hne, hc, heq⟩ | ⟨hc, heq⟩
  · by_cases hq : c = '"'
    · subst hq
      exact Or.inl ⟨Or.inl rfl, rfl⟩
    by_cases hb : c = '\\'
    · subst hb
      exact Or.inl ⟨Or.inr rfl, rfl⟩
    have hcoded := coded_short he hq hb
    have hfree : isFree c = false := by
      have hall : ∀ p ∈ shortEscapes, isFree p.1 = false := by decide
      exact hall _ he
    have heq' : apiEscape c = ['\\', e] := by
      rw [apiEscape, heq]
      refine flatMap_apostrophe fun h => ?_
      rcases hcoded.chars _ h with h | h
      · exact absurd h (by decide)
      · exact hapostrophe _ h rfl
    exact Or.inr (Or.inr ⟨hfree, hq, hb, heq' ▸ hcoded⟩)
  · have hq : c ≠ '"' := hne ('"', '"') (by decide)
    have hb : c ≠ '\\' := hne ('\\', '\\') (by decide)
    refine Or.inr (Or.inl ⟨by simp [isFree, hc, hq, hb, hquote], ?_⟩)
    rw [apiEscape, heq]
    exact flatMap_apostrophe (by simpa using fun e => hquote e.symm)
  · obtain ⟨hreads, hcount, hchars⟩ := coded_units (codeUnits c)
    have heq' : apiEscape c = (codeUnits c).flatMap escapeUnit := by
      rw [apiEscape, heq]
      refine flatMap_apostrophe fun h => ?_
      rcases hchars _ h with h | h
      · exact absurd h (by decide)
      · exact hapostrophe _ h rfl
    have hne : ∀ x : Char, ' ' ≤ x ∧ x ≤ '~' → c ≠ x := fun x hx e => hc (e ▸ hx)
    refine Or.inr (Or.inr ⟨?_, hne '"' (by decide), hne '\\' (by decide), heq' ▸ ⟨hreads, hcount, hchars⟩⟩)
    simp only [isFree, decide_eq_false_iff_not]
    exact fun h => hc ⟨h.1, h.2.1⟩

theorem quotedPiece_apiEscape (c : Char) : Shlex.QuotedPiece (apiEscape c) (bare c) := by
  rcases apiEscape_cases c with ⟨hc, heq⟩ | ⟨hc, heq⟩ | ⟨-, hq, hb, hcoded⟩
  · rw [heq, bare, if_pos hc]
    exact .escape hc
  · simp only [isFree, decide_eq_true_eq] at hc
    rw [bare, if_neg (by simp [hc.2.2.1, hc.2.2.2.1]), heq]
    exact .char hc.2.2.1 hc.2.2.2.1
  · rw [bare, if_neg (by simp [hq, hb])]
    exact hcoded.reads

/-- The backslashes and quotes the line leaves of a character are what it costs. -/
theorem count_bare (c : Char) : (bare c).count '\\' + (bare c).count '"' = cost isFree c := by
  rcases apiEscape_cases c with ⟨rfl | rfl, -⟩ | ⟨hc, heq⟩ | ⟨hc, hq, hb, hcoded⟩
  · rfl
  · rfl
  · have hc' := hc
    simp only [isFree, decide_eq_true_eq] at hc'
    rw [bare, if_neg (by simp [hc'.2.2.1, hc'.2.2.2.1]), heq, cost, if_pos hc,
      List.count_eq_zero.mpr (by simpa using hc'.2.2.2.1.symm), List.count_eq_zero.mpr (by simpa using hc'.2.2.1.symm)]
  · have hnone : (apiEscape c).count '"' = 0 := List.count_eq_zero.mpr fun h => by
      rcases hcoded.chars _ h with h | h
      · exact absurd h (by decide)
      · exact absurd (isFree_of_mem_escapeChars _ h).1 (by decide)
    rw [bare, if_neg (by simp [hq, hb]), hcoded.count, hnone, cost, if_neg (by simp [hc]), Nat.add_zero]

/-- What is left of a character is free, or a backslash or a double quote. -/
theorem mem_bare (c : Char) : ∀ x ∈ bare c, x = '"' ∨ x = '\\' ∨ isFree x = true := by
  intro x hx
  unfold bare at hx
  split at hx
  · rename_i hc
    rw [List.mem_singleton.mp hx]
    rcases hc with h | h
    · exact Or.inl h
    · exact Or.inr (Or.inl h)
  · rcases apiEscape_cases c with ⟨hc, -⟩ | ⟨hc, heq⟩ | ⟨-, -, -, hcoded⟩
    · contradiction
    · rw [heq, List.mem_singleton] at hx
      exact Or.inr (Or.inr (hx ▸ hc))
    · rcases hcoded.chars x hx with h | h
      · exact Or.inr (Or.inl h)
      · exact Or.inr (Or.inr (isFree_of_mem_escapeChars x h).1)

theorem bare_eq_iff (c : Char) : bare c = [c] ↔ ' ' ≤ c ∧ c ≤ '~' ∧ c ≠ '\'' := by
  rcases apiEscape_cases c with ⟨rfl | rfl, -⟩ | ⟨hc, heq⟩ | ⟨hc, hq, hb, hcoded⟩
  · decide
  · decide
  · simp only [isFree, decide_eq_true_eq] at hc
    rw [bare, if_neg (by simp [hc.2.2.1, hc.2.2.2.1]), heq]
    exact iff_of_true rfl ⟨hc.1, hc.2.1, hc.2.2.2.2⟩
  · refine iff_of_false (fun h => ?_) fun h => ?_
    · rw [bare, if_neg (by simp [hq, hb])] at h
      rcases hcoded.chars c (by rw [h]; exact List.mem_singleton_self c) with h | h
      · exact hb h
      · rw [(isFree_of_mem_escapeChars c h).1] at hc
        cases hc
    · rw [show isFree c = true by simp [isFree, h, hq, hb]] at hc
      cases hc

theorem one_le_length_bare (c : Char) : 1 ≤ (bare c).length := by
  rcases apiEscape_cases c with ⟨hc, -⟩ | ⟨-, heq⟩ | ⟨-, hq, hb, hcoded⟩
  · rw [bare, if_pos hc, List.length_singleton]
  · unfold bare
    split <;> simp [heq]
  · have hpos : 0 < (codeUnits c).length := by
      unfold codeUnits
      split <;> simp
    rw [bare, if_neg (by simp [hq, hb])]
    exact le_trans (hcoded.count ▸ hpos) List.count_le_length

/-- A text is left as it is when each of its characters is. -/
theorem flatMap_bare_eq_iff (s : Text) : s.flatMap bare = s ↔ ∀ c ∈ s, bare c = [c] := by
  have hle : ∀ s : Text, s.length ≤ (s.flatMap bare).length := by
    intro s
    induction s with
    | nil => exact le_refl 0
    | cons c s ih =>
      have := one_le_length_bare c
      rw [List.flatMap_cons, List.length_append, List.length_cons]
      omega
  constructor
  · induction s with
    | nil => exact fun _ c hc => by cases hc
    | cons c s ih =>
      intro h
      have hlen := congrArg List.length h
      have hs := hle s
      have hc := one_le_length_bare c
      rw [List.flatMap_cons, List.length_append, List.length_cons] at hlen
      obtain ⟨x, hx⟩ := List.length_eq_one_iff.mp (by omega : (bare c).length = 1)
      rw [List.flatMap_cons, hx, List.singleton_append] at h
      obtain ⟨rfl, htail⟩ := List.cons.inj h
      intro y hy
      rcases List.mem_cons.mp hy with rfl | hy
      · exact hx
      · exact ih htail y hy
  · exact flatMap_eq_self

/-- The escapes of `_api_call` are read by JSON. -/
theorem decodes_apiEscape (c : Char) : Decodes apiEscape c := by
  by_cases hquote : c = '\''
  · subst hquote
    exact units_escapeUnit (u := 39) (by decide)
  have heq : apiEscape c = asciiEscape c := by
    refine flatMap_apostrophe fun h => ?_
    rcases asciiEscape_cases c with ⟨e, he, heq⟩ | ⟨-, -, heq⟩ | ⟨-, heq⟩
    · have hall : ∀ p ∈ shortEscapes, '\'' ∉ ['\\', p.2] := by decide
      exact hall _ he (heq ▸ h)
    · exact hquote (List.mem_singleton.mp (heq ▸ h)).symm
    · rcases (coded_units (codeUnits c)).2.2 _ (heq ▸ h) with h | h
      · exact absurd h (by decide)
      · exact absurd (isFree_of_mem_escapeChars _ h).1 (by decide)
  intro rest
  rw [heq]
  exact decodes_asciiEscape c rest

/-! ## The argument -/

/-- The argument is a JSON text. -/
theorem argsJson_eq (args : List (JsValue (Number R))) : argsJson args = dumpsWith apiEscape (payload args) := by
  refine flatMap_dumpsWith (fun c hc => if_neg ?_) (payload args)
  rintro rfl
  exact absurd hc (by decide)

/-- Its characters are printable, and no single quotes. -/
theorem mem_dumpsWith {v : JsValue (Number R)} :
    ∀ c ∈ dumpsWith apiEscape v, ' ' ≤ c ∧ c ≤ '~' ∧ c ≠ '\'' := by
  refine forall_mem_dumpsWith (fun c hc => ?_) (fun x c hc => ?_) v
  · have hword : ∀ c ∈ "nultruefalsInfinityNaN+-.[]:, \"\x7b\x7d".toList, ' ' ≤ c ∧ c ≤ '~' ∧ c ≠ '\'' := by
      decide
    simp only [isFixed, Bool.or_eq_true, decide_eq_true_eq] at hc
    rcases hc with hc | hc
    · obtain ⟨h₁, h₂⟩ := Char.isDigit_iff_toNat.mp hc
      have h0 : '0'.toNat = 48 := rfl
      have h9 : '9'.toNat = 57 := rfl
      refine ⟨Nat.le_trans (m := 48) (by decide) h₁, Nat.le_trans (m := 57) h₂ (by decide), ?_⟩
      rintro rfl
      exact absurd hc (by decide)
    · exact hword c hc
  · have hfree : ∀ y, isFree y = true → ' ' ≤ y ∧ y ≤ '~' ∧ y ≠ '\'' := fun y hy => by
      simp only [isFree, decide_eq_true_eq] at hy
      exact ⟨hy.1, hy.2.1, hy.2.2.2.2⟩
    rcases apiEscape_cases x with ⟨hx, heq⟩ | ⟨hx, heq⟩ | ⟨-, -, -, hcoded⟩
    · rw [heq] at hc
      rcases hx with rfl | rfl <;> revert c <;> decide
    · rw [heq, List.mem_singleton] at hc
      exact hfree c (hc ▸ hx)
    · rcases hcoded.chars c hc with rfl | hc
      · decide
      · exact hfree c (isFree_of_mem_escapeChars c hc).1

theorem blank_mem_apiEscape (c : Char) : ' ' ∈ apiEscape c ↔ c = ' ' := by
  rcases apiEscape_cases c with ⟨rfl | rfl, -⟩ | ⟨-, heq⟩ | ⟨hc, -, -, hcoded⟩
  · decide
  · decide
  · rw [heq, List.mem_singleton]
    exact eq_comm
  · refine iff_of_false (fun h => ?_) ?_
    · rcases hcoded.chars _ h with h | h
      · exact absurd h (by decide)
      · exact (isFree_of_mem_escapeChars _ h).2 rfl
    · rintro rfl
      exact absurd hc (by decide)

/-- The argument has a blank exactly when the value is `spaced`. -/
theorem blank_mem_iff : ∀ v : JsValue (Number R), ' ' ∈ dumpsWith apiEscape v ↔ spaced v = true
  | null => by simp [dumpsWith, spaced]
  | .bool true => by simp [dumpsWith, spaced]
  | .bool false => by simp [dumpsWith, spaced]
  | number n => by
    refine iff_of_false (fun h => ?_) (by simp [spaced])
    exact (isFixed_of_mem_numberText (n := n) _ h).2.1 rfl
  | text t => by
    simp [dumpsWith, quoted, spaced, blank_mem_apiEscape]
  | list [] => by simp [dumpsWith, spaced]
  | list [v] => by
    have ih := blank_mem_iff v
    simp [dumpsWith, dumpsItems, spaced, ih]
  | list (v :: w :: vs) => by simp [dumpsWith, dumpsItems, spaced]
  | mapping [] => by simp [dumpsWith, spaced]
  | mapping ((k, v) :: es) => by simp [dumpsWith, spaced]

/-! ## The command lines -/

/-- A quoted word is read as the word. -/
theorem word_shlexQuote (s : Text) : Shlex.Word (shlexQuote s) s := by
  unfold shlexQuote
  by_cases hs : s = []
  · rw [if_pos hs, hs]
    exact ⟨Shlex.Piece.single (t := []) (by simp), '\'', ['\''], rfl, rfl⟩
  rw [if_neg hs]
  by_cases hsafe : s.all isShellSafe = true
  · have hplain : ∀ c ∈ s, Shlex.isPlain c = true := by
      intro c hc
      have hother : ∀ c ∈ "_@%+=:,./-".toList, Shlex.isPlain c = true := by decide
      have hsc := List.all_eq_true.mp hsafe c hc
      simp only [isShellSafe, Bool.or_eq_true, decide_eq_true_eq] at hsc
      rcases hsc with hsc | hsc
      · have hn := toNat_of_isAlphanum hsc
        have hne : ∀ x : Char, x.toNat < 48 ∨ x = '\\' → c ≠ x := by
          rintro x (hx | rfl) rfl
          · omega
          · exact absurd hsc (by decide)
        simp [Shlex.isPlain, Shlex.isBlank, hne ' ' (by decide), hne '\t' (by decide), hne '\r' (by decide),
          hne '\n' (by decide), hne '\'' (by decide), hne '"' (by decide), hne '\\' (by decide)]
      · exact hother c hsc
    rw [if_pos hsafe]
    obtain ⟨c, cs, rfl⟩ := List.exists_cons_of_ne_nil hs
    have hc := hplain c List.mem_cons_self
    simp only [Shlex.isPlain, Bool.and_eq_true, Bool.not_eq_true'] at hc
    exact ⟨.plain hplain, c, cs, rfl, hc.1.1.1⟩
  · rw [if_neg hsafe]
    refine ⟨fun w rest => ?_, '\'', _, rfl, rfl⟩
    -- inside the single quotes, each single quote leaves them for double quotes of its own
    have hgo : ∀ (s w : Text), Shlex.scan .single (some w)
        ((s.flatMap fun c => if c = '\'' then "'\"'\"'".toList else [c]) ++ '\'' :: rest) =
          Shlex.scan .plain (some (w ++ s)) rest := by
      intro s
      induction s with
      | nil =>
        intro w
        rw [List.append_nil]
        rfl
      | cons c s ih =>
        intro w
        by_cases hc : c = '\''
        · have hstep : ∀ cs, Shlex.scan .single (some w) ("'\"'\"'".toList ++ cs) =
              Shlex.scan .single (some (w ++ ['\''])) cs := fun _ => rfl
          rw [List.flatMap_cons, if_pos hc, List.append_assoc, hstep, ih, hc, List.append_assoc]
          rfl
        · rw [List.flatMap_cons, if_neg hc, List.append_assoc, List.singleton_append, Shlex.scan, if_neg hc, ih,
            Option.getD_some, List.append_assoc]
          rfl
    have hopen : ∀ cs, Shlex.scan .plain (some w) ('\'' :: cs) = Shlex.scan .single (some w) cs := fun _ => rfl
    rw [List.append_assoc, List.cons_append, List.singleton_append, hopen, hgo]

/-- A word that no shell changes is read as itself. -/
theorem word_plain (m : PlainWord) : Shlex.Word m.text m.text := by
  have h := word_shlexQuote m.text
  rwa [shlexQuote, if_neg m.nonempty, if_pos m.safe] at h

theorem word_literal {t : Text} (h : t ≠ [] ∧ t.all isShellSafe = true) : Shlex.Word t t :=
  word_plain ⟨t, h.1, h.2⟩

/-- The words of the command. -/
theorem split_apiCommand (m : PlainWord) (args : List (JsValue (Number R))) :
    Shlex.split (apiCommand m args) = some
      ["spacecmd".toList, "--".toList, "api".toList, "-A".toList, argsJson args, m.text] := by
  have hline : apiCommand m args = "spacecmd".toList ++ ' ' :: ("--".toList ++ ' ' :: ("api".toList ++ ' ' ::
      ("-A".toList ++ ' ' :: (shlexQuote (argsJson args) ++ ' ' :: m.text)))) := rfl
  rw [hline, (word_literal (by decide)).split_cons, (word_literal (by decide)).split_cons,
    (word_literal (by decide)).split_cons, (word_literal (by decide)).split_cons,
    (word_shlexQuote _).split_cons, (word_plain m).split_self]
  rfl

/-- The command is run with its words, behind either prefix. -/
theorem argv_apiCommand (p : ExecPrefix) (m : PlainWord) (args : List (JsValue (Number R))) :
    argv p (apiCommand m args) = some
      ["spacecmd".toList, "--".toList, "api".toList, "-A".toList, argsJson args, m.text] := by
  cases p with
  | mgrctl =>
    have hsplit : Shlex.split (fullCmd .mgrctl (apiCommand m args)) =
        some ["mgrctl".toList, "exec".toList, apiCommand m args] := by
      generalize apiCommand m args = cmd
      have hline : fullCmd .mgrctl cmd = "mgrctl".toList ++ ' ' :: ("exec".toList ++ ' ' :: shlexQuote cmd) := rfl
      rw [hline, (word_literal (by decide)).split_cons, (word_literal (by decide)).split_cons,
        (word_shlexQuote cmd).split_self]
      rfl
    rw [argv, hsplit]
    exact split_apiCommand m args
  | kubectl words =>
    have hwords : ∀ (words : List PlainWord) (cmd : Text), Shlex.split (fullCmd (.kubectl words) cmd) =
        (Shlex.split cmd).map (words.map PlainWord.text ++ ·) := by
      intro words cmd
      induction words with
      | nil =>
        have hid : ∀ o : Option (List Text), o = o.map (List.map PlainWord.text [] ++ ·) := fun o => by
          cases o <;> rfl
        exact hid (Shlex.split cmd)
      | cons w words ih =>
        have hline : fullCmd (.kubectl (w :: words)) cmd = w.text ++ ' ' :: fullCmd (.kubectl words) cmd := by
          have hcons : fullCmd (.kubectl (w :: words)) cmd =
              ((w :: words).flatMap fun w => w.text ++ [' ']) ++ cmd := rfl
          rw [hcons, List.flatMap_cons, List.append_assoc, List.append_assoc]
          rfl
        rw [hline, (word_plain w).split_cons, ih, Option.map_map]
        rfl
    rw [argv, hwords, split_apiCommand, Option.map_some, Option.map_some, List.drop_left' (List.length_map _)]

/-- The method receives what `spacecmd` makes of the argument on its line. -/
theorem received_eq {p : ExecPrefix} {m : PlainWord} {args : List (JsValue (Number R))} {u : Text}
    (h : Shlex.Word (requote (argsJson args)) u) : received p m args = some (argsValue u) := by
  have hmethod : requote m.text = m.text := by
    refine if_neg fun hany => ?_
    obtain ⟨c, hc, hspace⟩ := List.any_eq_true.mp hany
    have hsafe := List.all_eq_true.mp m.safe c hc
    simp only [isShellSafe, Bool.or_eq_true, decide_eq_true_eq] at hsafe
    rcases hsafe with hsafe | hsafe
    · rw [isSpace_of_isAlphanum hsafe] at hspace
      cases hspace
    · have hother : ∀ c ∈ "_@%+=:,./-".toList, isSpace c = false := by decide
      rw [hother c hsafe] at hspace
      cases hspace
  have hline : [' '].intercalate (["api".toList, "-A".toList, argsJson args, m.text].map requote) =
      "api".toList ++ ' ' :: ("-A".toList ++ ' ' :: (requote (argsJson args) ++ ' ' :: m.text)) := by
    rw [List.map_cons, List.map_cons, List.map_cons, List.map_cons, hmethod]
    simp [List.intercalate, requote, isSpace]
  have hdrop : ["spacecmd".toList, "--".toList, "api".toList, "-A".toList, argsJson args, m.text].drop 2 =
      ["api".toList, "-A".toList, argsJson args, m.text] := rfl
  rw [received, argv_apiCommand, Option.bind_some, hdrop, spacecmd, hline, (word_literal (by decide)).split_cons,
    (word_literal (by decide)).split_cons, h.split_cons, (word_plain m).split_self]
  rfl

/-! ## With a blank, or without strings -/

section Arrives

variable {p : ExecPrefix} {m : PlainWord} {args : List (JsValue (Number R))}

theorem argsValue_json {v : JsValue (Number R)} : argsValue (dumpsWith apiEscape v) = v := by
  rw [argsValue, loads_dumpsWith decodes_apiEscape]

/-- Only a blank makes `spacecmd` quote the argument. -/
theorem requote_json (v : JsValue (Number R)) : requote (dumpsWith apiEscape v) =
    if spaced v = true then '\'' :: (dumpsWith apiEscape v ++ ['\'']) else dumpsWith apiEscape v := by
  have hany : (dumpsWith apiEscape v).any isSpace = spaced v := by
    rw [Bool.eq_iff_iff, ← blank_mem_iff, List.any_eq_true]
    constructor
    · rintro ⟨c, hc, hspace⟩
      obtain ⟨hlow, hhigh, -⟩ := mem_dumpsWith c hc
      have h₁ : 32 ≤ c.toNat := hlow
      have h₂ : c.toNat ≤ 126 := hhigh
      have heq : c.toNat = 32 := by
        simp only [isSpace, Bool.or_eq_true, Bool.and_eq_true, decide_eq_true_eq, beq_iff_eq] at hspace
        omega
      have : c = ' ' := Char.toNat_inj.mp heq
      exact this ▸ hc
    · exact fun h => ⟨' ', h, rfl⟩
  rw [requote, hany]

/-- An argument with a blank is quoted again, and arrives. -/
theorem received_of_spaced (h : spaced (payload args) = true) : received p m args = some (payload args) := by
  have hquote : '\'' ∉ dumpsWith apiEscape (payload args) := fun hc => (mem_dumpsWith _ hc).2.2 rfl
  have hword : Shlex.Word (requote (argsJson args)) (dumpsWith apiEscape (payload args)) := by
    rw [argsJson_eq, requote_json, if_pos h]
    exact ⟨.single hquote, '\'', _, rfl, rfl⟩
  rw [received_eq hword, argsValue_json]

/-- The argument starts its word. -/
theorem word_json {v : JsValue (Number R)} {u : Text} (h : Shlex.Piece (dumpsWith apiEscape v) u) :
    Shlex.Word (dumpsWith apiEscape v) u := by
  obtain ⟨c, cs, hc, hblank, -⟩ := exists_dumpsWith_cons apiEscape v
  refine ⟨h, c, cs, hc, ?_⟩
  simp only [PyJson.isBlank, Bool.or_eq_false_iff] at hblank
  simp only [Shlex.isBlank, hblank, Bool.or_self]

/-- Outside the strings, each character but the blank stands for itself. -/
theorem isPlain_of_isFixed {c : Char} (h : isFixed c = true) (hb : c ≠ ' ') (hq : c ≠ '"') :
    Shlex.isPlain c = true := by
  have hword : ∀ c ∈ "nultruefalsInfinityNaN+-.[]:, \"\x7b\x7d".toList, c ≠ ' ' → c ≠ '"' →
      Shlex.isPlain c = true := by decide
  simp only [isFixed, Bool.or_eq_true, decide_eq_true_eq] at h
  rcases h with h | h
  · have hne := ne_of_isDigit h
    simp [Shlex.isPlain, Shlex.isBlank, hne ' ' rfl, hne '\t' rfl, hne '\r' rfl, hne '\n' rfl, hne '\'' rfl,
      hne '"' rfl, hne '\\' rfl]
  · exact hword c h hb hq

/-- An argument without strings and blanks is plain. -/
theorem isPlain_json : ∀ v : JsValue (Number R), spaced v = false → (∀ s, innermost v ≠ text s) →
    (dumpsWith apiEscape v).all Shlex.isPlain = true
  | null, _, _ => rfl
  | .bool true, _, _ => rfl
  | .bool false, _, _ => rfl
  | number n, _, _ => List.all_eq_true.mpr fun c hc =>
    have h := isFixed_of_mem_numberText (n := n) c hc
    isPlain_of_isFixed h.1 h.2.1 h.2.2
  | text t, _, h => absurd rfl (h t)
  | list [], _, _ => rfl
  | list [v], hs, h => by
    have ih := isPlain_json v (by simpa [spaced] using hs) h
    have hlist : dumpsWith apiEscape (list [v]) = '[' :: (dumpsWith apiEscape v ++ [']']) := rfl
    rw [hlist, List.all_cons, List.all_append, ih]
    rfl
  | list (v :: w :: vs), hs, _ => by simp [spaced] at hs
  | mapping [], _, _ => rfl
  | mapping ((k, v) :: es), hs, _ => by simp [spaced] at hs

/-- An argument without strings and blanks arrives. -/
theorem received_of_plain (hs : spaced (payload args) = false) (h : ∀ s, innermost (payload args) ≠ text s) :
    received p m args = some (payload args) := by
  have hword : Shlex.Word (requote (argsJson args)) (dumpsWith apiEscape (payload args)) := by
    rw [argsJson_eq, requote_json, hs, if_neg Bool.false_ne_true]
    exact word_json (.plain (List.all_eq_true.mp (isPlain_json _ hs h)))
  rw [received_eq hword, argsValue_json]

/-! ## A string without its quotes -/

/-- What stands around the innermost string of a value. -/
structure Brackets (v : JsValue (Number R)) (s a b : Text) : Prop where
  reads : Shlex.Piece (dumpsWith apiEscape v) (a ++ (s.flatMap bare ++ b))
  chars : ∀ c ∈ a ++ b, c = '[' ∨ c = ']'
  bare_iff : v = text s ↔ a = [] ∧ b = []

theorem exists_brackets : ∀ (v : JsValue (Number R)) (s : Text), innermost v = text s →
    ∃ a b, Brackets v s a b
  | text t, s, h => by
    obtain rfl : t = s := by simpa [innermost] using h
    have hreads : Shlex.Piece (quoted apiEscape t) (t.flatMap bare) :=
      Shlex.QuotedPiece.close (.flatMap fun c _ => quotedPiece_apiEscape c)
    exact ⟨[], [], by simpa [dumpsWith] using hreads, by simp, by simp⟩
  | list [v], s, h => by
    obtain ⟨a, b, hreads, hchars, -⟩ := exists_brackets v s h
    refine ⟨'[' :: a, b ++ [']'], ?_, ?_, by simp⟩
    · have hopen : Shlex.Piece ['['] ['['] := .char rfl
      have hclose : Shlex.Piece [']'] [']'] := .char rfl
      have hall := hopen.append (hreads.append hclose)
      simpa [dumpsWith, dumpsItems] using hall
    · intro c hc
      simp only [List.cons_append, List.mem_cons, List.mem_append, List.not_mem_nil, or_false] at hc
      rcases hc with rfl | hc | hc | rfl
      · exact Or.inl rfl
      · exact hchars c (List.mem_append_left _ hc)
      · exact hchars c (List.mem_append_right _ hc)
      · exact Or.inr rfl
  | null, s, h => by simp [innermost] at h
  | .bool b, s, h => by simp [innermost] at h
  | number n, s, h => by simp [innermost] at h
  | list [], s, h => by simp [innermost] at h
  | list (v :: w :: vs), s, h => by simp [innermost] at h
  | mapping es, s, h => by simp [innermost] at h

/-- A word is no string. -/
theorem innermost_readWord {t rest : Text} {v : JsValue (Number R)} (h : readWord t = some (v, rest)) (s : Text) :
    innermost v ≠ text s := by
  have hword : ∀ (w : JsValue (Number R)) (t : Text), some (w, t) = some (v, rest) → innermost w ≠ text s →
      innermost v ≠ text s := by
    intro w t hw hne
    obtain ⟨rfl, -⟩ := Prod.mk.inj (Option.some.inj hw)
    exact hne
  unfold readWord at h
  split_ifs at h
  iterate 6 exact hword _ _ h (by simp [innermost])
  obtain ⟨r, -, he⟩ := Option.map_eq_some_iff.mp h
  obtain ⟨rfl, -⟩ := Prod.mk.inj he
  simp [innermost]

/-- A string read from a text of free characters costs a backslash for each of its special characters. -/
theorem costs_le : ∀ (n : Nat) (t : Text) (v : JsValue (Number R)) (rest s : Text),
    readValue n t = some (v, rest) → innermost v = text s →
    (∀ c ∈ t, c = '"' ∨ c = '\\' ∨ isFree c = true) → costs isFree s ≤ t.count '\\' ∧ '"' ∈ t
  | 0, t, v, rest, s, h, _, _ => by cases h
  | n + 1, t, v, rest, s, h, hv, ht => by
    unfold readValue at h
    split at h
    · rename_i r
      obtain ⟨⟨u, rest'⟩, hread, he⟩ := Option.map_eq_some_iff.mp h
      obtain ⟨rfl, -⟩ := Prod.mk.inj he
      obtain rfl : u = s := by simpa [innermost] using hv
      have hcost := costs_readString_le hread fun c hc => ht c (List.mem_cons_of_mem _ hc)
      exact ⟨by rwa [List.count_cons_of_ne (by decide)], List.mem_cons_self⟩
    · rename_i r
      split at h
      · obtain ⟨rfl, -⟩ := Prod.mk.inj (Option.some.inj h)
        simp [innermost] at hv
      · rename_i r' hr'
        obtain ⟨⟨w, rest'⟩, hread, h⟩ := Option.bind_eq_some_iff.mp h
        obtain ⟨⟨ws, rest''⟩, -, he⟩ := Option.map_eq_some_iff.mp h
        obtain ⟨rfl, -⟩ := Prod.mk.inj he
        have hsub : (skip r).Sublist ('[' :: r) :=
          ((List.dropWhile_suffix _).sublist).trans (List.sublist_cons_self _ _)
        cases ws with
        | nil =>
          obtain ⟨hcost, hmem⟩ := costs_le n _ w rest' s hread hv fun c hc => ht c (hsub.subset hc)
          exact ⟨hcost.trans (hsub.count_le _), hsub.subset hmem⟩
        | cons x xs => simp [innermost] at hv
    · rename_i r
      split at h
      · obtain ⟨rfl, -⟩ := Prod.mk.inj (Option.some.inj h)
        simp [innermost] at hv
      · obtain ⟨⟨w, rest'⟩, -, h⟩ := Option.bind_eq_some_iff.mp h
        obtain ⟨⟨ws, rest''⟩, -, he⟩ := Option.map_eq_some_iff.mp h
        obtain ⟨rfl, -⟩ := Prod.mk.inj he
        simp [innermost] at hv
    · exact absurd hv (innermost_readWord h s)
/-- A string whose characters stay, and that is no JSON text and has no comma, arrives without its quotes. -/
theorem argsValue_bare {s : Text} (h : Bare (R := R) s) : argsValue (R := R) s = text s := by
  have hsplit : s.splitOn ',' = [s] := List.splitOn_eq_singleton fun hc => (h.1 _ hc).2.2.2 rfl
  rw [argsValue, h.2]
  simp only [hsplit]

/-- What is left of a string is read as a value with that string in it only if it is that string. -/
theorem bare_of_argsValue {v : JsValue (Number R)} {s a b : Text} (hv : innermost v = text s)
    (hbr : Brackets v s a b) (h : argsValue (R := R) (a ++ (s.flatMap bare ++ b)) = v)
    (hs : spaced v = false) : v = text s ∧ Bare (R := R) s := by
  have hquote : ∀ t : Text, (t.flatMap bare).count '\\' + (t.flatMap bare).count '"' = costs isFree t := by
    intro t
    induction t with
    | nil => rfl
    | cons c t ih =>
      have hc := count_bare c
      have hcons : costs isFree (c :: t) = cost isFree c + costs isFree t := rfl
      rw [List.flatMap_cons, List.count_append, List.count_append, hcons]
      omega
  have hfree : ∀ c ∈ a ++ (s.flatMap bare ++ b), c = '"' ∨ c = '\\' ∨ isFree c = true := by
    have hab : ∀ c ∈ a ++ b, c = '"' ∨ c = '\\' ∨ isFree c = true := fun c hc => by
      rcases hbr.chars c hc with rfl | rfl <;> decide
    intro c hc
    simp only [List.mem_append, List.mem_flatMap] at hc
    rcases hc with hc | ⟨x, -, hx⟩ | hc
    · exact hab c (List.mem_append_left _ hc)
    · exact mem_bare x c hx
    · exact hab c (List.mem_append_right _ hc)
  have hzero : ∀ x, x ≠ '[' → x ≠ ']' → a.count x = 0 ∧ b.count x = 0 := by
    intro x hl hr
    constructor <;> refine List.count_eq_zero.mpr fun hx => ?_
    · rcases hbr.chars x (List.mem_append_left _ hx) with h | h <;> contradiction
    · rcases hbr.chars x (List.mem_append_right _ hx) with h | h <;> contradiction
  unfold argsValue at h
  split at h
  · -- as JSON, the string would need more backslashes than its characters left
    rename_i w hloads
    subst h
    obtain ⟨⟨w', rest⟩, hread, he⟩ := Option.bind_eq_some_iff.mp hloads
    obtain rfl : w' = w := by
      dsimp only at he
      split at he
      · exact Option.some.inj he
      · cases he
    have hsub := (List.dropWhile_suffix (l := a ++ (s.flatMap bare ++ b)) isBlank).sublist
    obtain ⟨hcost, hmem⟩ := costs_le _ _ _ _ s hread hv fun c hc => hfree c (hsub.subset hc)
    have hcount := hcost.trans (hsub.count_le '\\')
    have hmem' := List.count_pos_iff.mpr (hsub.subset hmem)
    have hsum := hquote s
    obtain ⟨hab, hbb⟩ := hzero '\\' (by decide) (by decide)
    obtain ⟨haq, hbq⟩ := hzero '"' (by decide) (by decide)
    simp only [List.count_append] at hcount hmem'
    omega
  · rename_i hloads
    split at h
    · rename_i t ht
      subst h
      obtain rfl : t = s := by simpa [innermost] using hv
      obtain ⟨rfl, rfl⟩ := hbr.bare_iff.mp rfl
      rw [List.nil_append, List.append_nil] at ht hloads
      have hjoin : [','].intercalate ((t.flatMap bare).splitOn ',') = t.flatMap bare := List.intercalate_splitOn ','
      rw [ht] at hjoin
      have hsame : t.flatMap bare = t := by simpa using hjoin.symm
      rw [hsame] at hloads ht
      refine ⟨rfl, fun c hc => ?_, hloads⟩
      obtain ⟨hlow, hhigh, hq⟩ := (bare_eq_iff c).mp ((flatMap_bare_eq_iff t).mp hsame c hc)
      have hblank : ' ' ∉ t := by simpa [spaced] using hs
      have hne : ' '.toNat ≠ c.toNat := fun e => hblank (Char.toNat_inj.mp e ▸ hc)
      refine ⟨Nat.lt_of_le_of_ne hlow hne, hhigh, hq, ?_⟩
      · rintro rfl
        obtain ⟨x, y, rfl⟩ := List.append_of_mem hc
        have hlen := congrArg List.length ht
        have hx := List.length_pos_of_ne_nil (List.splitOn_ne_nil ',' x)
        have hy := List.length_pos_of_ne_nil (List.splitOn_ne_nil ',' y)
        rw [List.splitOn_append_cons_self, List.length_append, List.length_singleton] at hlen
        omega
    · rename_i ss hne
      subst h
      generalize (a ++ (s.flatMap bare ++ b)).splitOn ',' = ss at hne hv
      rcases ss with _ | ⟨x, _ | ⟨y, ss⟩⟩
      · simp [innermost] at hv
      · exact absurd rfl (hne x)
      · simp [innermost] at hv

/-- **Exactly which arguments arrive**: those with a blank in their JSON text, those without strings, and a string
of printable characters, without single quotes and commas, that is no JSON text. -/
theorem arrives_iff (p : ExecPrefix) (m : PlainWord) (args : List (JsValue (Number R))) :
    received p m args = some (payload args) ↔ Kept (payload args) := by
  by_cases hs : spaced (payload args) = true
  · exact iff_of_true (received_of_spaced hs) (Or.inl hs)
  have hs' : spaced (payload args) = false := by simpa using hs
  by_cases hplain : ∀ s, innermost (payload args) ≠ text s
  · exact iff_of_true (received_of_plain hs' hplain) (Or.inr (Or.inl hplain))
  obtain ⟨s, hv⟩ : ∃ s, innermost (payload args) = text s := by simpa using hplain
  obtain ⟨a, b, hbr⟩ := exists_brackets _ s hv
  have hword : Shlex.Word (requote (argsJson args)) (a ++ (s.flatMap bare ++ b)) := by
    rw [argsJson_eq, requote_json, hs', if_neg Bool.false_ne_true]
    exact word_json hbr.reads
  rw [received_eq hword, Option.some_inj]
  constructor
  · intro h
    obtain ⟨heq, hbare⟩ := bare_of_argsValue hv hbr h hs'
    exact Or.inr (Or.inr ⟨s, heq, hbare⟩)
  · rintro (h | h | ⟨t, ht, hbare⟩)
    · exact absurd h hs
    · exact absurd hv (h s)
    · obtain rfl : t = s := by simpa [ht, innermost] using hv
      obtain ⟨rfl, rfl⟩ := hbr.bare_iff.mp ht
      have hsame : t.flatMap bare = t := (flatMap_bare_eq_iff t).mpr fun c hc => by
        obtain ⟨hlow, hhigh, hq, -⟩ := hbare.1 c hc
        exact (bare_eq_iff c).mpr ⟨Nat.le_of_lt hlow, hhigh, hq⟩
      rw [List.nil_append, List.append_nil, hsame, argsValue_bare hbare, ht]

end Arrives

/-- Decimals that are their own floats. -/
def exact : Rounding := ⟨.finite, Rounding.finite_idem⟩

/-- `api.ping`. -/
def ping : PlainWord := ⟨"api.ping".toList, by decide, by decide⟩

/-- The string `123` is received as a number. -/
theorem digits_received_as_number :
    ¬ ∀ args : List (JsValue (Number exact)), received .mgrctl ping args = some (payload args) := by
  intro h
  have hnumber : received .mgrctl ping [text "123".toList] = some (number (.int (R := exact) 123)) := rfl
  have hall := h [text "123".toList]
  rw [hnumber] at hall
  cases hall

end LabInABox.Spacecmd.ApiCall
