import LabInABox.Text.Decimal
import LabInABox.Text.Ere

/-!
# YAML 1.1, for flat documents

Model of a YAML 1.1 reader (the rules PyYAML's reader, scanner, resolver and constructor follow) on
documents of entries `key: value`, each at the left margin, with a plain key of one word. A value is
a double-quoted scalar, which may go over several lines, or a plain one of one word. A document of
any other form reads as `none`.

* `scan` reads a double-quoted scalar from behind its opening quote, one character at a time. `Mode`
  says where it stands: in a word, in blanks that count unless a line break follows, behind line
  breaks, behind a backslash, or in the digits of a code point.
* YAML 1.1 has five line breaks: LF, CR, NEL, LS and PS. A single LF, CR or NEL inside a scalar
  reads as a blank, more of them as line feeds. LS and PS stay. Blanks around a break are lost.
* `resolve` gives a plain word its type with YAML 1.1's expressions for each. A number in base 60, a
  date, `<<` and `=` are `other`.
* `nearest` rounds a decimal to a float. A float is kept as its shortest decimal.

Results:
* `scan_escaped`: characters escaped as the double-quoted form asks for are read back.
* `lines_scan`: a scalar ends a line for each break that is not escaped, whatever it reads as.
* `resolve_int`, `resolve_repr`, `resolve_ne_float`: the plain words of integers and of floats.
* `load_quoted`: a quoted text is never more than one entry.
* `load_quoted_iff`: when it reads as itself, on its line.
-/

namespace LabInABox.Text.Yaml

/-! ## Characters -/

/-- The characters a document may have. -/
def printable (c : Char) : Bool :=
  let n := c.toNat
  n = 9 || n = 10 || n = 13 || (0x20 ≤ n && n ≤ 0x7E) || n = 0x85 || (0xA0 ≤ n && n ≤ 0xD7FF) ||
    (0xE000 ≤ n && n ≤ 0xFFFD) || (0x10000 ≤ n && n ≤ 0x10FFFF)

/-- The line breaks that read as a line feed. -/
def isFeed (c : Char) : Bool := c = '\n' || c = '\r' || c = '\u0085'

/-- Does the character end a line? -/
def isBreak (c : Char) : Bool := isFeed c || c = '\u2028' || c = '\u2029'

/-- A blank inside a line. -/
def isBlank (c : Char) : Bool := c = ' ' || c = '\t'

/-! ## Double-quoted scalars -/

/-- Where the scanner stands inside a double-quoted scalar. -/
inductive Mode
  | words
  | blanks (ws : Text)
  /-- Behind line breaks: the first, `none` when a backslash stood before it, and the others. -/
  | broken (first : Option Char) (more : Text)
  | escape
  /-- In the digits of a code point: how many are to come, and its value so far. -/
  | code (left value : Nat)
  deriving DecidableEq

namespace Mode

/-- What the value is owed when its next word begins, or when it ends. -/
def owed : Mode → Text
  | blanks ws => ws
  | broken none more => more
  | broken (some b) more => if b ≠ '\n' then b :: more else if more = [] then [' '] else more
  | _ => []

/-- The mode behind one more line break. -/
def brokenBy (b : Char) : Mode → Mode
  | broken first more => broken first (more ++ [b])
  | escape => broken none []
  | _ => broken (some b) []

/-- The mode behind one more blank. -/
def blankBy (c : Char) : Mode → Mode
  | broken first more => broken first more
  | m => blanks (m.owed ++ [c])

end Mode

/-- The escapes of one character. -/
def escapes : List (Char × Char) :=
  [('0', '\x00'), ('a', '\x07'), ('b', '\x08'), ('t', '\t'), ('\t', '\t'), ('n', '\n'), ('v', '\x0b'),
    ('f', '\x0c'), ('r', '\r'), ('e', '\x1b'), (' ', ' '), ('"', '"'), ('\\', '\\'), ('/', '/'),
    ('N', '\u0085'), ('_', '\u00a0'), ('L', '\u2028'), ('P', '\u2029')]

/-- How many digits follow the escapes of a code point. -/
def codeLengths : List (Char × Nat) := [('x', 2), ('u', 4), ('U', 8)]

/-- Does a line begin with `---` or `...` and a blank? Inside a scalar this is an error. -/
def isSeparator (t : Text) : Bool :=
  (['-', '-', '-'].isPrefixOf t || ['.', '.', '.'].isPrefixOf t) &&
    ((t.drop 3).head?.all fun c => isBlank c || isBreak c)

/-- What a character does: an error, the end of the scalar, or the next mode, each with what it adds
to the value, and the lines it ends. -/
inductive Step
  | fail
  | close (out : Text)
  | go (m : Mode) (out : Text) (lines : Nat)

/-- A line break, where `cs` follows. The first half of CR LF is passed over. -/
def breakLine (m : Mode) (c : Char) (cs : Text) : Step :=
  if c = '\r' ∧ cs.head? = some '\n' then .go m [] 0
  else if isSeparator cs then .fail
  else .go (m.brokenBy (if isFeed c then '\n' else c)) [] 1

/-- One character inside a double-quoted scalar. -/
def next (m : Mode) (c : Char) (cs : Text) : Step :=
  match m with
  | .escape =>
    match escapes.lookup c with
    | some x => .go .words [x] 0
    | none =>
      match codeLengths.lookup c with
      | some k => .go (.code k 0) [] 0
      | none => if isBreak c then breakLine .escape c cs else .fail
  | .code left value =>
    match hexDigit c with
    | none => .fail
    | some d =>
      if left ≤ 1 then
        (if (16 * value + d).isValidChar then .go .words [Char.ofNat (16 * value + d)] 0 else .fail)
      else .go (.code (left - 1) (16 * value + d)) [] 0
  | m =>
    if isBlank c then .go (m.blankBy c) [] 0
    else if isBreak c then breakLine m c cs
    else if c = '"' then .close m.owed
    else if c = '\\' then .go .escape m.owed 0
    else .go .words (m.owed ++ [c]) 0

/-- A scalar that was read: its value, the lines it ended, and what follows. -/
structure Scanned where
  value : Text
  lines : Nat
  rest : Text
  deriving DecidableEq

/-- The same scalar with a beginning. -/
def Scanned.after (out : Text) (lines : Nat) (s : Scanned) : Scanned :=
  ⟨out ++ s.value, lines + s.lines, s.rest⟩

/-- The scalar up to its closing quote. -/
def scan : Mode → Text → Option Scanned
  | _, [] => none
  | m, c :: cs =>
    match next m c cs with
    | .fail => none
    | .close out => some ⟨out, 0, cs⟩
    | .go m' out lines => (scan m' cs).map (Scanned.after out lines)

/-! ### Escaped texts -/

namespace Mode

/-- Is the mode inside a line, and not in an escape? -/
def inLine : Mode → Bool
  | words => true
  | blanks _ => true
  | _ => false

/-- Is the mode outside escapes? -/
def inText (m : Mode) : Bool := m.inLine || m matches broken ..

theorem inText_of_inLine {m : Mode} (h : m.inLine = true) : m.inText = true := by simp [inText, h]

theorem owed_blankBy {m : Mode} (h : m.inLine = true) (c : Char) : (m.blankBy c).owed = m.owed ++ [c] := by
  cases m <;> first | rfl | cases h

theorem inLine_blankBy {m : Mode} (h : m.inLine = true) (c : Char) : (m.blankBy c).inLine = true := by
  cases m <;> first | rfl | cases h

theorem inText_blankBy (m : Mode) (c : Char) : (m.blankBy c).inText = true := by cases m <;> rfl

theorem inText_brokenBy (m : Mode) (c : Char) : (m.brokenBy c).inText = true := by cases m <;> rfl

end Mode

/-- The writing `esc c` of a character reads as the character again. -/
def Reads (esc : Char → Text) (c : Char) : Prop :=
  (∃ e, esc c = ['\\', e] ∧ escapes.lookup e = some c) ∨
    (esc c = [c] ∧ c ≠ '"' ∧ c ≠ '\\' ∧ isBreak c = false)

/-- The character is a line break and is written as it is. -/
def RawBreak (esc : Char → Text) (c : Char) : Prop := esc c = [c] ∧ isBreak c = true ∧ c ≠ '\r'

section Escaped

variable {esc : Char → Text} {m : Mode} {c : Char} {cs : Text}

theorem scan_of_go {m' : Mode} {out : Text} {lines : Nat} (h : next m c cs = .go m' out lines) :
    scan m (c :: cs) = (scan m' cs).map (Scanned.after out lines) := by rw [scan, h]

theorem scan_of_close {out : Text} (h : next m c cs = .close out) : scan m (c :: cs) = some ⟨out, 0, cs⟩ := by
  rw [scan, h]

theorem scan_of_fail (h : next m c cs = .fail) : scan m (c :: cs) = none := by rw [scan, h]

theorem next_inText (h : m.inText = true) : next m c cs =
    if isBlank c then .go (m.blankBy c) [] 0
    else if isBreak c then breakLine m c cs
    else if c = '"' then .close m.owed
    else if c = '\\' then .go .escape m.owed 0
    else .go .words (m.owed ++ [c]) 0 := by
  cases m <;> first | rfl | cases h

/-- The closing quote. -/
theorem scan_quote (h : m.inText = true) : scan m ('"' :: cs) = some ⟨m.owed, 0, cs⟩ :=
  scan_of_close (next_inText h)

/-- A character that is escaped. -/
theorem scan_escape (h : m.inText = true) {e : Char} (he : escapes.lookup e = some c) :
    scan m ('\\' :: e :: cs) = (scan .words cs).map (Scanned.after (m.owed ++ [c]) 0) := by
  have hesc : next .escape e cs = .go .words [c] 0 := by simp [next, he]
  have hback : next m '\\' (e :: cs) = .go .escape m.owed 0 := next_inText h
  rw [scan_of_go hback, scan_of_go hesc]
  cases scan .words cs <;> simp [Scanned.after]

/-- A blank. -/
theorem scan_blank (h : m.inText = true) (hc : isBlank c = true) :
    scan m (c :: cs) = scan (m.blankBy c) cs := by
  rw [scan_of_go ((next_inText h).trans (if_pos hc))]
  cases scan (m.blankBy c) cs <;> simp [Scanned.after]

/-- A character of a word. -/
theorem scan_word (h : m.inText = true) (hc : isBlank c = false) (hb : isBreak c = false) (hq : c ≠ '"')
    (he : c ≠ '\\') : scan m (c :: cs) = (scan .words cs).map (Scanned.after (m.owed ++ [c]) 0) := by
  refine scan_of_go ?_
  rw [next_inText h]
  simp [hc, hb, hq, he]

/-- A line break, unless the next line begins as a document does. -/
theorem scan_break (h : m.inText = true) (hb : isBreak c = true) (hr : c ≠ '\r') :
    scan m (c :: cs) = if isSeparator cs then none
      else (scan (m.brokenBy (if isFeed c then '\n' else c)) cs).map (Scanned.after [] 1) := by
  have hblank : isBlank c = false := by
    cases hc : isBlank c
    · rfl
    · simp only [isBlank, isBreak, isFeed, Bool.or_eq_true, decide_eq_true_eq] at hc hb
      rcases hc with rfl | rfl <;> simp at hb
  have hnext : next m c cs = if isSeparator cs then .fail
      else .go (m.brokenBy (if isFeed c then '\n' else c)) [] 1 := by
    rw [next_inText h, if_neg (by simp [hblank]), if_pos hb, breakLine, if_neg fun h => hr h.1]
  by_cases hsep : isSeparator cs = true
  · rw [if_pos hsep, scan_of_fail (hnext.trans (if_pos hsep))]
  · rw [if_neg hsep, scan_of_go (hnext.trans (if_neg hsep))]

/-- **An escaped text is read back**, and ends no line. -/
theorem scan_escaped {s : Text} (hs : ∀ c ∈ s, Reads esc c) (hm : m.inLine = true) (rest : Text) :
    scan m (s.flatMap esc ++ '"' :: rest) = some ⟨m.owed ++ s, 0, rest⟩ := by
  induction s generalizing m with
  | nil => rw [List.flatMap_nil, List.nil_append, scan_quote (m.inText_of_inLine hm), List.append_nil]
  | cons c s ih =>
    have htext := m.inText_of_inLine hm
    have ih' := fun {m : Mode} hm => ih (m := m) (fun x hx => hs x (List.mem_cons_of_mem _ hx)) hm
    rw [List.flatMap_cons, List.append_assoc]
    rcases hs c List.mem_cons_self with ⟨e, he, hlook⟩ | ⟨he, hq, hb, hbreak⟩
    · rw [he, List.cons_append, List.cons_append, List.nil_append, scan_escape htext hlook, ih' rfl]
      simp [Scanned.after, Mode.owed]
    · rw [he, List.singleton_append]
      by_cases hc : isBlank c = true
      · rw [scan_blank htext hc, ih' (m.inLine_blankBy hm c), m.owed_blankBy hm, List.append_assoc]
        rfl
      · rw [scan_word htext (by simpa using hc) hbreak hq hb, ih' rfl]
        simp [Scanned.after, Mode.owed]

/-- **What is read ends exactly the lines of the breaks that are not escaped.** -/
theorem lines_scan {s rest : Text} {r : Scanned} (hs : ∀ c ∈ s, Reads esc c ∨ RawBreak esc c)
    (hm : m.inText = true) (h : scan m (s.flatMap esc ++ '"' :: rest) = some r) :
    r.rest = rest ∧ (r.lines = 0 → ∀ c ∈ s, ¬ RawBreak esc c) := by
  induction s generalizing m r with
  | nil =>
    rw [List.flatMap_nil, List.nil_append, scan_quote hm, Option.some.injEq] at h
    exact ⟨by rw [← h], fun _ c hc => absurd hc List.not_mem_nil⟩
  | cons c s ih =>
    have ih' := fun {m : Mode} {r : Scanned} hm h =>
      ih (m := m) (r := r) (fun x hx => hs x (List.mem_cons_of_mem _ hx)) hm h
    -- what the rest of the text reads as, after a character that ends no line
    have hgo : ∀ {m' : Mode} (out : Text), m'.inText = true → ¬ RawBreak esc c →
        (scan m' (s.flatMap esc ++ '"' :: rest)).map (Scanned.after out 0) = some r →
        r.rest = rest ∧ (r.lines = 0 → ∀ x ∈ c :: s, ¬ RawBreak esc x) := by
      intro m' out hm' hraw hr
      obtain ⟨r', hr', rfl⟩ := Option.map_eq_some_iff.mp hr
      obtain ⟨hrest, hlines⟩ := ih' hm' hr'
      refine ⟨hrest, fun h0 x hx => ?_⟩
      rcases List.mem_cons.mp hx with rfl | hx
      · exact hraw
      · exact hlines (by simpa [Scanned.after] using h0) x hx
    rw [List.flatMap_cons, List.append_assoc] at h
    rcases hs c List.mem_cons_self with (⟨e, he, hlook⟩ | ⟨he, hq, hb, hbreak⟩) | ⟨he, hbreak, hcr⟩
    · rw [he, List.cons_append, List.cons_append, List.nil_append, scan_escape hm hlook] at h
      refine hgo _ rfl (fun hraw => ?_) h
      have := congrArg List.length (he.symm.trans hraw.1)
      simp at this
    · have hraw : ¬ RawBreak esc c := fun hraw => by simp [hraw.2.1] at hbreak
      rw [he, List.singleton_append] at h
      by_cases hc : isBlank c = true
      · rw [scan_blank hm hc] at h
        refine hgo [] (m.inText_blankBy c) hraw ?_
        rw [h]
        simp [Scanned.after]
      · rw [scan_word hm (by simpa using hc) hbreak hq hb] at h
        exact hgo _ rfl hraw h
    · rw [he, List.singleton_append, scan_break hm hbreak hcr] at h
      split at h
      · cases h
      · obtain ⟨r', hr', rfl⟩ := Option.map_eq_some_iff.mp h
        exact ⟨(ih' (m.inText_brokenBy _) hr').1, fun h0 => by simp [Scanned.after] at h0⟩

end Escaped

/-! ## Types of plain words -/

/-- What an entry holds. -/
inductive Scalar
  | null
  | bool (b : Bool)
  | int (n : Int)
  | float (x : FloatValue)
  | str (t : Text)
  /-- A number in base 60, a date, `<<` or `=`. -/
  | other (word : Text)
  deriving DecidableEq

open Ere in
/-- One of several forms. -/
def anyOf (rs : List Ere) : Ere := rs.foldr alt never

open Ere in
/-- A part that may be left out. -/
def optional (r : Ere) : Ere := alt empty r

open Ere in
/-- A word of fixed characters. -/
def literals (w : Text) : Ere := seq (w.map literal)

def trueWords : List Text :=
  ["yes", "Yes", "YES", "true", "True", "TRUE", "on", "On", "ON"].map String.toList

def falseWords : List Text :=
  ["no", "No", "NO", "false", "False", "FALSE", "off", "Off", "OFF"].map String.toList

def nullWords : List Text := ["~", "null", "Null", "NULL"].map String.toList

def isSign (c : Char) : Bool := c = '-' || c = '+'

def isDigitOrLine (c : Char) : Bool := c.isDigit || c = '_'

section Expressions

open Ere

/-- `[eE][-+][0-9]+`, or nothing. -/
def exponentRe : Ere :=
  optional (seq [chr fun c => c = 'e' || c = 'E', chr isSign, blanks Char.isDigit])

/-- A float: with digits before the point, without, infinite, or not a number. -/
def floatRe : Ere :=
  anyOf [
    seq [optional (chr isSign), chr Char.isDigit, star (chr isDigitOrLine), literal '.',
      star (chr isDigitOrLine), exponentRe],
    seq [literal '.', chr Char.isDigit, star (chr isDigitOrLine), exponentRe],
    seq [optional (chr isSign), literal '.', anyOf (["inf", "Inf", "INF"].map fun w => literals w.toList)],
    seq [literal '.', anyOf (["nan", "NaN", "NAN"].map fun w => literals w.toList)]]

/-- An integer: in base 2, 8, 10 or 16. -/
def intRe : Ere :=
  anyOf [
    seq [optional (chr isSign), literals ['0', 'b'], blanks fun c => c = '0' || c = '1' || c = '_'],
    seq [optional (chr isSign), literal '0', blanks fun c => ('0' ≤ c && c ≤ '7') || c = '_'],
    seq [optional (chr isSign), anyOf [literal '0',
      seq [chr fun c => '1' ≤ c && c ≤ '9', star (chr isDigitOrLine)]]],
    seq [optional (chr isSign), literals ['0', 'x'], blanks fun c => (hexDigit c).isSome || c = '_']]

/-- `(:[0-5]?[0-9])+`. -/
def sixtiethsRe : Ere :=
  let one := seq [literal ':', optional (chr fun c => '0' ≤ c && c ≤ '5'), chr Char.isDigit]
  cat one (star one)

/-- A number in base 60, an integer or a float. -/
def base60Re : Ere :=
  anyOf [
    seq [optional (chr isSign), chr Char.isDigit, star (chr isDigitOrLine), sixtiethsRe, literal '.',
      star (chr isDigitOrLine)],
    seq [optional (chr isSign), chr fun c => '1' ≤ c && c ≤ '9', star (chr isDigitOrLine), sixtiethsRe]]

/-- One digit or two. -/
def shortRe : Ere := cat (chr Char.isDigit) (optional (chr Char.isDigit))

/-- Exactly so many digits. -/
def digitsRe (n : Nat) : Ere := seq (List.replicate n (chr Char.isDigit))

/-- A date, with a time or without. -/
def dateRe : Ere :=
  anyOf [
    seq [digitsRe 4, literal '-', digitsRe 2, literal '-', digitsRe 2],
    seq [digitsRe 4, literal '-', shortRe, literal '-', shortRe,
      anyOf [chr fun c => c = 'T' || c = 't', blanks isBlank], shortRe, literal ':', digitsRe 2,
      literal ':', digitsRe 2, optional (seq [literal '.', star (chr Char.isDigit)]),
      optional (seq [star (chr isBlank), anyOf [literal 'Z',
        seq [chr isSign, shortRe, optional (seq [literal ':', digitsRe 2])]]])]]

end Expressions

/-- The digits of a number in some base, whatever stands between them. -/
def valueIn (base : Nat) (t : Text) : Nat := (t.filterMap hexDigit).foldl (fun n d => base * n + d) 0

/-- The integer of a word that is one. -/
def constructInt (w : Text) : Int :=
  let t := w.filter (· ≠ '_')
  let v := unsigned t
  let n : Nat :=
    if ['0', 'b'].isPrefixOf v then valueIn 2 (v.drop 2)
    else if ['0', 'x'].isPrefixOf v then valueIn 16 (v.drop 2)
    else if v.head? = some '0' then valueIn 8 v
    else Nat.ofDigitChars 10 v 0
  if t.head? = some '-' then -n else n

/-- The float of a word that is one, where `nearest` rounds a decimal. -/
def constructFloat (nearest : Decimal → FloatValue) (w : Text) : FloatValue :=
  let v := (unsigned w).map Char.toLower
  if v = ".inf".toList then .infinite (w.head? = some '-')
  else if v = ".nan".toList then .nan
  else nearest (Decimal.read w)

/-- The value of a plain word. -/
def resolve (nearest : Decimal → FloatValue) (w : Text) : Scalar :=
  if w ∈ trueWords then .bool true
  else if w ∈ falseWords then .bool false
  else if floatRe.accepts true w then .float (constructFloat nearest w)
  else if intRe.accepts true w then .int (constructInt w)
  else if w ∈ nullWords then .null
  else if base60Re.accepts true w || dateRe.accepts true w || w = ['<', '<'] || w = ['='] then .other w
  else .str w

/-! ### Numbers -/

/-- Does every text of the expression have the character? -/
def Requires (c : Char) : Ere → Prop
  | .never => True
  | .chr p => ∀ x, p x = true → x = c
  | .cat r s => Requires c r ∨ Requires c s
  | .alt r s => Requires c r ∧ Requires c s
  | _ => False

section Numbers

open Ere

theorem Requires.mem {c : Char} {r : Ere} {a z : Bool} {t : Text} (hr : Requires c r)
    (h : Matches r a z t) : c ∈ t := by
  induction h with
  | empty => exact hr.elim
  | chr hp => exact List.mem_singleton.mpr (hr _ hp).symm
  | bol => exact hr.elim
  | eol => exact hr.elim
  | cat _ _ ih₁ ih₂ => exact List.mem_append.mpr (hr.imp ih₁ ih₂)
  | altLeft _ ih => exact ih hr.1
  | altRight _ ih => exact ih hr.2
  | starNil => exact hr.elim
  | starCons _ _ _ _ => exact hr.elim

/-- A float has a point. -/
theorem point_mem_of_accepts {w : Text} (h : floatRe.accepts true w = true) : '.' ∈ w := by
  refine Requires.mem ?_ (accepts_iff.mp h)
  simp [floatRe, anyOf, seq, literal, Requires]

variable {nearest : Decimal → FloatValue} {w : Text} {a z : Bool}

/-- A word without a point is not a float. -/
theorem resolve_ne_float (h : '.' ∉ w) (x : FloatValue) : resolve nearest w ≠ .float x := by
  have hf : floatRe.accepts true w = false := by
    cases hf : floatRe.accepts true w
    · rfl
    · exact absurd (point_mem_of_accepts hf) h
  simp only [resolve, hf, Bool.false_eq_true, if_false]
  split_ifs <;> simp

theorem matches_optional_sign (negative : Bool) : Matches (optional (chr isSign)) a z (sign negative) := by
  cases negative with
  | true => exact Matches.altRight (Matches.chr rfl)
  | false => exact Matches.altLeft Matches.empty

theorem matches_seq_append {r : Ere} {rs : List Ere} {t u : Text} (ht : ∀ a z, Matches r a z t)
    (hu : ∀ a z, Matches (seq rs) a z u) : Matches (seq (r :: rs)) a z (t ++ u) :=
  Matches.cat (ht _ _) (hu _ _)

theorem matches_anyOf {r : Ere} {rs : List Ere} {t : Text} (hr : r ∈ rs) (h : Matches r a z t) :
    Matches (anyOf rs) a z t := by
  induction rs with
  | nil => exact absurd hr List.not_mem_nil
  | cons r' rs ih =>
    rcases List.mem_cons.mp hr with rfl | hr
    · exact Matches.altLeft h
    · exact Matches.altRight (ih hr)

theorem not_mem_of_isDigit {ws : List Text} (hws : ∀ w ∈ ws, ∀ c ∈ w, c.isDigit = false) {c : Char}
    (hc : c.isDigit = true) (hw : c ∈ w) : w ∉ ws := fun h => by
  rw [hws w h c hw] at hc
  cases hc

theorem isDigit_of_mem_boolWords : ∀ w ∈ trueWords ++ falseWords, ∀ c ∈ w, c.isDigit = false := by decide

/-- A word with a digit is no boolean. -/
theorem resolve_of_isDigit {c : Char} (hc : c.isDigit = true) (hw : c ∈ w) :
    w ∉ trueWords ∧ w ∉ falseWords := by
  have h := not_mem_of_isDigit isDigit_of_mem_boolWords hc hw
  exact ⟨fun h' => h (List.mem_append_left _ h'), fun h' => h (List.mem_append_right _ h')⟩

/-- The words of integers. -/
theorem accepts_strInt (n : Int) : intRe.accepts true (strInt n) = true := by
  have hsign : ∀ a z, Matches (optional (chr isSign)) a z (sign (decide (n < 0))) := fun _ _ =>
    matches_optional_sign _
  refine accepts_iff.mpr (matches_anyOf (List.mem_cons_of_mem _ (List.mem_cons_of_mem _ List.mem_cons_self))
    (matches_seq_append hsign fun a z => ?_))
  rw [← List.append_nil (Nat.toDigits 10 n.natAbs)]
  refine matches_seq_append (fun a z => ?_) fun _ _ => Matches.empty
  by_cases h0 : n.natAbs = 0
  · rw [h0]
    exact matches_anyOf List.mem_cons_self (Matches.chr rfl)
  · obtain ⟨c, cs, hc⟩ := List.exists_cons_of_ne_nil (Nat.toDigits_ne_nil (n := n.natAbs) (b := 10))
    have hd : ∀ x ∈ c :: cs, x.isDigit = true := fun x hx =>
      Nat.isDigit_of_mem_toDigits (by decide) (by decide) (hc ▸ hx)
    have hhead := head?_toDigits _ h0
    rw [hc] at hhead ⊢
    refine matches_anyOf (List.mem_cons_of_mem _ List.mem_cons_self)
      (matches_seq_append (t := [c]) (fun _ _ => Matches.chr ?_) fun a z => ?_)
    · have hdigit := hd c List.mem_cons_self
      have hne : c ≠ '0' := fun e => hhead (by rw [e]; rfl)
      simp only [Char.isDigit, Bool.and_eq_true, decide_eq_true_eq] at hdigit ⊢
      refine ⟨?_, hdigit.2⟩
      have : c.toNat ≠ '0'.toNat := fun e => hne (Char.toNat_inj.mp e)
      have h48 : 48 ≤ c.toNat := hdigit.1
      show 49 ≤ c.toNat
      have : c.toNat ≠ 48 := this
      omega
    · rw [← List.append_nil cs]
      refine matches_seq_append (fun a z => matches_star_chr.mpr fun x hx => ?_) fun _ _ => Matches.empty
      rw [isDigitOrLine, hd x (List.mem_cons_of_mem _ hx), Bool.true_or]

theorem mem_strInt {c : Char} {n : Int} (h : c ∈ strInt n) : c = '-' ∨ c.isDigit = true := by
  rcases List.mem_append.mp h with h | h
  · by_cases hn : n < 0
    · simp [sign, hn] at h
      exact Or.inl h
    · simp [sign, hn] at h
  · exact Or.inr (Nat.isDigit_of_mem_toDigits (by decide) (by decide) h)

theorem constructInt_strInt (n : Int) : constructInt (strInt n) = n := by
  have hfilter : (strInt n).filter (· ≠ '_') = strInt n := by
    refine List.filter_eq_self.mpr fun c hc => decide_eq_true fun e => ?_
    rcases mem_strInt hc with h | h <;> rw [e] at h <;> revert h <;> decide
  obtain ⟨c, cs, hc⟩ := List.exists_cons_of_ne_nil (Nat.toDigits_ne_nil (n := n.natAbs) (b := 10))
  have hd : ∀ x ∈ c :: cs, x.isDigit = true := fun x hx =>
    Nat.isDigit_of_mem_toDigits (by decide) (by decide) (hc ▸ hx)
  have hne : ∀ x : Char, x.isDigit = false → c ≠ x := fun x hx e => by
    rw [← e, hd c List.mem_cons_self] at hx
    cases hx
  obtain ⟨hbody, hneg⟩ := unsigned_sign (decide (n < 0)) (t := Nat.toDigits 10 n.natAbs)
    (by simp [hc, hne '-' rfl]) (by simp [hc, hne '+' rfl])
  have hvalue : (if ['0', 'b'].isPrefixOf (Nat.toDigits 10 n.natAbs) then
        valueIn 2 ((Nat.toDigits 10 n.natAbs).drop 2)
      else if ['0', 'x'].isPrefixOf (Nat.toDigits 10 n.natAbs) then
        valueIn 16 ((Nat.toDigits 10 n.natAbs).drop 2)
      else if (Nat.toDigits 10 n.natAbs).head? = some '0' then valueIn 8 (Nat.toDigits 10 n.natAbs)
      else Nat.ofDigitChars 10 (Nat.toDigits 10 n.natAbs) 0) = n.natAbs := by
    by_cases h0 : n.natAbs = 0
    · rw [h0]
      rfl
    · have hhead := head?_toDigits _ h0
      have hpre : ∀ x : Char, (['0', x].isPrefixOf (Nat.toDigits 10 n.natAbs)) = false := by
        intro x
        rw [hc] at hhead ⊢
        have : ('0' == c) = false := beq_false_of_ne fun e => hhead (by rw [← e]; rfl)
        simp [List.isPrefixOf, this]
      simp only [hpre, hhead, Bool.false_eq_true, if_false, Nat.ofDigitChars_ten_toDigits]
  unfold constructInt
  simp only [hfilter]
  rw [show strInt n = sign (decide (n < 0)) ++ Nat.toDigits 10 n.natAbs from rfl, hbody, hvalue]
  by_cases hn : n < 0
  · rw [if_pos (of_decide_eq_true (hneg.trans (decide_eq_true hn)))]
    omega
  · rw [if_neg (of_decide_eq_false (hneg.trans (decide_eq_false hn)))]
    omega

/-- **An integer keeps its value and its type.** -/
theorem resolve_int (nearest : Decimal → FloatValue) (n : Int) : resolve nearest (strInt n) = .int n := by
  have hd : ∃ c ∈ strInt n, c.isDigit = true := by
    obtain ⟨c, cs, hc⟩ := List.exists_cons_of_ne_nil (Nat.toDigits_ne_nil (n := n.natAbs) (b := 10))
    have hm : c ∈ Nat.toDigits 10 n.natAbs := hc ▸ List.mem_cons_self
    exact ⟨c, List.mem_append_right _ hm, Nat.isDigit_of_mem_toDigits (by decide) (by decide) hm⟩
  obtain ⟨c, hc, hcd⟩ := hd
  obtain ⟨ht, hf⟩ := resolve_of_isDigit hcd hc
  have hfloat : ¬ floatRe.accepts true (strInt n) = true := fun h => by
    rcases mem_strInt (point_mem_of_accepts h) with h | h <;> revert h <;> decide
  rw [resolve, if_neg ht, if_neg hf, if_neg hfloat, if_pos (accepts_strInt n), constructInt_strInt]

/-- **A float keeps its value and its type** when it is written with a point. -/
theorem resolve_repr {d : Decimal} (h : ¬ d.Pointless) : resolve nearest d.repr = .float (nearest d) := by
  obtain ⟨whole, frac, tail, hw, hr, ht, -⟩ := Decimal.exists_repr h
  obtain ⟨x, xs, rfl⟩ := List.exists_cons_of_ne_nil hw
  have hx : charOf x ∈ d.repr := by simp [hr]
  obtain ⟨htrue, hfalse⟩ := resolve_of_isDigit (isDigit_charOf x) hx
  have hdigits : ∀ (ds : List (Fin 10)) (a z : Bool), Matches (star (chr isDigitOrLine)) a z (ds.map charOf) := by
    intro ds a z
    refine matches_star_chr.mpr fun c hc => ?_
    obtain ⟨y, -, rfl⟩ := List.mem_map.mp hc
    rw [isDigitOrLine, isDigit_charOf, Bool.true_or]
  have htail : ∀ a z, Matches exponentRe a z tail := by
    intro a z
    rcases ht with rfl | ⟨e, rfl⟩
    · exact Matches.altLeft Matches.empty
    · obtain ⟨ds, he, hne, hds, -⟩ := exists_exponent e
      refine Matches.altRight ?_
      rw [he, ← List.singleton_append, ← List.singleton_append, ← List.append_nil ds]
      refine matches_seq_append (fun _ _ => Matches.chr rfl) fun a z => matches_seq_append
        (fun _ _ => Matches.chr ?_) fun a z => matches_seq_append (fun a z => ?_) fun _ _ => Matches.empty
      · split <;> rfl
      · exact matches_blanks_iff.mpr ⟨hne, hds⟩
  have hfloat : floatRe.accepts true d.repr = true := by
    refine accepts_iff.mpr (matches_anyOf List.mem_cons_self ?_)
    rw [hr, List.map_cons, List.cons_append, ← List.singleton_append (x := charOf x),
      ← List.singleton_append (x := '.'), ← List.append_nil tail]
    exact matches_seq_append (fun _ _ => matches_optional_sign _) fun _ _ =>
      matches_seq_append (fun _ _ => Matches.chr (isDigit_charOf x)) fun _ _ =>
      matches_seq_append (hdigits xs) fun _ _ => matches_seq_append (fun _ _ => Matches.chr rfl) fun _ _ =>
      matches_seq_append (hdigits frac) fun _ _ => matches_seq_append htail fun _ _ => Matches.empty
  have hvalue : constructFloat nearest d.repr = nearest d := by
    obtain ⟨hbody, -⟩ := unsigned_sign d.negative
      (t := (x :: xs).map charOf ++ '.' :: (frac.map charOf ++ tail))
      (by simp [Decimal.charOf_ne (c := '-') rfl x]) (by simp [Decimal.charOf_ne (c := '+') rfl x])
    have hhead : ∀ t : Text, (unsigned d.repr).map Char.toLower ≠ '.' :: t := by
      intro t e
      rw [hr, hbody, List.map_cons, List.cons_append, List.map_cons] at e
      have hlow : ∀ y : Fin 10, (charOf y).toLower ≠ '.' := by decide
      exact hlow x (List.cons.inj e).1
    have hinf : (unsigned d.repr).map Char.toLower ≠ ".inf".toList := hhead ['i', 'n', 'f']
    have hnan : (unsigned d.repr).map Char.toLower ≠ ".nan".toList := hhead ['n', 'a', 'n']
    rw [constructFloat]
    simp only [hinf, hnan, if_false, Decimal.read_repr h]
  rw [resolve, if_neg htrue, if_neg hfalse, if_pos hfloat, hvalue]

end Numbers

/-! ## Documents -/

/-- An entry: its key, its value, and the lines the value ended before its own last one. -/
structure Entry where
  key : Text
  value : Scalar
  lines : Nat
  deriving DecidableEq

/-- A character of a plain key of one word. -/
def isKeyChar (c : Char) : Bool := c.isAlphanum || c = '-' || c = '_' || c = '.'

/-- A plain word may not begin as another form does, and may not end as a key does. -/
def isPlain (w : Text) : Bool :=
  w.head?.any (fun c => c ∉ "-?:,[]\x7b\x7d#&*!|>'\"%@\x60".toList ||
    (c ∈ ['-', '?', ':'] && 1 < w.length)) && w.getLast? ≠ some ':'

/-- What follows the line that a value ends on. Only a comment may stand before the break. -/
def endOfLine (t : Text) : Option Text :=
  let rest := t.dropWhile isBlank
  let rest := if rest.head? = some '#' ∧ rest.length < t.length
    then rest.dropWhile (fun c => !isBreak c) else rest
  match rest with
  | [] => some []
  | c :: cs =>
    if isBreak c then some (if c = '\r' ∧ cs.head? = some '\n' then cs.tail else cs) else none

/-- The value of an entry, behind `key: `. -/
def entryValue (nearest : Decimal → FloatValue) (key t : Text) : Option (Entry × Text) :=
  match t.dropWhile isBlank with
  | '"' :: body =>
    (scan .words body).bind fun s => (endOfLine s.rest).map (Prod.mk ⟨key, .str s.value, s.lines⟩)
  | body =>
    let w := body.takeWhile fun c => !isBlank c && !isBreak c
    if isPlain w then (endOfLine (body.drop w.length)).map (Prod.mk ⟨key, resolve nearest w, 0⟩)
    else none

/-- The first entry, and what follows it. -/
def entry (nearest : Decimal → FloatValue) (t : Text) : Option (Entry × Text) :=
  match t.takeWhile isKeyChar, t.dropWhile isKeyChar with
  | [], _ => none
  | key, ':' :: ' ' :: rest => entryValue nearest key rest
  | _, _ => none

/-- The entries, at most so many. -/
def entries (nearest : Decimal → FloatValue) : Nat → Text → Option (List Entry)
  | _, [] => some []
  | 0, _ => none
  | n + 1, t => (entry nearest t).bind fun e => (entries nearest n e.2).map (e.1 :: ·)

/-- The entries of a document. Each takes a character at least. -/
def load (nearest : Decimal → FloatValue) (doc : Text) : Option (List Entry) :=
  if doc.all printable then entries nearest doc.length doc else none

/-! ### One entry -/

/-- A plain key of one word. -/
structure Key where
  text : Text
  nonempty : text ≠ []
  plain : ∀ c ∈ text, isKeyChar c = true

/-- The line of an entry. -/
def line (key : Key) (t : Text) : Text := key.text ++ ':' :: ' ' :: (t ++ ['\n'])

section Line

variable {nearest : Decimal → FloatValue} {esc : Char → Text} (key : Key)

theorem printable_of_isKeyChar {c : Char} (h : isKeyChar c = true) : printable c = true := by
  have hn : 45 ≤ c.toNat ∧ c.toNat ≤ 122 := by
    simp only [isKeyChar, Bool.or_eq_true, decide_eq_true_eq] at h
    rcases h with ((h | rfl) | rfl) | rfl
    · have := toNat_of_isAlphanum h
      omega
    all_goals decide
  simp [printable]
  omega

/-- A document of one line is read from behind its key. -/
theorem load_line (t : Text) : load nearest (line key t) =
    if t.all printable then
      (entryValue nearest key.text (t ++ ['\n'])).bind fun e =>
        (entries nearest (key.text.length + t.length + 2) e.2).map (e.1 :: ·)
    else none := by
  have htake : (line key t).takeWhile isKeyChar = key.text := by
    rw [line, List.takeWhile_append_of_pos key.plain]
    simp [isKeyChar]
  have hdrop : (line key t).dropWhile isKeyChar = ':' :: ' ' :: (t ++ ['\n']) := by
    rw [line, List.dropWhile_append_of_pos key.plain]
    simp [isKeyChar]
  have hall : (line key t).all printable = t.all printable := by
    have hk : key.text.all printable = true :=
      List.all_eq_true.mpr fun c hc => printable_of_isKeyChar (key.plain c hc)
    simp [line, hk, printable]
  have hlen : (line key t).length = key.text.length + t.length + 2 + 1 := by
    simp [line]
    omega
  have hentry : entry nearest (line key t) = entryValue nearest key.text (t ++ ['\n']) := by
    obtain ⟨c, cs, hc⟩ := List.exists_cons_of_ne_nil key.nonempty
    rw [entry, htake, hdrop, hc]
    rfl
  obtain ⟨c, cs, hc⟩ := List.exists_cons_of_ne_nil
    (show line key t ≠ [] from fun h => by rw [h] at hlen; cases hlen)
  rw [load, hall, hlen, ← hentry, hc, entries]
  exact List.cons_ne_nil c cs

theorem endOfLine_newline : endOfLine ['\n'] = some [] := rfl

theorem entries_nil (n : Nat) : entries nearest n [] = some [] := by cases n <;> rfl

/-- A plain word is the only value of its line. -/
theorem load_plain {w : Text} (hw : isPlain w = true) (hq : w.head? ≠ some '"')
    (hc : ∀ c ∈ w, isBlank c = false ∧ isBreak c = false ∧ printable c = true) :
    load nearest (line key w) = some [⟨key.text, resolve nearest w, 0⟩] := by
  obtain ⟨c, cs, rfl⟩ := List.exists_cons_of_ne_nil (l := w) fun h => by rw [h] at hw; cases hw
  have hdrop : (c :: cs ++ ['\n']).dropWhile isBlank = c :: cs ++ ['\n'] := by
    simp [(hc c List.mem_cons_self).1]
  have htake : (c :: cs ++ ['\n']).takeWhile (fun c => !isBlank c && !isBreak c) = c :: cs := by
    rw [List.takeWhile_append_of_pos fun x hx => by simp [(hc x hx).1, (hc x hx).2.1]]
    simp [isBlank, isBreak, isFeed]
  have hvalue : entryValue nearest key.text (c :: cs ++ ['\n']) =
      some (⟨key.text, resolve nearest (c :: cs), 0⟩, []) := by
    rw [entryValue, hdrop]
    have hne : c ≠ '"' := fun e => hq (by rw [e]; rfl)
    split
    · rename_i body hbody
      exact absurd (List.cons.inj hbody).1 hne
    · rename_i body
      simp only [htake, hw, if_true, List.drop_left', endOfLine_newline, Option.map_some]
  rw [load_line, if_pos (List.all_eq_true.mpr fun x hx => (hc x hx).2.2), hvalue, Option.bind_some,
    entries_nil, Option.map_some]

/-- A character of a number or of a word of letters. -/
def isWordChar (c : Char) : Bool := c.isAlphanum || c ∈ ['-', '+', '.']

theorem toNat_of_isWordChar {c : Char} (h : isWordChar c = true) : 43 ≤ c.toNat ∧ c.toNat ≤ 122 := by
  simp only [isWordChar, Bool.or_eq_true, decide_eq_true_eq, List.mem_cons, List.not_mem_nil,
    or_false] at h
  rcases h with h | rfl | rfl | rfl
  · have := toNat_of_isAlphanum h
    omega
  all_goals decide

/-- A number or a word of letters is the only value of its line. -/
theorem load_word (negative : Bool) (c : Char) (cs : Text) (hc : c.isAlphanum = true)
    (hw : ∀ x ∈ c :: cs, isWordChar x = true) :
    load nearest (line key (sign negative ++ c :: cs)) =
      some [⟨key.text, resolve nearest (sign negative ++ c :: cs), 0⟩] := by
  have hmem : ∀ x ∈ sign negative ++ c :: cs, isWordChar x = true := by
    intro x hx
    rcases List.mem_append.mp hx with hx | hx
    · cases negative with
      | true =>
        rw [List.mem_singleton.mp hx]
        rfl
      | false => exact absurd hx List.not_mem_nil
    · exact hw x hx
  have hne : ∀ x : Char, x.isAlphanum = false → c ≠ x := fun x hx e => by
    rw [← e, hc] at hx
    cases hx
  refine load_plain key ?_ ?_ fun x hx => ?_
  · have hlast : (sign negative ++ c :: cs).getLast? ≠ some ':' := fun h => by
      have := hmem _ (List.mem_of_getLast? h)
      revert this
      decide
    cases negative with
    | true =>
      simp [isPlain, sign] at hlast ⊢
      exact hlast
    | false =>
      have hfirst : c ∉ "-?:,[]\x7b\x7d#&*!|>'\"%@\x60".toList := fun h =>
        absurd hc (by
          have : ∀ x ∈ "-?:,[]\x7b\x7d#&*!|>'\"%@\x60".toList, ¬ x.isAlphanum = true := by decide
          exact this c h)
      simp only [sign, Bool.false_eq_true, if_false, List.nil_append] at hlast ⊢
      simp only [isPlain, List.head?_cons, Option.any_some, hfirst, not_false_eq_true, decide_true,
        Bool.true_or, Bool.true_and, ne_eq, hlast]
  · cases negative with
    | true => simp [sign]
    | false => simpa [sign] using hne '"' rfl
  · have hn := toNat_of_isWordChar (hmem x hx)
    refine ⟨?_, ?_, ?_⟩
    · simp only [isBlank, Bool.or_eq_false_iff, decide_eq_false_iff_not]
      exact ⟨fun e => by rw [e] at hn; revert hn; decide, fun e => by rw [e] at hn; revert hn; decide⟩
    · simp only [isBreak, isFeed, Bool.or_eq_false_iff, decide_eq_false_iff_not]
      refine ⟨⟨⟨⟨?_, ?_⟩, ?_⟩, ?_⟩, ?_⟩
      all_goals
        intro e
        rw [e] at hn
        revert hn
        decide
    · simp only [printable, Bool.or_eq_true, Bool.and_eq_true, decide_eq_true_eq]
      omega

variable {s : Text}

theorem entryValue_quoted (t : Text) : entryValue nearest key.text ('"' :: t ++ ['\n']) =
    (scan .words (t ++ ['\n'])).bind fun r =>
      (endOfLine r.rest).map (Prod.mk ⟨key.text, .str r.value, r.lines⟩) := rfl

/-- What a quoted text is read as, if it is: one entry, whatever the text has. -/
theorem load_quoted (hs : ∀ c ∈ s, Reads esc c ∨ RawBreak esc c) :
    load nearest (line key ('"' :: (s.flatMap esc ++ ['"']))) =
      if (s.flatMap esc).all printable then
        (scan .words (s.flatMap esc ++ '"' :: ['\n'])).map fun r => [⟨key.text, .str r.value, r.lines⟩]
      else none := by
  have hall : ('"' :: (s.flatMap esc ++ ['"'])).all printable = (s.flatMap esc).all printable := by
    simp [printable]
  rw [load_line, hall]
  split
  · rw [entryValue_quoted, List.append_assoc, List.singleton_append]
    cases hscan : scan .words (s.flatMap esc ++ '"' :: ['\n']) with
    | none => rfl
    | some r =>
      rw [Option.bind_some, (lines_scan hs rfl hscan).1, endOfLine_newline, Option.map_some,
        Option.bind_some, entries_nil, Option.map_some, Option.map_some]
  · rfl

/-- **A quoted text reads as itself, on its line, exactly when its characters are printable and each
line break is escaped.** -/
theorem load_quoted_iff (hs : ∀ c ∈ s, Reads esc c ∨ RawBreak esc c) :
    load nearest (line key ('"' :: (s.flatMap esc ++ ['"']))) = some [⟨key.text, .str s, 0⟩] ↔
      (∀ c ∈ s.flatMap esc, printable c = true) ∧ ∀ c ∈ s, ¬ RawBreak esc c := by
  rw [load_quoted key hs]
  constructor
  · intro h
    split at h
    · rename_i hall
      obtain ⟨r, hr, he⟩ := Option.map_eq_some_iff.mp h
      simp only [List.cons.injEq, Entry.mk.injEq, and_true, true_and] at he
      exact ⟨List.all_eq_true.mp hall, (lines_scan hs rfl hr).2 he.2⟩
    · cases h
  · rintro ⟨hprint, hraw⟩
    rw [if_pos (List.all_eq_true.mpr hprint), scan_escaped (m := .words)
      (fun c hc => (hs c hc).resolve_right (hraw c hc)) rfl]
    rfl

end Line

end LabInABox.Text.Yaml
