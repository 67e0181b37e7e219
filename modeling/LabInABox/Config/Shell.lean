import Mathlib.Logic.Function.Basic
import LabInABox.Text.Lines

/-!
# Assignments of the shell

The part of the shell's language that a configuration file keeps to, and what a shell that sources the file
makes of it: lines that are blank, comments, or one assignment each.

* A value is an unquoted word, a single-quoted text or a double-quoted text. In words and between double
  quotes `$name` and `${name}` stand for the values of names assigned earlier; any other expansion, a
  backslash and a backquote are outside of this part (`none`).
* A word in which a tilde begins a part is whatever `tilde` makes of it.
* A comment begins at a `#` that follows a blank. A name is not one of the shell's own variables.
* A `Line` is what is written, `Line.text` its text, and `Line.exec` what it does to the values of names.

Results:
* `exists_of_isName`: a name has a first character.
-/

namespace LabInABox.Shell

open Text

/-! ## Names and values -/

/-- `[A-Za-z_]` -/
def nameStart (c : Char) : Bool := c.isAlpha || c = '_'

/-- `[A-Za-z0-9_]` -/
def nameChar (c : Char) : Bool := c.isAlphanum || c = '_'

/-- A name of the shell. -/
def isName (t : Text) : Bool := t.head?.any nameStart && t.all nameChar

theorem nameChar_of_nameStart {c : Char} (h : nameStart c = true) : nameChar c = true := by
  unfold nameStart at h
  unfold nameChar Char.isAlphanum
  rw [Bool.or_eq_true] at h
  rcases h with h | h
  · rw [h, Bool.true_or, Bool.true_or]
  · rw [h, Bool.or_true]

theorem exists_of_isName {t : Text} (h : isName t = true) :
    ∃ k ks, t = k :: ks ∧ nameStart k = true ∧ ∀ c ∈ k :: ks, nameChar c = true := by
  unfold isName at h
  rw [Bool.and_eq_true] at h
  cases t with
  | nil => exact absurd h.1 Bool.false_ne_true
  | cons k ks => exact ⟨k, ks, rfl, h.1, List.all_eq_true.mp h.2⟩

/-- A blank of the shell. -/
def isBlank (c : Char) : Bool := c = ' ' || c = '\t'

/-- A character of an unquoted word. -/
def isWordChar (c : Char) : Bool :=
  !isBlank c && c ≠ '\n' && c ≠ '\'' && c ≠ '"' && c ≠ '\\' && c ≠ '`' && c ≠ ';' && c ≠ '&' && c ≠ '|' &&
    c ≠ '<' && c ≠ '>' && c ≠ '(' && c ≠ ')'

/-- The value of an assignment, as it is written. -/
inductive Value
  | word (w : {w : Text // w.all isWordChar = true})
  | single (s : {s : Text // '\'' ∉ s})
  | double (s : {s : Text // '"' ∉ s})

/-- The text of a value. -/
def Value.text : Value → Text
  | word w => w.1
  | single s => '\'' :: s.1 ++ ['\'']
  | double s => '"' :: s.1 ++ ['"']

/-- What follows a value on its line: blanks, and perhaps a comment. -/
structure Trail where
  blanks : Text
  comment : Option Text
  allBlank : blanks.all isBlank = true
  apart : comment ≠ none → blanks ≠ []
  noNewline : ∀ c ∈ comment, '\n' ∉ c

/-- The text of a trail. -/
def Trail.text (t : Trail) : Text := t.blanks ++ t.comment.elim [] ('#' :: ·)

/-- An assignment. -/
structure Assignment where
  key : {k : Text // isName k = true}
  value : Value
  trail : Trail

/-- A line of the file, after blanks that indent it. -/
inductive Item
  | blank
  | comment (text : {t : Text // '\n' ∉ t})
  | assign (a : Assignment)

/-- A line with its indentation. -/
structure Line where
  lead : {b : Text // b.all isBlank = true}
  item : Item

/-- The text of a line. -/
def Line.text (l : Line) : Text :=
  l.lead.1 ++
    match l.item with
    | .blank => []
    | .comment t => '#' :: t.1
    | .assign a => a.key.1 ++ '=' :: (a.value.text ++ a.trail.text)

/-- The text of a file, whose last line may end with a newline or not. -/
def fileText (ls : List Line) (final : Bool) : Text :=
  if final then unlines (ls.map Line.text) else ['\n'].intercalate (ls.map Line.text)

/-! ## What a shell makes of it -/

/-- The values of names. -/
abbrev Env := Text → Option Text

/-- What a `$` begins. -/
inductive Ref
  | literal
  | name (n : Text) (length : Nat)
  | other
  deriving DecidableEq

/-- What a `$` begins, by what follows it; the length is that of what follows. -/
def refAt : Text → Ref
  | [] => .literal
  | '{' :: ds =>
    if isName (ds.takeWhile nameChar) && (ds.dropWhile nameChar).head? = some '}' then
      .name (ds.takeWhile nameChar) ((ds.takeWhile nameChar).length + 2)
    else .other
  | c :: cs =>
    if nameStart c then .name ((c :: cs).takeWhile nameChar) ((c :: cs).takeWhile nameChar).length
    else if c.isDigit || "@*#?-$!([".toList.contains c then .other
    else .literal

/-- The expansion of a text; the counter is what is left of a reference. -/
def expand (σ : Env) : Nat → Text → Option Text
  | _, [] => some []
  | skip + 1, _ :: cs => expand σ skip cs
  | 0, c :: cs =>
    if c = '$' then
      match refAt cs with
      | .literal => (expand σ 0 cs).map ('$' :: ·)
      | .name n length => (σ n).bind fun v => (expand σ length cs).map (v ++ ·)
      | .other => none
    else if c = '\\' ∨ c = '`' then none
    else (expand σ 0 cs).map (c :: ·)

/-- A tilde begins the word, or a part of it after a colon. -/
def hasTilde : Text → Bool
  | '~' :: _ => true
  | cs => go cs
where
  go : Text → Bool
    | ':' :: '~' :: _ => true
    | _ :: cs => go cs
    | [] => false

section Source

variable (tilde : Env → Text → Option Text)

/-- The value an assignment gives its name. -/
def Value.eval (σ : Env) : Value → Option Text
  | word w => if hasTilde w.1 then tilde σ w.1 else expand σ 0 w.1
  | single s => some s.1
  | double s => expand σ 0 s.1

/-- One line. -/
def Line.exec (σ : Env) (l : Line) : Option Env :=
  match l.item with
  | .assign a => (a.value.eval tilde σ).map fun v => Function.update σ a.key.1 (some v)
  | .blank | .comment _ => some σ

/-- The values of the names once the file has been sourced. -/
def source (ls : List Line) : Option Env := ls.foldlM (Line.exec tilde) fun _ => none

end Source

end LabInABox.Shell
