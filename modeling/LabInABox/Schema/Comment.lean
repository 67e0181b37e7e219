import LabInABox.Schema.Version
import LabInABox.Text.Matcher

/-!
# The schema comment of a script

Model of `parse_script` (`scripts/lab_schema`), which reads the options of an add-on from the comment
block that starts at `JSON section:` in its script.

* The block is read line by line into `Reading`: whether a heading made the fields mandatory, the fields
  so far, the last one first, and whether continuation lines go to the last one.
* `finish` takes the annotations out of the joined text of a field, each by a search for its value and
  a deletion; the two patterns are written separately in the source, and so they are here.
* Which characters beyond ASCII are word characters of a regular expression is a parameter.
-/

namespace LabInABox.Schema

open Text

/-! ## Patterns -/

/-- `\w`; no blank is one. -/
def isWord (other : Char → Bool) (c : Char) : Bool :=
  c.isAlphanum || c = '_' || (128 ≤ c.toNat && !isSpace c && other c)

/-- `re.match` of a word and `\b`. -/
def startsWord (other : Char → Bool) (word t : Text) : Bool :=
  word.isPrefixOf t && !((t.drop word.length).head?.any (isWord other))

/-- `re.sub(r'\s+', ' ', rest).strip()`. -/
def collapse (rest : Text) : Text := join (fields rest)

/-- `[A-Za-z0-9_-]`. -/
def isNameChar (c : Char) : Bool := c.isAlphanum || c = '_' || c = '-'

/-- `^#   ([A-Za-z_][A-Za-z0-9_-]*)\s*:(.*)`: the name, and what follows the colon. -/
def fieldLine (line : Text) : Option (Text × Text) :=
  if "#   ".toList <+: line then
    let t := line.drop 4
    let name := t.takeWhile isNameChar
    match name.head?, (t.dropWhile isNameChar).dropWhile isSpace with
    | some c, ':' :: rest => if c.isAlpha || c = '_' then some (name, rest) else none
    | _, _ => none
  else none

/-- The length of `\[(OPTIONAL|MANDATORY)\]\s*` at the start of a text. -/
def markerLength (t : Text) : Option Nat :=
  let after := fun marker : Text => marker.length + ((t.drop marker.length).takeWhile isSpace).length
  if "[OPTIONAL]".toList <+: t then some (after "[OPTIONAL]".toList)
  else if "[MANDATORY]".toList <+: t then some (after "[MANDATORY]".toList)
  else none

/-- What opens an annotation. -/
def opener (key : Text) : Text := '(' :: key ++ [':']

/-- `\(key:\s*([^)]+)\)`, searched for: what is enclosed. Its blanks at the ends are stripped by all
who read it. -/
def annotated (key rest : Text) : Option Text := firstMatch (enclosedAt (opener key) ')') rest

/-- The length of `\s*\(key:..\)` at the start of a text, where `ok` says what may be enclosed. -/
def annotationLength (key : Text) (ok : Text → Bool) (t : Text) : Option Nat :=
  let blanks := t.takeWhile isSpace
  (enclosedAt (opener key) ')' (t.dropWhile isSpace)).bind fun body =>
    if ok body = true then some (blanks.length + (opener key).length + body.length + 1) else none

/-- The value of an annotation, and the text without it. -/
def takeAnnotated (key rest : Text) : Option Text × Text :=
  match annotated key rest with
  | some body => (some body, deleteMatches (annotationLength key fun _ => true) 0 rest)
  | none => (none, rest)

/-- `-?\d+`. -/
def isInteger : Text → Bool
  | '-' :: digits => digits ≠ [] && digits.all isDecimal
  | digits => digits ≠ [] && digits.all isDecimal

/-- `\(key:\s*(-?\d+)\)`, searched for. -/
def boundText (key rest : Text) : Option Text :=
  firstMatch (fun t => (enclosedAt (opener key) ')' t).bind fun body =>
    if isInteger (body.dropWhile isSpace) = true then some (body.dropWhile isSpace) else none) rest

/-- The value of a bound, and the text without it: `\s*\(key:-?\d+\)` is what is deleted. -/
def takeBound (key rest : Text) : Option Int × Text :=
  match boundText key rest with
  | some n => (parseInt n, deleteMatches (annotationLength key isInteger) 0 rest)
  | none => (none, rest)

/-- `default[1:-1]` of a text between two quotes. -/
def unquote (t : Text) : Text :=
  match t.head?, t.getLast? with
  | some first, some last =>
    if 1 < t.length ∧ first = last ∧ (first = '"' ∨ first = '\'') then (t.drop 1).dropLast else t
  | _, _ => t

/-- `_infer_type(name)`. -/
def inferType (name : Text) : Text :=
  let ends := fun suffixes : List String => suffixes.any fun s => s.toList.isSuffixOf name
  if ends ["_ns", "_namespace"] then "namespace".toList
  else if ends ["_version", "_ver"] then "version".toList
  else if ends ["_repo_url", "_url"] then "url".toList
  else if ends ["_port"] then "port".toList
  else if ends ["_pass", "_pwd", "_password"] then "password".toList
  else if ends ["_super_privileged", "_enabled"] then "boolean".toList
  else if ends ["_replicas", "_pg_version"] then "integer".toList
  else "string".toList

/-! ## Reading the block -/

/-- A field while its lines are read. -/
structure RawField where
  name : Text
  inMandatory : Bool
  rest : Text
  deriving DecidableEq

/-- How far the block is read. -/
structure Reading where
  inMandatory : Bool
  fields : List RawField
  current : Bool

/-- `f'{current["_rest"]} {stripped}'.strip()`. -/
def RawField.continued (f : RawField) (stripped : Text) : RawField :=
  { f with rest := strip (f.rest ++ ' ' :: stripped) }

variable (other : Char → Bool)

/-- `line.lstrip("#").strip()`. -/
def uncomment (line : Text) : Text := strip (line.dropWhile (· = '#'))

/-- `re.match(r'(OPTIONAL|EXPERIMENTAL)\b', stripped)`. -/
def startsOptional (stripped : Text) : Bool :=
  startsWord other "OPTIONAL".toList stripped || startsWord other "EXPERIMENTAL".toList stripped

/-- One line of the block. -/
def readLine (r : Reading) (line : Text) : Reading :=
  let stripped := uncomment line
  if startsWord other "MANDATORY".toList stripped = true then
    { r with inMandatory := true, current := false }
  else if startsOptional other stripped = true then
    { r with inMandatory := false, current := false }
  else
    match fieldLine line with
    | some (name, rest) =>
      { r with fields := ⟨name, r.inMandatory, strip rest⟩ :: r.fields, current := true }
    | none =>
      if stripped = [] then { r with current := false }
      else
        match r.current, r.fields with
        | true, f :: fields => { r with fields := f.continued stripped :: fields }
        | _, _ => r

/-- A line the block goes on with: a comment, or an empty one. -/
def inBlock (line : Text) : Bool := line = [] || line.head? = some '#'

/-- The fields of the block that begins after the section header, in order. -/
def readBlock (lines : List Text) : List RawField :=
  ((lines.takeWhile inBlock).foldl (readLine other) ⟨false, [], false⟩).fields.reverse

/-! ## The annotations -/

/-- A field, as `parse_script` returns it. -/
structure CommentField where
  name : Text
  required : Bool
  default : Text
  type : Text
  description : Text
  enum : Option (List Text)
  pattern : Option Text
  min : Option Int
  max : Option Int
  deriving DecidableEq

/-- A value that is falsy is left out. -/
def nonempty {α : Type*} [DecidableEq α] (l : List α) : Option (List α) := if l = [] then none else some l

/-- `[v.strip() for v in options.split(",") if v.strip()]`. -/
def optionValues (options : Text) : List Text := ((options.splitOn ',').map strip).filter (· ≠ [])

/-- Split a field's joined text into what it declares. -/
def finish (f : RawField) : CommentField :=
  let rest := collapse f.rest
  let required := f.inMandatory || decide ("[MANDATORY]".toList <:+: rest)
  let rest := deleteMatches markerLength 0 rest
  let (default, rest) := takeAnnotated "default".toList rest
  let (options, rest) := takeAnnotated "options".toList rest
  let (pattern, rest) := takeAnnotated "pattern".toList rest
  let (min, rest) := takeBound "min".toList rest
  let (max, rest) := takeBound "max".toList rest
  { name := f.name
    required := required
    default := default.elim [] fun body => unquote (strip body)
    type := inferType f.name
    description := strip rest
    enum := (options.map optionValues).bind nonempty
    pattern := (pattern.map strip).bind nonempty
    min := min
    max := max }

/-! ## The whole script -/

/-- `^# Schema version:\s*(\S+)`, searched for in all lines. -/
def schemaVersion (lineStart : Bool) : Text → Text
  | [] => []
  | c :: cs =>
    let mark := "# Schema version:".toList
    let token := (((c :: cs).drop mark.length).dropWhile isSpace).takeWhile fun c => !isSpace c
    if lineStart = true ∧ mark <+: c :: cs ∧ token ≠ [] then token else schemaVersion (c = '\n') cs

/-- A closing quote of the section header. -/
def isQuote (c : Char) : Bool := c = '"' || c = '”'

/-- `["“]([^"”]+)["”]`, searched for. -/
def quoted : Text → Option Text :=
  firstMatch fun t =>
    match t with
    | c :: cs =>
      let name := cs.takeWhile fun c => !isQuote c
      if (c = '"' ∨ c = '“') ∧ name ≠ [] ∧ (cs.any isQuote) = true then some name else none
    | [] => none

/-- The description of the section header. -/
def headerText (line : Text) : Text :=
  -- `^.*["”]\s*[─—–\-]*\s*`: up to the last quote, and the dashes after it
  let t := if line.any isQuote = true then
      let after := (line.rtakeWhile fun c => !isQuote c).dropWhile isSpace
      (after.dropWhile fun c => c ∈ "─—–-".toList).dropWhile isSpace
    else line
  -- `^#\s*`
  let t := if t.head? = some '#' then (t.drop 1).dropWhile isSpace else t
  -- `\s*[─]+\s*$`
  let body := t.rdropWhile isSpace
  strip (if body.getLast? = some '─' then body.rdropWhile (· = '─') else t)

/-- What `parse_script` returns. -/
structure ScriptSchema where
  schema_version : Text
  addon : Text
  section_ : Text
  description : Text
  fields : List CommentField

/-- `parse_script(path)`, of the script's text. -/
def parseScript (text : Text) : ScriptSchema :=
  let lines := (splitlines text).dropWhile fun line => !decide ("JSON section:".toList <:+: line)
  let (name, description) := match lines with
    | header :: _ => ((quoted header).getD [], headerText header)
    | [] => ([], [])
  { schema_version := schemaVersion true text
    addon := name
    section_ := name
    description := description
    fields := (readBlock other (lines.drop 1)).map finish }

end LabInABox.Schema
