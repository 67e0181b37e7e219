import LabInABox.Schema.Comment
import LabInABox.Schema.Validate
import LabInABox.Text.Words

/-!
# What a schema comment declares

The grammar of the comment block that `parse_script` (`scripts/lab_schema`) reads, as its comments
document it, and what the parser makes of every block written in it.

* A field is a name and, after a colon, words: those of its description, a `[MANDATORY]` or `[OPTIONAL]`
  marker, and the annotations `(default: ..)`, `(options: a, b)`, `(pattern: ..)`, `(min: N)` and
  `(max: N)`, each at most once, anywhere between the others. The words are wrapped over the name's line
  and the comment lines after it in any way, with any blanks between them.
* A value of an annotation has no closing parenthesis, which ends it, an option no comma. No word of a
  text opens an annotation or is a marker. Quotes around a default are dropped.
* Headings and blank comment lines stand between the fields. The block ends with the script, or at a line
  that is no comment.

`Clean` is what a field's lines and annotations must be for `parse_script` to read the field back.
-/

namespace LabInABox.Schema

open Text

/-! ## The grammar -/

/-- An annotation, by the words of its value. -/
inductive Annot
  | default (value : List Text)
  | options (values : List (List Text))
  | pattern (value : List Text)
  | min (n : Int)
  | max (n : Int)
  deriving DecidableEq

/-- A piece of what is written about a field. -/
inductive Piece
  | word (w : Text)
  | marker (mandatory : Bool)
  | annot (a : Annot)
  deriving DecidableEq

/-- A text at the end of the last word. -/
def appendLast (ws : List Text) (t : Text) : List Text := ws.dropLast ++ [ws.getLastD [] ++ t]

/-- The words of the options: a comma after each but the last. -/
def optionWords : List (List Text) → List Text
  | [] => []
  | [v] => v
  | v :: vs => appendLast v [','] ++ optionWords vs

namespace Annot

/-- The word before the colon. -/
def key : Annot → Text
  | default _ => "default".toList
  | options _ => "options".toList
  | pattern _ => "pattern".toList
  | min _ => "min".toList
  | max _ => "max".toList

/-- The words of the value. -/
def words : Annot → List Text
  | default value => value
  | options values => optionWords values
  | pattern value => value
  | min n => [intText n]
  | max n => [intText n]

/-- The options, each as a text. -/
def values : Annot → List Text
  | options values => values.map join
  | _ => []

/-- The bound. -/
def number : Annot → Option Int
  | min n => some n
  | max n => some n
  | _ => none

end Annot

/-- The words before the colons. -/
def keys : List Text := ["default".toList, "options".toList, "pattern".toList, "min".toList, "max".toList]

/-- The marker of a field. -/
def markerText (mandatory : Bool) : Text := if mandatory then "[MANDATORY]".toList else "[OPTIONAL]".toList

/-- The words of a piece. -/
def Piece.words : Piece → List Text
  | word w => [w]
  | marker mandatory => [markerText mandatory]
  | annot a => opener a.key :: appendLast a.words [')']

/-- Neither an annotation nor a marker begins in the word. -/
structure Plain (w : Text) : Prop where
  field : IsField isSpace w
  opens : ∀ key ∈ keys, ¬ opener key <:+: w
  marks : ∀ mandatory, ¬ markerText mandatory <:+: w

/-- The words of a value that has the given ones. -/
def IsValue (ws : List Text) : Prop := ws ≠ [] ∧ ∀ w ∈ ws, Plain w ∧ ')' ∉ w

/-- What may be written. -/
def Piece.Valid : Piece → Prop
  | word w => Plain w
  | marker _ => True
  | annot (.default value) => IsValue value
  | annot (.options values) => values ≠ [] ∧ ∀ v ∈ values, IsValue v ∧ ∀ w ∈ v, ',' ∉ w
  | annot (.pattern value) => IsValue value
  | annot (.min _) => True
  | annot (.max _) => True

/-- What a field has once at most. -/
def Piece.kind : Piece → Option Text
  | word _ => none
  | marker _ => some "marker".toList
  | annot a => some a.key

/-- A field of the block: what is written about it, and how that is wrapped over its lines. -/
structure FieldText where
  name : Text
  pad : Text
  pieces : List Piece
  first : Text
  more : List Text
  head : ∃ c ∈ name.head?, (c.isAlpha || c = '_') = true
  nameChars : ∀ c ∈ name, isNameChar c = true
  padBlank : Blank pad ∧ OneLine pad
  valid : ∀ p ∈ pieces, p.Valid
  once : (pieces.filterMap Piece.kind).Nodup
  wrapped : fields first ++ more.flatMap fields = pieces.flatMap Piece.words
  firstLine : OneLine first
  moreLines : ∀ t ∈ more, OneLine t ∧ (∃ c ∈ t.head?, isSpace c = true) ∧ fields t ≠ []

/-- A heading of fields. -/
inductive Heading
  | mandatory
  | optional
  | experimental
  deriving DecidableEq

/-- The word of a heading. -/
def Heading.word : Heading → Text
  | mandatory => "MANDATORY".toList
  | optional => "OPTIONAL".toList
  | experimental => "EXPERIMENTAL".toList

/-- What stands in the block. -/
inductive Item
  | heading (h : Heading) (note : Text)
  | blank (hashes : Nat)
  | field (f : FieldText)

/-- The line of a field's name. -/
def FieldText.nameLine (f : FieldText) : Text := "#   ".toList ++ (f.name ++ (f.pad ++ ':' :: f.first))

/-- The lines of a field: a comment line continues it. -/
def FieldText.lines (f : FieldText) : List Text := f.nameLine :: f.more.map ('#' :: ·)

/-- The lines of an item. -/
def Item.lines : Item → List Text
  | heading h note => ["# ".toList ++ (h.word ++ note)]
  | blank hashes => [List.replicate hashes '#']
  | field f => f.lines

/-- A script with a schema comment. -/
structure Script where
  preamble : List Text
  header : Text
  items : List Item
  after : List Text
  preambleLines : ∀ l ∈ preamble, OneLine l ∧ ¬ "JSON section:".toList <:+: l
  headerLine : OneLine header ∧ "JSON section:".toList <:+: header
  notes : ∀ h note, .heading h note ∈ items → OneLine note ∧ ∀ c ∈ note.head?, isSpace c = true
  afterLines : ∀ l ∈ after, OneLine l
  ends : ∀ l ∈ after.head?, inBlock l = false

/-- The text of a script. -/
def Script.text (s : Script) : Text :=
  unlines (s.preamble ++ s.header :: (s.items.flatMap Item.lines ++ s.after))

/-! ## What is declared -/

/-- The annotation of a field with this key. -/
def findKey (key : Text) (pieces : List Piece) : Option Annot :=
  pieces.findSome? fun
    | .annot a => if a.key = key then some a else none
    | _ => none

/-- The words of the description. -/
def descriptionWords (pieces : List Piece) : List Text :=
  pieces.filterMap fun
    | .word w => some w
    | _ => none

/-- What is declared of a name by what is written about it. The quotes around a default are no part of
it. -/
def declaredOf (name : Text) (inMandatory : Bool) (pieces : List Piece) : CommentField where
  name := name
  required := inMandatory || decide (.marker true ∈ pieces)
  default := (findKey "default".toList pieces).elim [] fun a => unquote (join a.words)
  type := inferType name
  description := join (descriptionWords pieces)
  enum := (findKey "options".toList pieces).map Annot.values
  pattern := (findKey "pattern".toList pieces).map fun a => join a.words
  min := (findKey "min".toList pieces).bind Annot.number
  max := (findKey "max".toList pieces).bind Annot.number

/-- What a field declares, under a heading that made it mandatory or not. -/
def FieldText.declared (f : FieldText) (inMandatory : Bool) : CommentField :=
  declaredOf f.name inMandatory f.pieces

/-- What a block declares. -/
def declaredFields : Bool → List Item → List CommentField
  | _, [] => []
  | _, .heading h _ :: items => declaredFields (decide (h = .mandatory)) items
  | inMandatory, .blank _ :: items => declaredFields inMandatory items
  | inMandatory, .field f :: items => f.declared inMandatory :: declaredFields inMandatory items

variable (other : Char → Bool)

/-- **The comment is read back**: the fields in order, as they are declared. -/
def Recovers (s : Script) : Prop := (parseScript other s.text).fields = declaredFields false s.items

/-- A line reads as a heading. -/
def ReadsAsHeading (line : Text) : Prop :=
  startsWord other "MANDATORY".toList (uncomment line) = true ∨ startsOptional other (uncomment line) = true

/-- **The fields that are read back**: no line reads as a heading, no other line than the first reads as
the line of a name, and no bound is given. -/
structure Clean (f : FieldText) : Prop where
  lines : ∀ line ∈ f.lines, ¬ ReadsAsHeading other line
  more : ∀ t ∈ f.more, fieldLine ('#' :: t) = none
  bounds : ∀ n, .annot (.min n) ∉ f.pieces ∧ .annot (.max n) ∉ f.pieces

end LabInABox.Schema
