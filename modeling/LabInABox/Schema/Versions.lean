import LabInABox.Objects
import LabInABox.Schema.Validate
import Mathlib.Data.List.SplitOn

/-!
# The version matrix of an add-on

Model of `libs/versions.py`: the versions an add-on declares it can install, and what `issues` says of a
configuration that is outside of them.

* A version is any JSON value. `normalizeBy` and `leadingGroups` are parametrised by the characters that
  count as blanks and digits, since the web UI has rules of its own for those.
* An `Issue` is what its sentence is made of.
* An `os` list that is missing or null is one without entries.
-/

namespace LabInABox.Versions

open Text
open Schema (Json)

/-! ## Texts -/

section By

variable (space digit : Char → Bool)

/-- `t.strip()`, for the blanks. -/
def stripBy (t : Text) : Text := (t.dropWhile space).rdropWhile space

/-- `re.sub(r"^--version[=\s]+", "", t)`. -/
def dropFlag (t : Text) : Text :=
  if "--version".toList.isPrefixOf t then
    let rest := t.drop "--version".length
    if (rest.head?.any fun c => c = '=' || space c) then rest.dropWhile fun c => c = '=' || space c else t
  else t

/-- A leading `v` in front of a digit removed. -/
def dropV : Text → Text
  | c :: d :: cs => if (c = 'v' ∨ c = 'V') ∧ digit d = true then d :: cs else c :: d :: cs
  | t => t

/-- A version without blanks, flag and `v`. -/
def normalizeBy (t : Text) : Text := dropV digit (dropFlag space (stripBy space t))

/-- The groups of digits of `^\d+(\.\d+)*`. -/
def leadingGroups (t : Text) : List Text :=
  ((t.takeWhile fun c => digit c || c = '.').splitOn '.').takeWhile (· ≠ [])

/-- `^v?\d+\.\d+`. -/
def isRelease (t : Text) : Bool :=
  2 ≤ (leadingGroups digit (match t with
    | 'v' :: cs => cs
    | t => t)).length

end By

/-- `v == d or v.startswith(d + ".")`, where `d` is not empty. -/
def isReleaseOf (d v : Text) : Bool := d ≠ [] && (v = d || (d ++ ['.']).isPrefixOf v)

/-! ## The matrix -/

/-- The Kubernetes versions of a kcluster type. -/
structure Range where
  min : Option Json
  max : Option Json

/-- A declared version. -/
structure MatrixEntry where
  version : Option Json
  kubernetes : Option (Obj Text (Option Range))
  os : List Text

/-- The declared versions of each field. -/
abbrev Matrix := Obj Text (List MatrixEntry)

/-- What is outside of the matrix. -/
inductive Issue
  | unlisted (field value declared : Text)
  | undeclared (field version cluType declared : Text)
  | outside (field version min max cluType cluRel : Text)
  | variant (field version name declared : Text)
  deriving DecidableEq

/-- The field of an issue. -/
def Issue.field : Issue → Text
  | unlisted field _ _ => field
  | undeclared field _ _ _ => field
  | outside field _ _ _ _ _ => field
  | variant field _ _ _ => field

/-- The sentence of an issue. -/
def Issue.sentence : Issue → Text
  | unlisted field value declared =>
    field ++ " '".toList ++ value ++ "' is not in the version matrix (".toList ++ declared ++ ")".toList
  | undeclared field version cluType declared =>
    field ++ " ".toList ++ version ++ " is not declared for clu_type '".toList ++ cluType ++
      "' (declared: ".toList ++ declared ++ ")".toList
  | outside field version min max cluType cluRel =>
    field ++ " ".toList ++ version ++ " supports Kubernetes ".toList ++ min ++ "–".toList ++ max ++
      " on ".toList ++ cluType ++ ", the kcluster's clu_rel is '".toList ++ cluRel ++ "'".toList
  | variant field version name declared =>
    field ++ " ".toList ++ version ++ " is not declared for VM_OSVARIANT '".toList ++ name ++
      "' (declared: ".toList ++ declared ++ ")".toList

/-- `", ".join(..)`. -/
def joinNames (names : List Text) : Text := ", ".toList.intercalate names

/-- The join of names, or `none declared`. -/
def declaredOrNone (names : List Text) : Text :=
  if joinNames names = [] then "none declared".toList else joinNames names

/-! ## `libs/versions.py` -/

/-- A number that is zero. -/
def isZero : Json → Bool
  | .int n => n = 0
  | .real shown => shown.1 = "0.0".toList || shown.1 = "-0.0".toList
  | _ => false

/-- `bool(value)`. -/
def truthy : Json → Bool
  | .null => false
  | .bool b => b
  | .text t => t ≠ []
  | .list items => items ≠ []
  | .mapping items => items ≠ []
  | v => !isZero v

/-- `str(value if value is not None else "")`. -/
def shownOrEmpty : Json → Text
  | .null => []
  | v => v.str

/-- `normalize(value)`. -/
def normalize (v : Json) : Text := normalizeBy isSpace isDigit (shownOrEmpty v)

/-- `int(x)` of decimal digits. -/
def decimalValue (t : Text) : Int :=
  (t.foldl (fun acc c => 10 * acc + (Schema.digitValue c).getD 0) 0 : Nat)

/-- `_numbers(version)`. -/
def numbers (v : Json) : List Int := (leadingGroups isDecimal (normalize v)).map decimalValue

/-- `matches(declared, value)`, for texts. -/
def matchesVersion (declared value : Text) : Bool :=
  isReleaseOf (normalize (.text declared)) (normalize (.text value))

/-- `str(e.get("version", ""))`. -/
def MatrixEntry.shown (e : MatrixEntry) : Text := (e.version.map Json.str).getD []

/-- `entry_for(entries, value)`. -/
def entryFor (entries : List MatrixEntry) (value : Text) : Option MatrixEntry :=
  entries.find? fun e => matchesVersion e.shown value

/-- `kubernetes_minor(clu_rel)`. -/
def kubernetesMinor (cluRel : Json) : List Int :=
  if isRelease isDecimal (strip (if truthy cluRel then cluRel.str else [])) then (numbers cluRel).take 2 else []

/-- `suggestions(versions, field)`, of the entries of the field. -/
def suggestions (entries : List MatrixEntry) : List Text :=
  entries.filterMap fun e => (e.version.filter truthy).map Json.str

/-- `_numbers(rng.get(key, ""))[:2]`. -/
def bound (v : Option Json) : List Int := (numbers (v.getD (.text []))).take 2

/-- `(low and kube < low[:2]) or (high and kube > high[:2])`. -/
def isOutside (kube : List Int) (rng : Range) : Bool :=
  (bound rng.min ≠ [] && kube < bound rng.min) || (bound rng.max ≠ [] && bound rng.max < kube)

/-- What is said of the kcluster. -/
def kubernetesIssue (field version cluType : Text) (cluRel : Json)
    (supported : Obj Text (Option Range)) : Option Issue :=
  if supported.entries.isEmpty ∨ cluType = [] then none
  else
    match supported.get cluType with
    | none => some (.undeclared field version cluType (joinNames (sorted supported.keys)))
    | some rng =>
      let rng := rng.getD ⟨none, none⟩
      if kubernetesMinor cluRel ≠ [] ∧ isOutside (kubernetesMinor cluRel) rng = true then
        some (.outside field version ((rng.min.map Json.str).getD "any".toList)
          ((rng.max.map Json.str).getD "any".toList) cluType cluRel.str)
      else none

/-- What is said of the variants. -/
def osIssues (field version : Text) (allowed variants : List Text) : List Issue :=
  if allowed = [] then []
  else ((sorted variants.eraseDups).filter (· ∉ allowed)).map fun v =>
    .variant field version v (joinNames allowed)

/-- One field of `issues`. -/
def fieldIssues (cluType : Text) (cluRel : Json) (variants : List Text) (field : Text)
    (entries : List MatrixEntry) (value : Option Json) : List Issue :=
  match value with
  | none | some .null | some (.text []) => []
  | some v =>
    match entryFor entries v.str with
    | none => [.unlisted field v.str (declaredOrNone (suggestions entries))]
    | some e =>
      (e.kubernetes.bind (kubernetesIssue field e.shown cluType cluRel)).toList ++
        osIssues field e.shown e.os variants

/-- `issues(versions, cfg, clu_type, clu_rel, os_variants)`. -/
def issues (versions : Matrix) (cfg : Obj Text Json) (cluType : Text) (cluRel : Json)
    (variants : List Text) : List Issue :=
  (sorted versions.keys).flatMap fun field =>
    fieldIssues cluType cluRel variants field ((versions.get field).getD []) (cfg.get field)

end LabInABox.Versions
