import LabInABox.Schema.Versions
import LabInABox.Web.FieldValue
import LabInABox.Web.Opened

/-!
# Version warnings, in the web UI and before a run

Model of `versionIssues` and of the version warnings of `lintLab` (`webui/htdocs/app.js`), beside
`_addon_version_issues` with its two callers (`libs/lab_creation.py`), over an opened lab.

* What `String(..)` makes of a value that is not a text is a parameter, and so is what the text of a
  mapping spells, for both, and what `dict(..)` makes of a list.
* The matrix of an add-on is that of its plugin, which its schema publishes: it is loaded where the
  palette knows the add-on, and otherwise the preflight does not get that far.
* A `clu_type` and a `VM_OSVARIANT` are texts, and no field of a matrix is called like something that
  every object or every function answers for.
* `toNumber` rounds a number as JavaScript does.
-/

namespace LabInABox.Web

open Text Versions
open Schema (Json)

/-! ## `versionIssues` -/

/-- `\s` of JavaScript. -/
def jsSpace (c : Char) : Bool :=
  let n := c.toNat
  (9 ≤ n && n ≤ 13) || n == 32 || n == 0xA0 || n == 0x1680 || (0x2000 ≤ n && n ≤ 0x200A) || n == 0x2028 ||
    n == 0x2029 || n == 0x202F || n == 0x205F || n == 0x3000 || n == 0xFEFF

/-- The UTF-16 code units of a character. -/
def utf16 (c : Char) : List Nat :=
  if c.toNat < 0x10000 then [c.toNat]
  else [0xD800 + (c.toNat - 0x10000) / 0x400, 0xDC00 + (c.toNat - 0x10000) % 0x400]

/-- `names.sort()`. -/
def sortNames (names : List Text) : List Text :=
  names.insertionSort fun a b => a.flatMap utf16 ≤ b.flatMap utf16

/-- `!!value`. -/
def isTruthy : Json → Bool
  | .null => false
  | .bool b => b
  | .text t => t ≠ []
  | .list _ | .mapping _ => true
  | v => !isZero v

/-- `compareVersions(a, b)`. -/
def compareVersions : List Int → List Int → Int
  | [], [] => 0
  | a :: as, [] => if a - 0 ≠ 0 then a - 0 else compareVersions as []
  | [], b :: bs => if 0 - b ≠ 0 then 0 - b else compareVersions [] bs
  | a :: as, b :: bs => if a - b ≠ 0 then a - b else compareVersions as bs

section Js

variable (string : Json → Text)

/-- `String(value)`. -/
def jsString : Json → Text
  | .text t => t
  | v => string v

/-- `normalizeVersion(value)`. -/
def normalizeVersion (v : Json) : Text :=
  normalizeBy jsSpace Char.isDigit (match v with
    | .null => []
    | v => jsString string v)

/-- `versionNumbers(v)`. -/
def versionNumbers (v : Json) : List Int :=
  (leadingGroups Char.isDigit (normalizeVersion string v)).map fun g => toNumber (Nat.ofDigitChars 10 g 0)

/-- `versionMatches(declared, value)`, for texts. -/
def versionMatches (declared value : Text) : Bool :=
  isReleaseOf (normalizeVersion string (.text declared)) (normalizeVersion string (.text value))

/-- `value || ""`. -/
def orEmpty (v : Option Json) : Json := (v.filter isTruthy).getD (.text [])

/-- `versionSuggestions(versions, field)`, of the entries of the field. -/
def versionSuggestions (entries : List MatrixEntry) : List Text :=
  entries.filterMap fun e => (e.version.filter isTruthy).map (jsString string)

/-- The entry that is found. -/
def findEntry (entries : List MatrixEntry) (value : Text) : Option MatrixEntry :=
  entries.find? fun e => versionMatches string (jsString string (orEmpty e.version)) value

/-- `${entry.version}`. -/
def shownVersion (e : MatrixEntry) : Text := (e.version.map (jsString string)).getD "undefined".toList

/-- `kube`. -/
def kube (cluRel : Json) : List Int :=
  if isRelease Char.isDigit (stripBy jsSpace (jsString string (orEmpty (some cluRel)))) then
    (versionNumbers string cluRel).take 2
  else []

/-- `versionNumbers(bound || "").slice(0, 2)`. -/
def jsBound (v : Option Json) : List Int := (versionNumbers string (orEmpty v)).take 2

/-- The test of the range. -/
def isOutsideRange (kube : List Int) (rng : Range) : Bool :=
  (jsBound string rng.min ≠ [] && decide (compareVersions kube (jsBound string rng.min) < 0)) ||
    (jsBound string rng.max ≠ [] && decide (compareVersions kube (jsBound string rng.max) > 0))

/-- `${bound || "any"}`. -/
def shownBound (v : Option Json) : Text := ((v.filter isTruthy).map (jsString string)).getD "any".toList

/-- What is said of the kcluster. -/
def kubeIssue (field version cluType : Text) (cluRel : Json) (supported : Obj Text (Option Range)) :
    Option Issue :=
  if cluType = [] then none
  else if cluType ∉ supported.keys ∧ cluType ∉ inherited then
    some (.undeclared field version cluType (joinNames (sortNames supported.keys)))
  else
    let rng := ((supported.get cluType).bind id).getD ⟨none, none⟩
    if kube string cluRel ≠ [] ∧ isOutsideRange string (kube string cluRel) rng = true then
      some (.outside field version (shownBound string rng.min) (shownBound string rng.max) cluType
        (jsString string cluRel))
    else none

/-- What is said of the variants. -/
def variantIssues (field version : Text) (allowed variants : List Text) : List Issue :=
  if allowed = [] then []
  else ((sortNames variants.eraseDups).filter (· ∉ allowed)).map fun v =>
    .variant field version v (joinNames allowed)

/-- One field of `versionIssues`. -/
def versionIssuesOf (cluType : Text) (cluRel : Json) (variants : List Text) (field : Text)
    (entries : List MatrixEntry) (value : Option Json) : List Issue :=
  match value with
  | none | some .null | some (.text []) => []
  | some v =>
    match findEntry string entries (jsString string v) with
    | none => [.unlisted field (jsString string v) (declaredOrNone (versionSuggestions string entries))]
    | some e =>
      (e.kubernetes.bind (kubeIssue string field (shownVersion string e) cluType cluRel)).toList ++
        variantIssues field (shownVersion string e) e.os variants

/-- `versionIssues(versions, cfg, cluType, cluRel, osVariants)`. -/
def versionIssues (versions : Matrix) (cfg : Obj Text Json) (cluType : Text) (cluRel : Json)
    (variants : List Text) : List Issue :=
  (sortNames versions.keys).flatMap fun field =>
    versionIssuesOf string cluType cluRel variants field ((versions.get field).getD []) (cfg.get field)

end Js

/-! ## The web UI -/

/-- A field that is a text. -/
def textOf (v : Option Json) : Text :=
  match v with
  | some (.text t) => t
  | _ => []

/-- `VM_OSVARIANT`, of a node and of the common settings. -/
def osVariant : FieldName := ⟨"VM_OSVARIANT".toList, by decide⟩

/-- `clu_type`. -/
def cluTypeField : FieldName := ⟨"clu_type".toList, by decide⟩

/-- `clu_rel`. -/
def cluRelField : FieldName := ⟨"clu_rel".toList, by decide⟩

/-- A value of a node, or else the common one. -/
def orCommon (own common : Text) : Text := if own = [] then common else own

section Lint

variable (string : Json → Text) (fieldsOf : Text → Obj Text Json) (matrices : SectionName → Matrix)

/-- `osOf(n)`, of a node. -/
def osOf (m : Model) : Item → Text
  | .node _ _ cfg _ => orCommon (textOf (cfg.get osVariant)) (textOf (m.common.get osVariant.1))
  | _ => []

/-- `n.parent === id`, of a node. -/
def isNodeOf (id : Nat) : Item → Bool
  | .node _ _ _ parent => parent = some id
  | _ => false

/-- `hosts`, for the block the add-on is attached to. -/
def hostsOf (m : Model) : Option Item → List Item
  | none => []
  | some (.node id name cfg parent) => [.node id name cfg parent]
  | some t => m.items.filter (isNodeOf t.id)

/-- `cluster`, for the block the add-on is attached to. -/
def clusterOf : Option Item → Obj FieldName Json
  | some (.cluster _ _ cfg) => cfg
  | _ => Obj.empty

/-- The version warnings of `lintLab`, for one add-on block. -/
def lintVersions (m : Model) : Item → List Issue
  | .addon _ (some _) sec _ parent =>
    let t := parent.bind (byId m.items)
    versionIssues string (matrices sec) (((m.addonCfg.get sec).map fieldsOf).getD Obj.empty)
      (textOf ((clusterOf t).get cluTypeField)) (orEmpty ((clusterOf t).get cluRelField))
      (((hostsOf m t).map (osOf m)).filter (· ≠ []))
  | _ => []

end Lint

/-! ## The preflight -/

section Preflight

variable (fieldsOf : Text → Obj Text Json) (pairsOf : Text → Option (Obj Text Json))
  (matrices : SectionName → Matrix)

/-- `dict(definition.get(addon) or {})`, none where it raises. -/
def sectionFields (lab : Lab) (sec : SectionName) : Option (Obj Text Json) :=
  match lab.sections.get sec with
  | none => some Obj.empty
  | some (.mapping items) => some (fieldsOf items)
  | some (.list items) => if items = [] then some Obj.empty else pairsOf items
  | some v => if Versions.truthy v = true then none else some Obj.empty

/-- `value or ""`, where the value was `_jq_or`ed. -/
def pyOrEmpty (v : Option Json) : Json := (v.filter Versions.truthy).getD (.text [])

/-- `os_variants`. -/
def osVariants (lab : Lab) (nodeNames : List Text) : List Text :=
  (nodeNames.map fun n => orCommon (textOf ((lab.nodesObj.get n).bind fun o => o.fields.get osVariant))
    (textOf (lab.commonObj.get osVariant.1))).filter (· ≠ [])

/-- `_addon_version_issues(definition, addon_entry, node_names, clu_type, clu_rel)`, none where it raises. -/
def addonVersionIssues (lab : Lab) (entry : AddonEntry) (nodeNames : List Text) (cluType : Text)
    (cluRel : Json) : Option (List Issue) :=
  if (matrices entry.sec).entries = [] then some []
  else
    (sectionFields fieldsOf pairsOf lab entry.sec).map fun fields =>
      issues (matrices entry.sec) (fields.assign entry.overrides.entries) cluType cluRel
        (osVariants lab nodeNames)

/-- `(c or {}).get("kcluster") == clu`. -/
def isMember (clu : Text) (o : Owner) : Bool :=
  match o.fields.get kclusterField with
  | some (.text t) => t = clu
  | _ => false

/-- `[n for n, c in nodes.items() if (c or {}).get("kcluster") == clu]`. -/
def members (lab : Lab) (clu : Text) : List Text :=
  (lab.nodesObj.entries.filter fun e => isMember clu e.2).map Prod.fst

/-- The warnings for an entry on a kcluster. -/
def clusterIssues (lab : Lab) (clu : Text) (o : Owner) (entry : AddonEntry) : Option (List Issue) :=
  addonVersionIssues fieldsOf pairsOf matrices lab entry (members lab clu)
    (textOf (o.fields.get cluTypeField)) (pyOrEmpty (o.fields.get cluRelField))

/-- The warnings for an entry on a node. -/
def nodeIssues (lab : Lab) (node : Text) (entry : AddonEntry) : Option (List Issue) :=
  addonVersionIssues fieldsOf pairsOf matrices lab entry [node] [] (.text [])

end Preflight

end LabInABox.Web
