import LabInABox.Keyed
import LabInABox.Text.Order

/-!
# The kclusters and nodes of a lab

Model of what `libs/k8s.py`, `libs/apps.py` and `libs/migrations.py` read of a lab definition to decide
which add-ons it has: its kclusters and nodes with their add-on lists, `addon_entry_name` and
`_clu_section`.

* The fields of a kcluster are scalars, as `load_kclu_vars` keeps them, each by the text
  `str(value or "")` gives.
* An entry of an add-on list is a name or a mapping, by its keys: the override under the key is read
  by the add-on alone.

Results:
* `mem_addonNames`, `addonNames_isOk_iff`: the names of a list of entries, and when it has them.
-/

namespace LabInABox.Cluster

open Text

/-! ## Add-on lists -/

/-- One entry of an add-on list. -/
inductive Entry
  | plain (addon : Text)
  | mapping (keys : List Text)
  deriving DecidableEq

/-- The names an entry carries. -/
def Entry.keys : Entry → List Text
  | plain addon => [addon]
  | mapping keys => keys

/-- What `die` is called for. -/
inductive Die
  | entry (keys : List Text)
  | unknown (cluName field choice : Text) (choices : List Text)
  | replaced (cluName field choice distro own : Text)
  deriving DecidableEq

/-- The text `die` prints; that of an entry leaves out the entry itself. -/
def Die.text : Die → Text
  | entry keys => "must have exactly one key (the addon name) — got ".toList ++
      (toString keys.length).toList
  | unknown cluName field choice choices => "kclusters.".toList ++ cluName ++ ": ".toList ++ field ++
      " '".toList ++ choice ++ "' is unknown — use one of ".toList ++ sortedNames choices
  | replaced cluName field choice distro own => "kclusters.".toList ++ cluName ++ ": ".toList ++
      field ++ " cannot be '".toList ++ choice ++ "' on a ".toList ++ distro ++
      " cluster, which brings its own '".toList ++ own ++ "'".toList

/-- `addon_entry_name(entry)`. -/
def addonEntryName : Entry → Except Die Text
  | .plain addon => .ok addon
  | .mapping [addon] => .ok addon
  | .mapping keys => .error (.entry keys)

/-- The names of a list of entries. -/
def addonNames (entries : List Entry) : Except Die (List Text) := entries.mapM addonEntryName

/-- The add-on has an entry in the list. -/
def Listed (entries : List Entry) (addon : Text) : Prop := ∃ e ∈ entries, e.keys = [addon]

/-- Every entry carries one name. -/
def WellFormed (entries : List Entry) : Prop := ∀ e ∈ entries, e.keys.length = 1

instance Listed.decidable (entries : List Entry) (addon : Text) : Decidable (Listed entries addon) :=
  inferInstanceAs (Decidable (∃ e ∈ entries, e.keys = [addon]))

instance WellFormed.decidable (entries : List Entry) : Decidable (WellFormed entries) :=
  inferInstanceAs (Decidable (∀ e ∈ entries, e.keys.length = 1))

theorem addonEntryName_eq_ok {e : Entry} {addon : Text} :
    addonEntryName e = .ok addon ↔ e.keys = [addon] := by
  unfold addonEntryName Entry.keys
  split <;> simp_all

theorem mem_addonNames {entries : List Entry} {names : List Text} (h : addonNames entries = .ok names)
    {addon : Text} : addon ∈ names ↔ Listed entries addon := by
  unfold addonNames at h
  unfold Listed
  rw [mem_of_mapM_eq_ok h]
  simp only [addonEntryName_eq_ok]

theorem addonNames_isOk_iff {entries : List Entry} :
    (∃ names, addonNames entries = .ok names) ↔ WellFormed entries := by
  unfold addonNames WellFormed
  rw [mapM_isOk_iff]
  simp only [addonEntryName_eq_ok, List.length_eq_one_iff]

/-! ## The definition -/

/-- A kcluster of the definition. -/
structure Kcluster where
  vars : List (Text × Text)
  addons : List Entry

/-- `str(clu_cfg.get(key) or "")`. -/
def Kcluster.get (cfg : Kcluster) (key : Text) : Text := (cfg.vars.lookup key).getD []

/-- A node of the definition: the kcluster it is in, and the role it declares. -/
structure Node where
  kcluster : Option Text
  kubernetesNodeType : Text
  installRke2Type : Option Text
  addons : List Entry

/-- A lab definition: two dictionaries, and the top-level keys whose value is a mapping. -/
structure Lab where
  kclusters : List (Text × Kcluster)
  nodes : List (Text × Node)
  sections : List Text
  nodup_kclusters : (kclusters.map Prod.fst).Nodup
  nodup_nodes : (nodes.map Prod.fst).Nodup

/-- `_clu_section(definition, clu_name)`. -/
def Lab.cluSection (lab : Lab) (cluName : Text) : Kcluster :=
  (lab.kclusters.lookup cluName).getD ⟨[], []⟩

theorem Lab.cluSection_of_mem {lab : Lab} {k : Text × Kcluster} (hk : k ∈ lab.kclusters) :
    lab.cluSection k.1 = k.2 := by
  unfold Lab.cluSection
  rw [lookup_of_mem lab.nodup_kclusters hk, Option.getD_some]

end LabInABox.Cluster
