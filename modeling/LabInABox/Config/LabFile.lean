import LabInABox.Credentials.Discovery
import LabInABox.Setup.Mcp
import LabInABox.Simulation
import LabInABox.Text.JsonFile

/-!
# The files of lab definitions

Model of `LabDefinition`, `try_load_definition` and `save_definition` (`libs/primary.py`), over runs of
programs that load definitions and save what they changed.

* A definition is a `dict` of JSON or of YAML, and its format is the one it was read in. The values of YAML,
  their reader and their writer are parameters; `reload` is that what was written is read.
* JSON that is no object is given to `dict`, too, which takes lists of pairs. What becomes of one whose keys
  are no texts is not followed: `other`.
* `Shelf` is what the files are for: at each path the definition that was saved there, or what was found.
* Writing a file succeeds.

Results:
* `tryLoad_saved`: what is saved is loaded from the sibling file, in the same format.
* `step_refines`: loading and saving are over the texts what they are over the definitions.
* **`runs_alike`**: programs cannot tell the texts of the files from the definitions.
* **`chain_of_edits`**: edits one after another, each of what the last one saved, come together, and the
  original stays as it was.
-/

namespace LabInABox.Config.LabFile

open Text Text.PyJson
open Setup (basename)
open Credentials.Parsed (suffix)

variable {R : Rounding} {Y : Type}

/-- A JSON value of Python. -/
abbrev Json (R : Rounding) := JsValue (Number R)

/-! ## Definitions -/

/-- A `dict` of JSON, no key twice at any depth. -/
structure Dict (R : Rounding) where
  entries : List (Text × Json R)
  held : Held (.mapping entries)

/-- The data of a definition. -/
inductive Data (R : Rounding) (Y : Type)
  | json (d : Dict R)
  | yaml (d : Y)

/-- `.fmt`. -/
def Data.fmt : Data R Y → Text
  | .json _ => "json".toList
  | .yaml _ => "yaml".toList

/-- A change of a definition, in whichever format it is. -/
structure Change (R : Rounding) (Y : Type) where
  json : Dict R → Dict R
  yaml : Y → Y

def Change.apply (c : Change R Y) : Data R Y → Data R Y
  | .json d => .json (c.json d)
  | .yaml d => .yaml (c.yaml d)

theorem Change.fmt_apply (c : Change R Y) (d : Data R Y) : (c.apply d).fmt = d.fmt := by
  cases d <;> rfl

/-! ## Files -/

/-- A file, as `read_text` finds it. -/
inductive File
  | text (t : Text)
  | undecodable
  | unreadable (message : Text)

/-- What `yaml.safe_load` makes of a text. -/
inductive Loaded (Y : Type)
  | dict (d : Y)
  | other
  | error (message : Text)
  | raised

/-- The libraries, and what they say of a text. -/
structure Library (Y : Type) where
  jsonError : Text → Text
  hasYaml : Bool
  safeLoad : Text → Loaded Y
  safeDump : Y → Text

/-- **PyYAML reads what it writes.** -/
def Library.Reloads (lib : Library Y) : Prop := lib.hasYaml = true ∧ ∀ d, lib.safeLoad (lib.safeDump d) = .dict d

/-- What `try_load_definition` does: a definition, an error message, an exception, or a `dict` of other keys. -/
inductive Read (R : Rounding) (Y : Type)
  | definition (d : Data R Y)
  | error (message : Text)
  | raised
  | other

/-! ## `dict` -/

/-- A pair, as `dict` takes it from the elements of a list: whatever has two elements, with a key that may
be one. -/
def pairOf : Json R → Option (Json R × Json R)
  | .list [.list _, _] => none
  | .list [.mapping _, _] => none
  | .list [k, v] => some (k, v)
  | .text [a, b] => some (.text [a], .text [b])
  | .mapping [(k, _), (k', _)] => some (.text k, .text k')
  | _ => none

/-- The key, if it is a text. -/
def textKey : Json R × Json R → Option (Text × Json R)
  | (.text k, v) => some (k, v)
  | _ => none

/-- `asDict` of the entries. -/
def dictOfEntries (es : List (Text × Json R)) : Dict R :=
  ⟨(Obj.empty.assign (asDictEntries es)).entries, held_asDict (.mapping es)⟩

/-- `LabDefinition(value)`, of a JSON value that was read. -/
def ofValue : Json R → Read R Y
  | .mapping es => .definition (.json (dictOfEntries es))
  | .list vs =>
    match vs.mapM pairOf with
    | none => .raised
    | some pairs =>
      match pairs.mapM textKey with
      | none => .other
      | some es => .definition (.json (dictOfEntries es))
  | .text [] => .definition (.json (dictOfEntries []))
  | _ => .raised

namespace Library

variable (lib : Library Y)

/-- Reading YAML, where reading JSON gave an error, if it was tried. -/
def readYaml (path : Text) (jsonError : Option Text) (t : Text) : Read R Y :=
  if lib.hasYaml then
    match lib.safeLoad t with
    | .dict d => .definition (.yaml d)
    | .other => .error ("'".toList ++ path ++ "' does not contain a mapping at the top level".toList)
    | .error message =>
      match jsonError with
      | some e => .error ("'".toList ++ path ++ "' is not valid JSON (".toList ++ e ++ ") or YAML (".toList ++
          message ++ [')'])
      | none => .error ("YAML syntax error in '".toList ++ path ++ "': ".toList ++ message)
    | .raised => .raised
  else .error ("PyYAML is required to parse '".toList ++ path ++
    "' as YAML.\nInstall it with:  pip install pyyaml".toList)

/-- The name is one of a YAML file. -/
def isYamlName (path : Text) : Bool :=
  lower (suffix (basename path)) ∈ [".yaml", ".yml"].map String.toList

def readText (path t : Text) : Read R Y :=
  if isYamlName path then lib.readYaml path none t
  else
    match (jsonLoad t : Option (Json R)) with
    | some v => ofValue v
    | none => lib.readYaml path (some (lib.jsonError t)) t

def notFound (path : Text) : Read R Y := .error ("Lab definition file '".toList ++ path ++ "' not found".toList)

def readFile (path : Text) : File → Read R Y
  | .text t => lib.readText path t
  | .undecodable => .raised
  | .unreadable message => .error ("could not read '".toList ++ path ++ "': ".toList ++ message)

/-- `try_load_definition(path)`. -/
def tryLoad (files : Obj Text File) (path : Text) : Read R Y :=
  (files.get path).elim (notFound path) (lib.readFile path)

/-- What is written of a definition. -/
def dump : Data R Y → Text
  | .json d => jsonDump 2 (.mapping d.entries)
  | .yaml d => lib.safeDump d

/-- The path that `save_definition` writes. -/
def outputPath (path : Text) (d : Data R Y) : Text := path ++ ".system_modified.".toList ++ d.fmt

/-- `save_definition(definition)`. -/
def save (files : Obj Text File) (path : Text) (d : Data R Y) : Obj Text File :=
  files.set (outputPath path d) (.text (lib.dump d))

end Library

/-! ## Programs -/

/-- What a program does with a definition: it loads it, or changes it and saves it. -/
inductive Op (R : Rounding) (Y : Type)
  | load (path : Text)
  | edit (path : Text) (change : Change R Y)

/-- What it has of it. -/
inductive Result (R : Rounding) (Y : Type)
  | read (r : Read R Y)
  | saved (path : Text)

namespace Library

variable (lib : Library Y)

/-- A step, over the texts of the files. -/
def step (files : Obj Text File) : Op R Y → Obj Text File × Result R Y
  | .load path => (files, .read (lib.tryLoad files path))
  | .edit path change =>
    match lib.tryLoad files path with
    | .definition d => (lib.save files path (change.apply d), .saved (outputPath path (change.apply d)))
    | r => (files, .read r)

end Library

/-- What is at a path: what was found there, or a definition that was saved. -/
inductive Slot (R : Rounding) (Y : Type)
  | found (f : File)
  | definition (d : Data R Y)

abbrev Shelf (R : Rounding) (Y : Type) := Obj Text (Slot R Y)

namespace Shelf

variable (lib : Library Y)

def readSlot (path : Text) : Slot R Y → Read R Y
  | .found f => lib.readFile path f
  | .definition d => .definition d

def tryLoad (shelf : Shelf R Y) (path : Text) : Read R Y :=
  (shelf.get path).elim (Library.notFound path) (readSlot lib path)

/-- A step, over the definitions. -/
def step (shelf : Shelf R Y) : Op R Y → Shelf R Y × Result R Y
  | .load path => (shelf, .read (shelf.tryLoad lib path))
  | .edit path change =>
    match shelf.tryLoad lib path with
    | .definition d => (shelf.set (Library.outputPath path (change.apply d)) (.definition (change.apply d)),
        .saved (Library.outputPath path (change.apply d)))
    | r => (shelf, .read r)

end Shelf

/-! ## Names of siblings -/

/-- **The sibling of a path** has a name of its format. -/
theorem Library.isYamlName_outputPath (path : Text) (d : Data R Y) :
    Library.isYamlName (Library.outputPath path d) = match d with | .json _ => false | .yaml _ => true := by
  have hname {body : Text} (hdot : '.' ∉ body) (hslash : '/' ∉ body) (hne : body ≠ []) :
      suffix (basename (path ++ ".system_modified.".toList ++ body)) = '.' :: body := by
    have heq : path ++ ".system_modified.".toList ++ body = path ++ (".system_modified".toList ++ '.' :: body) := by
      rw [List.append_assoc]
      rfl
    rw [heq, Setup.basename_append, ← List.append_assoc, Credentials.Parsed.suffix_append hdot hne, if_neg]
    · exact fun h => absurd (List.append_eq_nil_iff.mp h).2 (by decide)
    · rw [List.mem_append, not_or]
      refine ⟨by decide, ?_⟩
      rw [List.mem_cons, not_or]
      exact ⟨by decide, hslash⟩
  unfold Library.isYamlName Library.outputPath
  cases d with
  | json d => rw [Data.fmt, hname (by decide) (by decide) (by decide)]; rfl
  | yaml d => rw [Data.fmt, hname (by decide) (by decide) (by decide)]; rfl

/-! ## Reading what was saved -/

theorem dictOfEntries_eq (d : Dict R) : dictOfEntries d.entries = d := by
  have h := asDict_eq_self _ d.held
  rw [asDict] at h
  injection h with h
  cases d
  exact (Dict.mk.injEq _ _ _ _).mpr h

namespace Library

variable {lib : Library Y} (hlib : lib.Reloads)
include hlib

/-- **What is saved is loaded**, in the same format, from a path with a name of that format. -/
theorem readText_dump {path : Text} {d : Data R Y}
    (h : isYamlName path = match d with | .json _ => false | .yaml _ => true) :
    lib.readText path (lib.dump d) = .definition d := by
  unfold readText
  cases d with
  | json d =>
    have hload : jsonLoad (lib.dump (.json d : Data R Y)) = some (.mapping d.entries) := by
      have hl := jsonLoad_jsonDump d.held 2 blanks_nil blanks_nil
      rw [List.nil_append, List.append_nil] at hl
      exact hl
    rw [if_neg (by rw [h]; exact Bool.false_ne_true), hload]
    dsimp only
    rw [ofValue, dictOfEntries_eq]
  | yaml d =>
    rw [if_pos h, readYaml, if_pos hlib.1]
    unfold dump
    dsimp only
    rw [hlib.2 d]

/-- What `save_definition` writes is loaded from the path it returns. -/
theorem tryLoad_saved (files : Obj Text File) (path : Text) (d : Data R Y) :
    lib.tryLoad (lib.save files path d) (outputPath path d) = .definition d := by
  rw [tryLoad, save, Obj.get_set, if_pos rfl]
  exact readText_dump hlib (isYamlName_outputPath path d)

end Library

/-! ## The texts are the definitions -/

/-- The file is what the shelf has there. -/
inductive Stores (lib : Library Y) : File → Slot R Y → Prop
  | found (f : File) : Stores lib f (.found f)
  | definition (d : Data R Y) : Stores lib (.text (lib.dump d)) (.definition d)

/-- Definitions stand at paths whose names are of their format. -/
def Placed (shelf : Shelf R Y) : Prop :=
  ∀ path d, shelf.get path = some (.definition d) →
    Library.isYamlName path = match d with | .json _ => false | .yaml _ => true

/-- The files are those of the shelf. -/
structure Agrees (lib : Library Y) (files : Obj Text File) (shelf : Shelf R Y) : Prop where
  stores : Obj.RelatedBy (Stores lib) files shelf
  placed : Placed shelf

section Agrees

variable {lib : Library Y} {files : Obj Text File} {shelf : Shelf R Y}

theorem Agrees.tryLoad (hlib : lib.Reloads) (h : Agrees lib files shelf) (path : Text) :
    lib.tryLoad files path = shelf.tryLoad lib path := by
  unfold Library.tryLoad Shelf.tryLoad
  have hrel := h.stores path
  cases hs : shelf.get path with
  | none =>
    rw [hs] at hrel
    cases hf : files.get path with
    | none => rfl
    | some f => rw [hf] at hrel; cases hrel
  | some slot =>
    rw [hs] at hrel
    cases hf : files.get path with
    | none => rw [hf] at hrel; cases hrel
    | some f =>
      rw [hf, Option.rel_some_some] at hrel
      cases hrel with
      | found => rfl
      | definition d => exact Library.readText_dump hlib (h.placed path d hs)

theorem Agrees.save (h : Agrees lib files shelf) (path : Text) (d : Data R Y) :
    Agrees lib (lib.save files path d) (shelf.set (Library.outputPath path d) (.definition d)) where
  stores := h.stores.set _ (.definition d)
  placed := by
    intro path' d' hd
    rw [Obj.get_set] at hd
    split at hd
    · rename_i hp
      obtain rfl : d = d' := by injection hd with hd; injection hd
      rw [hp]
      exact Library.isYamlName_outputPath path d
    · exact h.placed path' d' hd

theorem agrees_found (files : Obj Text File) :
    Agrees (R := R) lib files (files.filterMap fun _ f => some (.found f)) where
  stores := fun path => by
    rw [Obj.get_filterMap]
    cases files.get path with
    | none => exact Option.Rel.none
    | some f => exact Option.Rel.some (.found f)
  placed := by
    intro path d hd
    rw [Obj.get_filterMap] at hd
    obtain ⟨f, -, hf⟩ := Option.bind_eq_some_iff.mp hd
    cases hf

/-- **A step over the texts** is one over the definitions. -/
theorem step_refines (hlib : lib.Reloads) :
    Simulation.Simulates (Agrees lib) Eq lib.step (Shelf.step (R := R) lib) := by
  rintro files shelf op _ h rfl
  cases op with
  | load path => exact ⟨h, congrArg Result.read (h.tryLoad hlib path)⟩
  | edit path change =>
    unfold Library.step Shelf.step
    dsimp only
    rw [h.tryLoad hlib path]
    cases shelf.tryLoad lib path with
    | definition d => exact ⟨h.save path _, rfl⟩
    | error message => exact ⟨h, rfl⟩
    | raised => exact ⟨h, rfl⟩
    | other => exact ⟨h, rfl⟩

end Agrees

/-- **Programs cannot tell** the texts that are saved from the definitions: whatever they load, change and
save, from any files, they have the same results. -/
theorem runs_alike {lib : Library Y} (hlib : lib.Reloads) (files : Obj Text File) (ops : List (Op R Y)) :
    (Simulation.answering lib.step files ops).2 =
      (Simulation.answering (Shelf.step lib) (files.filterMap fun _ f => some (.found f)) ops).2 :=
  ((step_refines hlib).refines (agrees_found files) ops).2

/-- A library whose YAML has one value. -/
def sampleLibrary : Library Unit := ⟨fun t => t, true, fun _ => .dict (), fun _ => []⟩

theorem reloads_sampleLibrary : sampleLibrary.Reloads := ⟨rfl, fun _ => rfl⟩

def sampleRounding : Rounding := ⟨.finite, Rounding.finite_idem⟩

/-- A definition of one entry. -/
def sampleDict (key value : Text) : Dict sampleRounding :=
  ⟨[(key, .text value)], .mapping (List.nodup_singleton key) fun e he => by
    rw [List.mem_singleton.mp he]
    exact .text value⟩

def sampleChange (key value : Text) : Change sampleRounding Unit := ⟨fun _ => sampleDict key value, id⟩

/-- A JSON file and a YAML file. -/
def sampleFiles : Obj Text File :=
  (Obj.empty.set "lab.json".toList (.text (sampleLibrary.dump (.json (sampleDict "myip".toList []) : Data _ _)))).set
    "lab.yaml".toList (.text [])

theorem tryLoad_sampleFiles :
    sampleLibrary.tryLoad sampleFiles "lab.json".toList = .definition (.json (sampleDict "myip".toList [])) := by
  have hname : Library.isYamlName "lab.json".toList = false := by decide
  rw [Library.tryLoad, sampleFiles, Obj.get_set, if_neg (by decide), Obj.get_set, if_pos rfl]
  exact Library.readText_dump reloads_sampleLibrary (d := .json (sampleDict "myip".toList [])) hname

theorem runs_alike_sample :
    (Simulation.answering sampleLibrary.step sampleFiles [.edit "lab.yaml".toList (sampleChange [] []),
        .load "lab.yaml.system_modified.yaml".toList]).2 =
      (Simulation.answering (Shelf.step sampleLibrary) (sampleFiles.filterMap fun _ f => some (.found f))
        [.edit "lab.yaml".toList (sampleChange [] []), .load "lab.yaml.system_modified.yaml".toList]).2 :=
  runs_alike reloads_sampleLibrary sampleFiles _

/-! ## Edits one after another -/

/-- The files and the path after edits, each of the file that the one before it saved. -/
def Library.editAll (lib : Library Y) : Obj Text File → Text → List (Change R Y) → Obj Text File × Text
  | files, path, [] => (files, path)
  | files, path, c :: cs =>
    match lib.step files (.edit path c) with
    | (files', .saved path') => editAll lib files' path' cs
    | (files', .read _) => editAll lib files' path cs

/-- The paths that such edits may write. -/
def IsSibling (path q : Text) : Prop := (path ++ ".system_modified.".toList) <+: q

theorem Library.step_edit {lib : Library Y} {files : Obj Text File} {path : Text} {d : Data R Y}
    (h : lib.tryLoad files path = .definition d) (c : Change R Y) :
    lib.step files (.edit path c) =
      (lib.save files path (c.apply d), .saved (Library.outputPath path (c.apply d))) := by
  unfold Library.step
  dsimp only
  rw [h]

/-- **Edits come together**: after any number of them, each of what the last one saved, the definition is
the first one with all the changes, in its format. The original, and every file that is not beside it under
such a name, is as it was. -/
theorem chain_of_edits {lib : Library Y} (hlib : lib.Reloads) {files : Obj Text File} {path : Text}
    {d : Data R Y} (h : lib.tryLoad files path = .definition d) (cs : List (Change R Y)) :
    lib.tryLoad (lib.editAll files path cs).1 (lib.editAll files path cs).2 =
        .definition (cs.foldl (fun d c => c.apply d) d) ∧
      ∀ q, ¬ IsSibling path q → (lib.editAll files path cs).1.get q = files.get q := by
  induction cs generalizing files path d with
  | nil => exact ⟨h, fun _ _ => rfl⟩
  | cons c cs ih =>
    rw [Library.editAll, Library.step_edit h]
    obtain ⟨hload, hkeep⟩ := ih (Library.tryLoad_saved hlib files path (c.apply d))
    refine ⟨hload, fun q hq => ?_⟩
    have hout : IsSibling path (Library.outputPath path (c.apply d)) := List.prefix_append _ _
    rw [hkeep q, Library.save, Obj.get_set, if_neg]
    · rintro rfl
      exact hq hout
    · exact fun hsib => hq ((hout.trans (List.prefix_append _ _)).trans hsib)

theorem chain_of_edits_sample :
    sampleLibrary.tryLoad
        (sampleLibrary.editAll sampleFiles "lab.json".toList
          [sampleChange "myip".toList "10.0.0.7".toList, sampleChange "mymac".toList "52:54:00:00:00:01".toList]).1
        (sampleLibrary.editAll sampleFiles "lab.json".toList
          [sampleChange "myip".toList "10.0.0.7".toList, sampleChange "mymac".toList "52:54:00:00:00:01".toList]).2 =
        .definition (.json (sampleDict "mymac".toList "52:54:00:00:00:01".toList)) ∧
      ∀ q, ¬ IsSibling "lab.json".toList q →
        (sampleLibrary.editAll sampleFiles "lab.json".toList
          [sampleChange "myip".toList "10.0.0.7".toList,
            sampleChange "mymac".toList "52:54:00:00:00:01".toList]).1.get q = sampleFiles.get q :=
  chain_of_edits reloads_sampleLibrary tryLoad_sampleFiles _

end LabInABox.Config.LabFile
