import LabInABox.Credentials.Parsed
import LabInABox.Credentials.Store
import LabInABox.Jobs.Status

/-!
# The credential files of the web interface

Model of `credentials_list`, `credentials_add`, `credentials_encrypt` and `credentials_delete` with what they
call (`scripts/lab_builder_helper.py`), as the commands of a machine, and of the store they are for.

* The state is the directory that new files go to.
* `Ledger` is the purpose: accounts by the names of their files, each with what was entered and how it is
  sealed. An `Account` cannot have a field that its type does not take.
* A request has texts where the code takes the text of any value. `repr` is a parameter, and so are the
  random bytes of an envelope.
* `safe_name` is the one of the job commands.
-/

namespace LabInABox.Credentials.Helper

open Text
open Jobs.Status (safeName)
open Parsed (suffix)

variable (lib : Library) (repr : Text → Text)

/-! ## The directory -/

/-- The files of the directory, by name. -/
abbrev Dir := Obj Text Text

/-- `CREDENTIAL_EXTS`. -/
def credentialExts : List Text := [".yaml", ".yml", ".json", ".cfg"].map String.toList

/-- `load_credential(path)`. -/
def loadCredential (dir : Dir) (name : Text) : Data :=
  match parseFile lib (suffix name) ((dir.get name).getD []) with
  | .ok (.mapping data) => data
  | _ => Obj.empty

/-- `credential_file(name)`, where the directory has the files that `holds` tells: the message of a refusal. -/
def credentialFile (holds : Text → Bool) (name : Text) : Option Text :=
  if !safeName name then some ("invalid credential file name ".toList ++ repr name)
  else if suffix name ∉ credentialExts ∨ holds name = false then some ("no credential file ".toList ++ name)
  else none

/-! ## Listing -/

/-- What `credentials_list` shows of a file. -/
structure Entry where
  file : Text
  name : Text
  kind : Text
  type : Text
  fields : List Text
  encrypted : Bool
  encrypted_fields : List Text
  plaintext_secrets : List Text
  deriving DecidableEq

/-- `bool(value)`. -/
def truthy : Value → Bool
  | .scalar s => s.truthy
  | .mapping entries => !entries.isEmpty

/-- `str(value)`. -/
def shown : Value → Text
  | .scalar s => s.str
  | .mapping entries => lib.str entries

/-- `{k.lower(): v for k, v in data.items()}`. -/
def lowered (data : Data) : Data := Obj.empty.assign (data.entries.map fun e => (lower e.1, e.2))

/-- `str(data.get(k) or data.get(k') or "")`. -/
def firstOf (data : Data) (k k' : Text) : Text :=
  match (data.get k).filter truthy with
  | some v => shown lib v
  | none => (((data.get k').filter truthy).map (shown lib)).getD []

/-- The keys that are not shown as fields. -/
def listMarkers : List Text :=
  ["cloudtype", "cloud_type", "credential_kind", "kind", "unencrypted"].map String.toList

/-- `credential_entry(path)`. -/
def credentialEntry (dir : Dir) (file : Text) : Entry :=
  let data := loadCredential lib dir file
  let cloudtype := firstOf lib (lowered data) "cloudtype".toList "cloud_type".toList
  let kind := firstOf lib (lowered data) "credential_kind".toList "kind".toList
  let whole := decide (data.get "encrypted".toList = some (.scalar (.bool true)))
  let fields := if whole then [] else data.keys.filter fun k => lower k ∉ listMarkers
  { file := file
    name := stem file
    kind := if cloudtype ≠ [] then "cloud".toList else if kind ≠ [] then "service".toList else "unknown".toList
    type := if cloudtype ≠ [] then cloudtype else kind
    fields := fields
    encrypted := whole
    encrypted_fields := fields.filter fun k => ((data.get k).bind Value.envelope).isSome
    plaintext_secrets := if whole then [] else sensitivePlaintextFields data }

/-! ## Requests -/

/-- The request of `credentials-add`. -/
structure AddRequest where
  kind : Text
  type : Text
  account : Text
  fields : Obj Text Text
  passphrase : Option Text

/-- `registry(kind)`, as the kind that has the table. -/
def registry (kind : Text) : Option Kind :=
  if kind = "cloud".toList then some .cloud
  else if kind = "service".toList then some .service
  else none

/-- **The fields of a known type**, all of which it takes. -/
structure Filled where
  kind : Kind
  entry : Text
  rows : List Row
  fields : Obj Text Text
  known : (entry, rows) ∈ kind.table
  named : ∀ k ∈ fields.keys, k ∈ rows.map Prod.fst

/-- A passphrase has fewer than the eight characters it needs. -/
def tooShort (passphrase : Text) : Bool := decide (passphrase.length < 8)

/-- The checks of `credentials_add`, where the directory has the files that `holds` tells: the fields and
the name of the file without its suffix. -/
def vet (holds : Text → Bool) (req : AddRequest) : Except Text (Filled × Text) :=
  match registry req.kind with
  | none => .error "kind must be cloud or service".toList
  | some kind =>
    match kind.table.attach.find? fun e => decide (e.1.1 = req.type) with
    | none => .error ("unknown ".toList ++ req.kind ++ " type ".toList ++ repr req.type)
    | some ⟨(entry, rows), known⟩ =>
      let given := req.fields.filter fun e => decide (e.2 ≠ [])
      let missing := (rows.filter fun f => f.2.1 && !decide (f.1 ∈ given.keys)).map Prod.fst
      if !safeName req.account then .error ("invalid account name ".toList ++ repr req.account)
      else if hunknown : given.keys.filter (fun k => decide (k ∉ rows.map Prod.fst)) = [] then
        if missing ≠ [] then .error ("missing required field ".toList ++ ", ".toList.intercalate missing)
        else if req.passphrase.any tooShort then
          .error "the passphrase must have at least 8 characters".toList
        else
          let stem := entry ++ "-".toList ++ req.account
          if credentialExts.any (fun ext => holds (stem ++ ext)) then
            .error ("a credential file ".toList ++ stem ++ " already exists".toList)
          else
            .ok (⟨kind, entry, rows, given, known, fun k hk => by
              by_contra hne
              exact absurd (List.mem_filter.mpr ⟨hk, decide_eq_true hne⟩) (hunknown ▸ List.not_mem_nil)⟩, stem)
      else .error (entry ++ " takes no field ".toList ++
        sortedNames (given.keys.filter fun k => decide (k ∉ rows.map Prod.fst)))

/-- A command of the helper, with the random bytes it uses. -/
inductive Command
  | list
  | add (req : AddRequest) (r : Nonces)
  | encrypt (name passphrase : Text) (r : Text → Nonces)
  | delete (name : Text)

/-- What a command prints. -/
inductive Reply
  | listed (dir : Text) (credentials : List Entry) (cloud service : List (Text × List Row))
  | written (file : Text)
  | encrypted (file : Text) (keys : List Text)
  | deleted (file : Text)
  deriving DecidableEq

/-- `credentials_list()`, in the directory `place`. -/
def credentialsList (place : Text) (dir : Dir) : Reply :=
  .listed place ((sorted (dir.keys.filter fun n => suffix n ∈ credentialExts)).map (credentialEntry lib dir))
    providerFields serviceCredentialFields

/-- `credentials_add(req)`. -/
def credentialsAdd (dir : Dir) (req : AddRequest) (r : Nonces) : Dir × Except Text Reply :=
  match vet repr (fun n => decide (n ∈ dir.keys)) req with
  | .error e => (dir, .error e)
  | .ok (f, stem) =>
    let file := stem ++ ".yaml".toList
    (dir.set file (lib.dump (filePayload lib f.kind f.entry f.fields (req.passphrase.map fun pw => (pw, r)))),
      .ok (.written file))

/-- `credentials_encrypt(name, req)`. -/
def credentialsEncrypt (dir : Dir) (name passphrase : Text) (r : Text → Nonces) : Dir × Except Text Reply :=
  match credentialFile repr (fun n => decide (n ∈ dir.keys)) name with
  | some e => (dir, .error e)
  | none =>
    if tooShort passphrase then (dir, .error "the passphrase must have at least 8 characters".toList)
    else
      let data := loadCredential lib dir name
      let keys := sensitivePlaintextFields data
      let out := stem name ++ ".encrypted.yaml".toList
      if keys = [] then (dir, .error (name ++ " has no plaintext secret to encrypt".toList))
      else if out ∈ dir.keys then (dir, .error (out ++ " already exists".toList))
      else
        match encryptFields lib passphrase r keys data with
        | none => (dir, .error [])
        | some data => (dir.set out (lib.dump data), .ok (.encrypted out keys))

/-- `credentials_delete(name)`. -/
def credentialsDelete (dir : Dir) (name : Text) : Dir × Except Text Reply :=
  match credentialFile repr (fun n => decide (n ∈ dir.keys)) name with
  | some e => (dir, .error e)
  | none => (dir.erase name, .ok (.deleted name))

/-- `run(args)`. -/
def step (place : Text) (dir : Dir) : Command → Dir × Except Text Reply
  | .list => (dir, .ok (credentialsList lib place dir))
  | .add req r => credentialsAdd lib repr dir req r
  | .encrypt name passphrase r => credentialsEncrypt lib repr dir name passphrase r
  | .delete name => credentialsDelete repr dir name

/-! ## The ledger -/

/-- How the fields of an account are stored. -/
inductive Sealed
  | plain
  | whole (passphrase : Text)
  | each (passphrase : Text)

/-- **An account**: its fields, and how they are stored. -/
structure Account extends Filled where
  sealed : Sealed

/-- The accounts, by the names of their files. -/
abbrev Ledger := Obj Text Account

/-- The fields that look sensitive. -/
def Filled.sensitive (f : Filled) : List Text := f.fields.keys.filter fun k => looksSensitive k

/-- The fields that look sensitive and are not encrypted. -/
def Account.secrets (a : Account) : List Text :=
  match a.sealed with
  | .plain => a.sensitive
  | _ => []

/-- What is shown of an account. -/
def Account.outline (file : Text) (a : Account) : Entry where
  file := file
  name := stem file
  kind := match a.kind with
    | .cloud => "cloud".toList
    | .service => "service".toList
  type := a.entry
  fields := match a.sealed with
    | .whole _ => []
    | _ => "schema_version".toList :: a.fields.keys
  encrypted := match a.sealed with
    | .whole _ => true
    | _ => false
  encrypted_fields := match a.sealed with
    | .each _ => a.sensitive
    | _ => []
  plaintext_secrets := a.secrets

/-- The accounts, as they are listed. -/
def Ledger.list (place : Text) (l : Ledger) : Reply :=
  .listed place ((sorted l.keys).filterMap fun n => (l.get n).map (Account.outline n))
    providerFields serviceCredentialFields

/-- An account is added. -/
def Ledger.add (l : Ledger) (req : AddRequest) : Ledger × Except Text Reply :=
  match vet repr (fun n => decide (n ∈ l.keys)) req with
  | .error e => (l, .error e)
  | .ok (f, stem) =>
    (l.set (stem ++ ".yaml".toList) ⟨f, req.passphrase.elim .plain .whole⟩,
      .ok (.written (stem ++ ".yaml".toList)))

/-- An account is stored a second time, with its secrets encrypted. -/
def Ledger.encrypt (l : Ledger) (name passphrase : Text) : Ledger × Except Text Reply :=
  match credentialFile repr (fun n => decide (n ∈ l.keys)) name with
  | some e => (l, .error e)
  | none =>
    if tooShort passphrase then (l, .error "the passphrase must have at least 8 characters".toList)
    else
      let out := stem name ++ ".encrypted.yaml".toList
      match (l.get name).filter fun a => decide (a.secrets ≠ []) with
      | none => (l, .error (name ++ " has no plaintext secret to encrypt".toList))
      | some a =>
        if out ∈ l.keys then (l, .error (out ++ " already exists".toList))
        else (l.set out ⟨a.toFilled, .each passphrase⟩, .ok (.encrypted out a.secrets))

/-- An account is taken out. -/
def Ledger.delete (l : Ledger) (name : Text) : Ledger × Except Text Reply :=
  match credentialFile repr (fun n => decide (n ∈ l.keys)) name with
  | some e => (l, .error e)
  | none => (l.erase name, .ok (.deleted name))

/-- A command, on the ledger. -/
def Ledger.step (place : Text) (l : Ledger) : Command → Ledger × Except Text Reply
  | .list => (l, .ok (l.list place))
  | .add req _ => l.add repr req
  | .encrypt name passphrase _ => l.encrypt repr name passphrase
  | .delete name => l.delete repr name

/-- The data of an account with nothing encrypted. -/
def Filled.payload (f : Filled) : Data := filePayload lib f.kind f.entry f.fields none

/-- The data of a file that stores the account. -/
def Account.StoredAs (a : Account) (data : Data) : Prop :=
  match a.sealed with
  | .plain => data = a.payload lib
  | .whole passphrase => ∃ r, data = filePayload lib a.kind a.entry a.fields (some (passphrase, r))
  | .each passphrase => ∃ r, encryptFields lib passphrase r a.sensitive (a.payload lib) = some data

/-- A text that stores an account. -/
def Holds (text : Text) (a : Account) : Prop := ∃ data, text = lib.dump data ∧ a.StoredAs lib data

/-- The directory holds the accounts of the ledger, in files of one type. -/
structure Agrees (dir : Dir) (l : Ledger) : Prop where
  held : Obj.RelatedBy (Holds lib) dir l
  named : ∀ n ∈ l.keys, ∃ s, s ≠ [] ∧ n = s ++ ".yaml".toList

end LabInABox.Credentials.Helper
