import LabInABox.Config.ShellVars
import LabInABox.Credentials.Store
import LabInABox.Text.Unb64

/-!
# Credential files as they are parsed

Model of how credential files are listed (`list_cloud_accounts`, `list_service_credentials`) and loaded
(`try_load_cloud_account`, `try_load_service_credential`, all in `libs/primary.py`), with `_decrypt_value`
and `decrypt_cascade` (`libs/crypto_store.py`) under them, for anything that a file parses to.

* `Store` has the files that the tools write. Here a key need not be a text, a value is of any type, and
  an envelope of any shape.
* What Python refuses raises an exception, `Exn`, and passes every `except` that does not name it.
* PyYAML, `json`, Argon2id, HKDF and the two ciphers are parameters, and so are the sizes and costs that
  the last four take. `str` of what is not a text is one too.
* A directory has its entries with what is read from them, none where reading raises.
-/

namespace LabInABox.Credentials.Parsed

open Text

/-! ## Values -/

/-- An exception, by what an `except` can tell of it. -/
inductive Exn
  | decryption (message : Text)
  | keyError
  | typeError
  | valueError
  | overflowError
  | attributeError
  | invalidTag
  | importError
  | yamlError
  | other (id : Nat)
  deriving DecidableEq

/-- A key of a mapping; `other` is a number, a truth value, a date or nothing, told apart by number. -/
inductive Key
  | text (t : Text)
  | bytes (raw : Bytes)
  | other (id : Nat)
  deriving DecidableEq

/-- A floating-point number. -/
inductive FloatValue
  | finite (q : Rat)
  | infinite
  | nan

/-- A value; `other` is a list, a date or a set. -/
inductive Item
  | null
  | bool (b : Bool)
  | int (n : Int)
  | float (x : FloatValue)
  | text (t : Text)
  | bytes (raw : Bytes)
  | mapping (entries : List (Key × Item))
  | other (id : Nat) (truthy : Bool)

/-- A mapping. -/
abbrev Data := Obj Key Item

/-- What a file parses to; `other` is anything but a mapping. -/
inductive Document
  | mapping (data : Data)
  | other (truthy : Bool)

/-- What looking up a text gives. -/
abbrev Envelope := Text → Option Item

/-- What holds of bytes is decided along them. -/
instance decidableForallByte (p : UInt8 → Prop) [DecidablePred p] (raw : Bytes) : Decidable (∀ b, b ∈ raw → p b) :=
  List.decidableBAll p raw

namespace Item

/-- `bool(value)`. -/
def truthy : Item → Bool
  | null => false
  | bool b => b
  | int n => n ≠ 0
  | float (.finite q) => q ≠ 0
  | float _ => true
  | text t => t ≠ []
  | bytes raw => raw ≠ []
  | mapping entries => !entries.isEmpty
  | other _ truthy => truthy

/-- `base64.b64decode(value)`. -/
def b64decode : Item → Except Exn Bytes
  | text t => ((unb64 t).map Except.ok).getD (.error .valueError)
  | bytes raw => ((a2bBase64 (raw.map fun b => Char.ofNat b.toNat) 0 0 0).map Except.ok).getD (.error .valueError)
  | _ => .error .typeError

/-- `int(value)`. -/
def toInt : Item → Except Exn Int
  | bool b => .ok (if b then 1 else 0)
  | int n => .ok n
  | float (.finite q) => .ok (q.num.tdiv q.den)
  | float .infinite => .error .overflowError
  | float .nan => .error .valueError
  | text t => ((Schema.parseInt t).map Except.ok).getD (.error .valueError)
  | bytes raw =>
    if ∀ b ∈ raw, b.toNat < 128 ∧ ¬ (28 ≤ b.toNat ∧ b.toNat < 32) then
      ((Schema.parseInt (raw.map fun b => Char.ofNat b.toNat)).map Except.ok).getD (.error .valueError)
    else .error .valueError
  | _ => .error .typeError

/-- `isinstance(val, dict) and val.get("encrypted") is True`, and then the mapping. -/
def envelope : Item → Option Envelope
  | mapping entries =>
    match dictGet entries (.text "encrypted".toList) with
    | some (bool true) => some fun t => dictGet entries (.text t)
    | _ => none
  | _ => none

/-- `value == t`, for a text. -/
def isText (t : Text) : Option Item → Bool
  | some (text u) => u = t
  | _ => false

end Item

/-- What the code uses that is not in the repository. -/
structure Library where
  suite : Suite
  kdfTakes : (salt : Bytes) → (timeCost memoryCostKib parallelism : Int) → Bool
  aesTakes : (nonce : Bytes) → Bool
  chachaTakes : (nonce : Bytes) → Bool
  yaml : Text → Except Exn Document
  json : Text → Except Exn Document
  isalnum : Char → Bool
  environ : Shell.Env
  /-- `str(value)` of what is not a text -/
  str : Item → Text
  /-- `format` of a key that is not a text -/
  strKey : Key → Text
  /-- `str(e)` -/
  message : Exn → Text

variable (lib : Library)

/-- `str(value)`. -/
def Library.show : Item → Text
  | .text t => t
  | v => lib.str v

/-- A key, formatted. -/
def Library.showKey : Key → Text
  | .text t => t
  | k => lib.strKey k

/-- `str(value or "").strip()`. -/
def markerText (v : Item) : Text := if v.truthy then strip (lib.show v) else []

/-- `k.lower() in markers`. -/
def Key.isMarker (kind : Kind) : Key → Except Exn Bool
  | text t => .ok (kind.isMarker t)
  | bytes _ => .ok false
  | other _ => .error .attributeError

/-! ## Decrypting -/

/-- What is supplied as a passphrase: a text, or a string with a surrogate, which has no UTF-8. -/
inductive Passphrase
  | text (t : Text)
  | surrogates
  deriving DecidableEq

/-- The fields of an envelope. -/
structure Fields where
  salt : Bytes
  nonce1 : Bytes
  nonce2 : Bytes
  ciphertext : Bytes
  timeCost : Int
  memoryCostKib : Int
  parallelism : Int

/-- `_unb64(envelope[key])`. -/
def fieldBytes (envelope : Envelope) (key : String) : Except Exn Bytes :=
  match envelope key.toList with
  | none => .error .keyError
  | some v => v.b64decode

/-- `int(envelope.get(key, default))`. -/
def fieldInt (envelope : Envelope) (key : String) (default : Int) : Except Exn Int :=
  match envelope key.toList with
  | none => .ok default
  | some v => v.toInt

/-- The fields, in the order they are read. -/
def readFields (envelope : Envelope) : Except Exn Fields := do
  let salt ← fieldBytes envelope "salt"
  let nonce1 ← fieldBytes envelope "nonce1"
  let nonce2 ← fieldBytes envelope "nonce2"
  let ciphertext ← fieldBytes envelope "ciphertext"
  let timeCost ← fieldInt envelope "kdf_time_cost" 3
  let memoryCostKib ← fieldInt envelope "kdf_memory_cost_kib" 262144
  let parallelism ← fieldInt envelope "kdf_parallelism" 4
  return ⟨salt, nonce1, nonce2, ciphertext, timeCost, memoryCostKib, parallelism⟩

/-- `except (KeyError, ValueError, TypeError)`. -/
def Exn.isMalformed : Exn → Bool
  | keyError | valueError | typeError => true
  | _ => false

/-- The two keys of an envelope, for a passphrase. -/
def Fields.keys (f : Fields) (t : Text) : Bytes × Bytes :=
  deriveKeys lib.suite t f.salt f.timeCost f.memoryCostKib f.parallelism

/-- `derive_master_key` and `split_keys`. -/
def keysOf (pw : Passphrase) (f : Fields) : Except Exn (Bytes × Bytes) :=
  if lib.kdfTakes f.salt f.timeCost f.memoryCostKib f.parallelism then
    match pw with
    | .text t => .ok (f.keys lib t)
    | .surrogates => .error .valueError
  else .error .valueError

/-- `decrypt(nonce, ciphertext, None)` of a cipher that takes certain nonces. -/
def openLayer (cipher : Aead) (takes : Bytes → Bool) (key nonce ciphertext : Bytes) : Except Exn Bytes :=
  if takes nonce then ((cipher.decrypt key nonce ciphertext).map Except.ok).getD (.error .invalidTag)
  else .error .valueError

/-- The envelope names the KDF and the ciphers that the code knows. -/
def HeaderKnown (envelope : Envelope) : Prop :=
  Item.isText "argon2id".toList (envelope "kdf".toList) = true ∧
    Item.isText "aes-256-gcm+chacha20-poly1305".toList (envelope "cipher".toList) = true

instance (envelope : Envelope) : Decidable (HeaderKnown envelope) := inferInstanceAs (Decidable (_ ∧ _))

/-- What is said of an envelope that names others. -/
def unrecognised (envelope : Envelope) : Text :=
  let shown (k : String) := ((envelope k.toList).map lib.show).getD "None".toList
  "unrecognised kdf/cipher in credential envelope: ".toList ++ shown "kdf" ++ "/".toList ++ shown "cipher" ++
    " (expected argon2id/aes-256-gcm+chacha20-poly1305)".toList

/-- `decrypt_cascade(passphrase, envelope)`. -/
def decryptCascade (pw : Passphrase) (envelope : Envelope) : Except Exn Bytes :=
  if ¬ HeaderKnown envelope then .error (.decryption (unrecognised lib envelope))
  else
    match readFields envelope with
    | .error e =>
      if e.isMalformed then
        .error (.decryption ("malformed credential envelope: ".toList ++ lib.message e))
      else .error e
    | .ok f =>
      match keysOf lib pw f with
      | .error e => .error e
      | .ok keys =>
        match (openLayer lib.suite.chacha lib.chachaTakes keys.2 f.nonce2 f.ciphertext).bind
          (openLayer lib.suite.aes lib.aesTakes keys.1 f.nonce1) with
        | .error .invalidTag =>
          .error (.decryption "wrong passphrase, or the credential file is corrupt/tampered".toList)
        | r => r

/-- What a call comes to: a value, an error that is returned, or an exception. -/
inductive Outcome (α : Type)
  | value (a : α)
  | error (message : Text)
  | raises (e : Exn)

/-- Where passphrases come from: the environment, and what is answered to a prompt, attempt by attempt;
none where nobody can be asked. -/
structure Session where
  env : Option Passphrase
  ask : Option (Text → Nat → Passphrase)

/-- `passphrase_from_env()`. -/
def Session.passphraseFromEnv (s : Session) : Option Passphrase := s.env.filter (· ≠ .text [])

/-- `_PASSPHRASE_CACHE`. -/
abbrev Cache := Text → Option Passphrase

/-- The prompt of a label. -/
def promptOf (label : Text) : Text := "Passphrase for ".toList ++ label ++ ": ".toList

/-- The attempts that are left, from the `i`-th on. -/
def askPassphrase (answers : Nat → Passphrase) (envelope : Envelope) (cacheKey label : Text)
    (cache : Cache) : Nat → Nat → Text → Outcome Bytes × Cache
  | 0, _, last => (.error (label ++ ": ".toList ++ last), cache)
  | left + 1, i, _ =>
    match decryptCascade lib (answers i) envelope with
    | .ok m => (.value m, Function.update cache cacheKey (some (answers i)))
    | .error (.decryption e) => askPassphrase answers envelope cacheKey label cache left (i + 1) e
    | .error e => (.raises e, cache)

/-- `_decrypt_value`, once the cache is looked at. -/
def decryptUncached (s : Session) (envelope : Envelope) (cacheKey label : Text) (cache : Cache) :
    Outcome Bytes × Cache :=
  match s.passphraseFromEnv, s.ask with
  | some pw, ask =>
    match decryptCascade lib pw envelope, ask with
    | .ok m, _ => (.value m, Function.update cache cacheKey (some pw))
    | .error (.decryption e), none =>
      (.error (label ++ ": ".toList ++ e ++ " (from $LAB_CREDENTIALS_PASSPHRASE)".toList), cache)
    | .error (.decryption _), some answers =>
      askPassphrase lib (answers (promptOf label)) envelope cacheKey label cache 3 0 "None".toList
    | .error e, _ => (.raises e, cache)
  | none, none =>
    (.error (label ++
      ": it is encrypted and there is no terminal to ask for its passphrase — set $LAB_CREDENTIALS_PASSPHRASE for this run".toList),
      cache)
  | none, some answers =>
    askPassphrase lib (answers (promptOf label)) envelope cacheKey label cache 3 0 "None".toList

/-- `_decrypt_value(envelope, cache_key, label, passphrase_prompt)`. -/
def decryptValue (s : Session) (cache : Cache) (envelope : Envelope) (cacheKey label : Text) :
    Outcome Bytes × Cache :=
  match cache cacheKey with
  | none => decryptUncached lib s envelope cacheKey label cache
  | some pw =>
    match decryptCascade lib pw envelope with
    | .ok m => (.value m, cache)
    | .error (.decryption _) =>
      decryptUncached lib s envelope cacheKey label (Function.update cache cacheKey none)
    | .error e => (.raises e, cache)

/-! ## Files -/

/-- The entries of each directory, with what is read from them; none where there is no directory. -/
abbrev Directories := Text → Option (Obj Text (Option Text))

/-- What a file parses to, by its suffix. -/
def parse (suffix text : Text) : Except Exn Document :=
  if suffix = ".json".toList then lib.json text
  else if suffix = ".yaml".toList ∨ suffix = ".yml".toList then lib.yaml text
  else .ok (.mapping (Obj.empty.assign ((Config.parseShellVars lib.isalnum lib.environ text).entries.map
    fun e => (.text e.1, .text e.2))))

/-- A file that is looked at. -/
structure Candidate where
  dir : Text
  ext : Text
  name : Text
  content : Option Text
  deriving DecidableEq

/-- `sorted(dirp.glob("*" + ext))`. -/
def glob (files : Directories) (dir ext : Text) : List Candidate :=
  match files dir with
  | none => []
  | some es => ((es.entries.filter fun e => ext.isSuffixOf e.1).insertionSort fun e e' => e.1 ≤ e'.1).map
      fun e => ⟨dir, ext, e.1.take (e.1.length - ext.length), e.2⟩

/-- The files of the directories, in the order they are looked at. -/
def candidates (files : Directories) (dirs : List Text) : List Candidate :=
  dirs.flatMap fun d => cloudAccountExts.flatMap fun ext => glob files d ext

/-! ## Listing -/

/-- A file that is listed: its name and its marker, and where it is. -/
structure Found where
  name : Text
  entry : Text
  dir : Text
  ext : Text
  deriving DecidableEq

/-- The loop over the keys, up to the first marker. -/
def firstMarker (kind : Kind) : List (Key × Item) → Except Exn Text
  | [] => .ok []
  | (k, v) :: es =>
    match k.isMarker kind with
    | .error e => .error e
    | .ok true => .ok (markerText lib v)
    | .ok false => firstMarker kind es

/-- One file of the loop. -/
def listFile (kind : Kind) (found : List Found) (c : Candidate) : Except Exn (List Found) :=
  if c.name ∈ found.map Found.name then .ok found
  else
    match c.content.map (parse lib c.ext) with
    | some (.ok (.mapping data)) =>
      match firstMarker lib kind data.entries with
      | .error e => .error e
      | .ok entry => .ok (if entry = [] then found else found ++ [⟨c.name, entry, c.dir, c.ext⟩])
    | _ => .ok found

/-- The files that are listed. -/
def listFound (kind : Kind) (files : Directories) (dirs : List Text) : Except Exn (List Found) :=
  (candidates files dirs).foldlM (listFile lib kind) []

/-- `list_cloud_accounts(config)` and `list_service_credentials(config)`. -/
def list (kind : Kind) (files : Directories) (dirs : List Text) : Except Exn (List (Text × Text)) :=
  (listFound lib kind files dirs).map fun fs => fs.map fun f => (f.name, f.entry)

/-- `list_cloud_accounts`. -/
def listCloudAccounts := list lib .cloud

/-- `list_service_credentials`. -/
def listServiceCredentials := list lib .service

/-! ## Loading -/

/-- What is read from a file, where there is one. -/
def contentOf (files : Directories) (dir name : Text) : Option (Option Text) :=
  (files dir).bind fun es => es.get name

/-- `cloud_account_path(name, config)`: the directory and the suffix. -/
def cloudAccountPath (files : Directories) (dirs : List Text) (name : Text) : Option (Text × Text) :=
  (dirs.flatMap fun d => cloudAccountExts.map fun ext => (d, ext)).find? fun p =>
    (contentOf files p.1 (name ++ p.2)).isSome

/-- `path.suffix`. -/
def suffix (name : Text) : Text :=
  let ext := name.rtakeWhile (· ≠ '.')
  if ext ≠ [] ∧ ext.length + 1 < name.length then '.' :: ext else []

/-- The loop that takes the markers out; the last one counts. -/
def popMarkers (kind : Kind) : List (Key × Item) → Text → Data → Except Exn (Text × Data)
  | [], entry, data => .ok (entry, data)
  | (k, v) :: es, entry, data =>
    match k.isMarker kind with
    | .error e => .error e
    | .ok true => popMarkers kind es (markerText lib v) (data.erase k)
    | .ok false => popMarkers kind es entry data

/-- What the value of a field is cached under. -/
def fieldKey (path : Text) (k : Key) : Text := path ++ "::".toList ++ lib.showKey k

/-- What a field is called. -/
def fieldLabel (name : Text) (k : Key) : Text := lib.showKey k ++ " (".toList ++ name ++ ")".toList

/-- What a file is called. -/
def subjectOf (kind : Kind) (name : Text) : Text := kind.noun ++ " '".toList ++ name ++ "'".toList

/-- The loop over the values of a file that is not encrypted as a whole. -/
def decryptFields (s : Session) (path name : Text) : List Key → Data → Cache → Outcome Data × Cache
  | [], data, cache => (.value data, cache)
  | k :: ks, data, cache =>
    match (data.get k).bind Item.envelope with
    | none => decryptFields s path name ks data cache
    | some envelope =>
      match decryptValue lib s cache envelope (fieldKey lib path k) (fieldLabel lib name k) with
      | (.error e, cache) => (.error e, cache)
      | (.raises e, cache) => (.raises e, cache)
      | (.value m, cache) =>
        match decodeUtf8 m with
        | none => (.raises .valueError, cache)
        | some t => decryptFields s path name ks (data.set k (.text t)) cache

/-- What follows once the marker is read. -/
def decryptData (kind : Kind) (s : Session) (cache : Cache) (path name : Text) (data : Data) :
    Outcome Data × Cache :=
  match data.get (.text "encrypted".toList) with
  | some (.bool true) =>
    match decryptValue lib s cache (fun t => data.get (.text t)) path (subjectOf kind name) with
    | (.error e, cache) => (.error e, cache)
    | (.raises e, cache) => (.raises e, cache)
    | (.value m, cache) =>
      match decodeUtf8 m with
      | none => (.raises .valueError, cache)
      | some t =>
        match lib.yaml t with
        | .error .yamlError => (.error (subjectOf kind name ++ " (".toList ++ path ++
            ") decrypted, but the plaintext isn't valid YAML: ".toList ++ lib.message .yamlError), cache)
        | .error e => (.raises e, cache)
        | .ok (.other true) => (.error (subjectOf kind name ++ " (".toList ++ path ++
            ") decrypted payload must be a mapping".toList), cache)
        | .ok (.other false) => (.value Obj.empty, cache)
        | .ok (.mapping inner) => (.value inner, cache)
  | _ => decryptFields lib s path name data.keys data cache

/-- What follows once a file is parsed. -/
def loadData (kind : Kind) (s : Session) (cache : Cache) (path name : Text) (data : Data) :
    Outcome Data × Cache :=
  match popMarkers lib kind data.entries [] data with
  | .error e => (.raises e, cache)
  | .ok (entry, data) =>
    if entry = [] then
      (.error (subjectOf kind name ++ " (".toList ++ path ++ ") has no '".toList ++ kind.marker ++
        "' — set it to ".toList ++ kind.examples), cache)
    else
      match decryptData lib kind s cache path name
        ((data.erase (.text "unencrypted".toList)).erase (.text "schema_version".toList)) with
      | (.value d, cache) => (.value (d.set (.text kind.key) (.text entry)), cache)
      | r => r

/-- `try_load_cloud_account(name, config, passphrase_prompt)` and `try_load_service_credential`. -/
def tryLoad (kind : Kind) (files : Directories) (dirs : List Text) (s : Session) (cache : Cache)
    (name : Text) : Outcome Data × Cache :=
  match cloudAccountPath files dirs name with
  | none => (.error (subjectOf kind name ++ " not found — looked for <name>.\x7byaml,yml,json,cfg\x7d in: ".toList ++
      ", ".toList.intercalate dirs), cache)
  | some (dir, ext) =>
    let path := dir ++ "/".toList ++ name ++ ext
    match (contentOf files dir (name ++ ext)).bind id with
    | none => (.raises (.other 0), cache)
    | some text =>
      match parse lib (lower (suffix (name ++ ext))) text with
      | .error .importError => (.error (subjectOf kind name ++ " (".toList ++ path ++
          ") needs PyYAML to parse — pip install pyyaml".toList), cache)
      | .error e => (.error (subjectOf kind name ++ " (".toList ++ path ++ ") failed to parse as ".toList ++
          (if (suffix (name ++ ext)).drop 1 = [] then "config".toList else (suffix (name ++ ext)).drop 1) ++
          ": ".toList ++ lib.message e), cache)
      | .ok (.other _) => (.error (subjectOf kind name ++ " (".toList ++ path ++
          ") must be a mapping of key: value".toList), cache)
      | .ok (.mapping data) => loadData lib kind s cache path name data

/-- `try_load_cloud_account`. -/
def tryLoadCloudAccount := tryLoad lib .cloud

/-- `try_load_service_credential`. -/
def tryLoadServiceCredential := tryLoad lib .service

end LabInABox.Credentials.Parsed
