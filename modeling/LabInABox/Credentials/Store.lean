import LabInABox.Credentials.Cipher
import LabInABox.Text.Order

/-!
# Credential files

Model of how credential files are written (`scripts/setup_credentials.py`) and read
(`try_load_cloud_account` and `try_load_service_credential` in `libs/primary.py`).

* A cloud account and a service credential are two kinds of one file: `Kind` holds what differs, the
  marker keys among it.
* PyYAML is a parameter of which only the round trip is used. The parsers of the other file types and
  `str` of what is not a text are parameters too, and so is the text of an exception.
* A passphrase comes from the cache, the environment or a prompt: `Session`. The cache is passed on from
  one value to the next.
* The keys of a mapping are texts, and the names of files are neither empty nor paths.
-/

namespace LabInABox.Credentials

open Text

/-! ## The fields of each kind -/

/-- A field: its name, whether it is required, whether it is sensitive. -/
abbrev Row := Text × Bool × Bool

/-- A row of a table, from its name. -/
def row (name : String) (required sensitive : Bool) : Row := (name.toList, required, sensitive)

/-- `PROVIDER_FIELDS`. -/
def providerFields : List (Text × List Row) :=
  [("hetzner".toList, [row "HETZNER_TOKEN" true true, row "HETZNER_LOCATION" false false]),
    ("aws".toList, [row "AWS_REGION" true false, row "AWS_PROFILE" false false,
      row "AWS_ACCESS_KEY_ID" false false, row "AWS_SECRET_ACCESS_KEY" false true,
      row "AWS_SESSION_TOKEN" false true, row "AWS_SUBNET_ID" false false,
      row "AWS_SECURITY_GROUP_ID" false false, row "AWS_KEY_NAME" false false]),
    ("gcp".toList, [row "GCP_PROJECT" true false, row "GCP_ZONE" true false,
      row "GCP_SERVICE_ACCOUNT_KEY" false false, row "GCP_IMAGE_PROJECT" false false,
      row "GCP_NETWORK" false false, row "GCP_SUBNET" false false]),
    ("alibaba".toList, [row "ALIBABA_ACCESS_KEY_ID" true false, row "ALIBABA_ACCESS_KEY_SECRET" true true,
      row "ALIBABA_REGION" true false, row "ALIBABA_SECURITY_GROUP_ID" true false,
      row "ALIBABA_VSWITCH_ID" true false]),
    ("scaleway".toList, [row "SCALEWAY_SECRET_KEY" true true, row "SCALEWAY_PROJECT_ID" true false,
      row "SCALEWAY_ZONE" true false]),
    ("upcloud".toList, [row "UPCLOUD_USERNAME" true false, row "UPCLOUD_PASSWORD" true true,
      row "UPCLOUD_ZONE" true false]),
    ("ovhcloud".toList, [row "OVH_APPLICATION_KEY" true true, row "OVH_APPLICATION_SECRET" true true,
      row "OVH_CONSUMER_KEY" true true, row "OVH_SERVICE_NAME" true false, row "OVH_REGION" true false,
      row "OVH_ENDPOINT" false false]),
    ("exoscale".toList, [row "EXOSCALE_API_KEY" true true, row "EXOSCALE_API_SECRET" true true,
      row "EXOSCALE_ZONE" true false])]

/-- `SERVICE_CREDENTIAL_FIELDS`. -/
def serviceCredentialFields : List (Text × List Row) :=
  [("scc".toList, [row "scc_user" true false, row "scc_password" true true,
      row "scc_regcode" false true]),
    ("appcollection".toList, [row "appcollection_user" true false,
      row "appcollection_password" true true]),
    ("hermes".toList, [row "hermes_llm_api_key" true true, row "hermes_telegram_token" false true,
      row "hermes_dashboard_password" false true]),
    ("ds389".toList, [row "ds389_dm_password" false true]),
    ("vhm_aws".toList, [row "vhm_aws_access_key_id" true false,
      row "vhm_aws_secret_access_key" true true])]

/-- The two kinds of credential files. -/
inductive Kind
  | cloud
  | service
  deriving DecidableEq

namespace Kind

/-- The entries of a kind, each with its fields. -/
def table : Kind → List (Text × List Row)
  | cloud => providerFields
  | service => serviceCredentialFields

/-- The key a file is marked by. -/
def marker : Kind → Text
  | cloud => "cloudtype".toList
  | service => "credential_kind".toList

/-- The keys that are read as the marker, in any case. -/
def markers : Kind → List Text
  | cloud => ["cloudtype".toList, "cloud_type".toList]
  | service => ["credential_kind".toList, "kind".toList]

/-- The key that the marker is returned under. -/
def key : Kind → Text
  | cloud => "CLOUDTYPE".toList
  | service => "CREDENTIAL_KIND".toList

/-- What the messages call it. -/
def noun : Kind → Text
  | cloud => "cloud account".toList
  | service => "credential".toList

/-- What the message about a missing marker suggests. -/
def examples : Kind → Text
  | cloud => "aws, gcp, hetzner, …".toList
  | service => "scc, appcollection, …".toList

/-- A key is read as the marker. -/
def isMarker (kind : Kind) (k : Text) : Bool := lower k ∈ kind.markers

end Kind

/-! ## Documents -/

/-- A value of a file: a scalar or a mapping of scalars. -/
inductive Value
  | scalar (s : Scalar)
  | mapping (entries : List (Text × Scalar))
  deriving DecidableEq

/-- A mapping of names to values. -/
abbrev Data := Obj Text Value

/-- What a file parses to; `other` is anything but a mapping. -/
inductive Document
  | mapping (data : Data)
  | other (truthy : Bool)

/-- `isinstance(val, dict) and val.get("encrypted") is True`, and then the mapping. -/
def Value.envelope : Value → Option (List (Text × Scalar))
  | mapping entries =>
    if dictGet entries "encrypted".toList = some (.bool true) then some entries else none
  | scalar _ => none

/-- What the code uses that is not in the repository. -/
structure Library where
  suite : Suite
  dump : Data → Text
  load : Text → Except Text Document
  load_dump : ∀ data, load (dump data) = .ok (.mapping data)
  /-- the parsers of the file types that are not YAML, by suffix -/
  parse : Text → Text → Except Text Document
  /-- `str(value)`, of a mapping -/
  str : List (Text × Scalar) → Text
  /-- what Python says of a malformed envelope -/
  malformed : Text

variable (lib : Library)

/-- `str(value or "").strip()`. -/
def markerText : Value → Text
  | .scalar s => if s.truthy then strip s.str else []
  | .mapping entries => if entries = [] then [] else strip (lib.str entries)

/-- A value as `decrypt_cascade` sees it. -/
def Value.toScalar : Value → Scalar
  | scalar s => s
  | mapping entries => .other (lib.str entries) (entries ≠ [])

/-! ## Writing -/

/-- The files of each directory. -/
abbrev Files := Text → Text → Option Text

/-- A file is written. -/
def Files.write (files : Files) (dir name text : Text) : Files :=
  fun d n => if d = dir ∧ n = name then some text else files d n

/-- The fields, as values. -/
def textFields (fields : Obj Text Text) : Data := fields.filterMap fun _ t => some (.scalar (.text t))

/-- The payload of `_write_file`, with the passphrase and random bytes where it is encrypted. -/
def filePayload (kind : Kind) (entry : Text) (fields : Obj Text Text)
    (encrypt : Option (Text × Nonces)) : Data :=
  let payload := (Obj.empty.set kind.marker (.scalar (.text entry))).set "schema_version".toList
    (.scalar (.text "1.0".toList))
  match encrypt with
  | some (passphrase, r) =>
    payload.assign ((encryptCascade lib.suite passphrase r
      (encodeUtf8 (lib.dump (textFields fields)))).map fun e => (e.1, .scalar e.2))
  | none =>
    (payload.set "unencrypted".toList (.scalar (.bool true))).assign (textFields fields).entries

/-- `_write_file(out_path, marker, fields, encrypt, passphrase)`. -/
def writeFile (kind : Kind) (files : Files) (dir name entry : Text) (fields : Obj Text Text)
    (encrypt : Option (Text × Nonces)) : Files :=
  files.write dir name (lib.dump (filePayload lib kind entry fields encrypt))

/-- `write_account_file`. -/
def writeAccountFile := writeFile lib .cloud

/-- `write_credential_file`. -/
def writeCredentialFile := writeFile lib .service

/-- `str.upper()` of a character, where it gives ASCII letters. -/
def upperChar (c : Char) : Text :=
  match [('ß', "SS"), ('ŉ', "ʼN"), ('ǰ', "J̌"), ('ẖ', "H̱"), ('ẗ', "T̈"), ('ẘ', "W̊"), ('ẙ', "Y̊"),
    ('ẚ', "Aʾ"), ('ﬀ', "FF"), ('ﬁ', "FI"), ('ﬂ', "FL"), ('ﬃ', "FFI"), ('ﬄ', "FFL"), ('ﬅ', "ST"),
    ('ﬆ', "ST"), ('ı', "I"), ('ſ', "S")].lookup c with
  | some t => t.toList
  | none => [c.toUpper]

/-- `SENSITIVE_HINTS`. -/
def sensitiveHints : List Text :=
  ["SECRET", "PASSWORD", "_TOKEN", "APPLICATION_KEY", "APPLICATION_SECRET", "CONSUMER_KEY",
    "ACCESS_KEY_SECRET"].map String.toList

/-- `_looks_sensitive(key)`. -/
def looksSensitive (key : Text) : Bool :=
  sensitiveHints.any fun h => (key.flatMap upperChar).tails.any fun u => h.isPrefixOf u

/-- `sensitive_plaintext_fields(data)`. -/
def sensitivePlaintextFields (data : Data) : List Text :=
  data.keys.filter fun k =>
    (match data.get k with
      | some (.scalar (.text _)) => true
      | _ => false) &&
      k ≠ "cloudtype".toList && k ≠ "credential_kind".toList && looksSensitive k

/-- The loop of `write_encrypted_copy`; none where a value is not a text. -/
def encryptFields (passphrase : Text) (r : Text → Nonces) : List Text → Data → Option Data
  | [], data => some data
  | k :: ks, data =>
    match data.get k with
    | some (.scalar (.text t)) => encryptFields passphrase r ks
        (data.set k (.mapping (encryptCascade lib.suite passphrase (r k) (encodeUtf8 t))))
    | _ => none

/-- `path.stem`. -/
def stem (name : Text) : Text :=
  let ext := name.rtakeWhile (· ≠ '.')
  let base := name.take (name.length - ext.length - 1)
  if base = [] ∨ ext = [] ∨ ext.length = name.length then name else base

/-- `write_encrypted_copy(path, data, keys, passphrase)`: the files, and the name of the copy. -/
def writeEncryptedCopy (files : Files) (dir name : Text) (data : Data) (keys : List Text)
    (passphrase : Text) (r : Text → Nonces) : Option (Files × Text) :=
  (encryptFields lib passphrase r keys data).map fun data =>
    let out := stem name ++ ".encrypted.yaml".toList
    (files.write dir out (lib.dump data), out)

/-! ## Passphrases -/

/-- Where passphrases come from: the environment, and what is answered to a prompt, attempt by
attempt; none where nobody can be asked. -/
structure Session where
  env : Option Text
  ask : Option (Nat → Text)

/-- `passphrase_from_env()`. -/
def Session.passphraseFromEnv (s : Session) : Option Text := s.env.filter (· ≠ [])

/-- The passphrase is the one that is given. -/
def Session.Gives (s : Session) (passphrase : Text) : Prop :=
  s.passphraseFromEnv = some passphrase ∨ ∃ answers, s.ask = some answers ∧ ∀ i, answers i = passphrase

/-- `_PASSPHRASE_CACHE`. -/
abbrev Cache := Text → Option Text

/-- `str(e)` of a `DecryptionError`. -/
def errorText (envelope : Text → Option Scalar) : DecryptionError → Text
  | .unrecognised =>
    let shown (k : String) := match envelope k.toList with
      | some v => v.str
      | none => "None".toList
    "unrecognised kdf/cipher in credential envelope: ".toList ++ shown "kdf" ++ "/".toList ++
      shown "cipher" ++ " (expected argon2id/aes-256-gcm+chacha20-poly1305)".toList
  | .malformed => "malformed credential envelope: ".toList ++ lib.malformed
  | .wrongPassphrase => "wrong passphrase, or the credential file is corrupt/tampered".toList

/-- The attempts that are left, from the `i`-th on: the value and the passphrase that fits. -/
def askPassphrase (answers : Nat → Text) (envelope : Text → Option Scalar) (label : Text) :
    Nat → Nat → Except DecryptionError (Bytes × Text)
  | 0, _ => .error .wrongPassphrase
  | left + 1, i =>
    match decryptCascade lib.suite (answers i) envelope with
    | .ok m => .ok (m, answers i)
    | .error e => if left = 0 then .error e else askPassphrase answers envelope label left (i + 1)

/-- `_decrypt_value(envelope, cache_key, label, passphrase_prompt)`. -/
def decryptValue (s : Session) (cache : Cache) (envelope : Text → Option Scalar) (cacheKey label : Text) :
    Except Text Bytes × Cache :=
  match (cache cacheKey).bind fun pw => (decryptCascade lib.suite pw envelope).toOption with
  | some m => (.ok m, cache)
  | none =>
    let cache := Function.update cache cacheKey none
    let asking : Option (Except Text Bytes × Cache) := s.ask.map fun answers =>
      match askPassphrase lib answers envelope label 3 0 with
      | .ok (m, pw) => (.ok m, Function.update cache cacheKey (some pw))
      | .error e => (.error (label ++ ": ".toList ++ errorText lib envelope e), cache)
    match s.passphraseFromEnv with
    | some pw =>
      match decryptCascade lib.suite pw envelope with
      | .ok m => (.ok m, Function.update cache cacheKey (some pw))
      | .error e => asking.getD (.error (label ++ ": ".toList ++ errorText lib envelope e ++
          " (from $LAB_CREDENTIALS_PASSPHRASE)".toList), cache)
    | none => asking.getD (.error (label ++
        ": it is encrypted and there is no terminal to ask for its passphrase — set $LAB_CREDENTIALS_PASSPHRASE for this run".toList),
        cache)

/-! ## Loading -/

/-- `_CLOUD_ACCOUNT_EXTS`. -/
def cloudAccountExts : List Text := [".yaml", ".yml", ".json", ".cfg"].map String.toList

/-- `cloud_account_path(name, config)`, for the directories of the configuration: the directory and the
suffix. -/
def cloudAccountPath (files : Files) (dirs : List Text) (name : Text) : Option (Text × Text) :=
  (dirs.flatMap fun d => cloudAccountExts.map fun ext => (d, ext)).find? fun p =>
    (files p.1 (name ++ p.2)).isSome

/-- What loading comes to: data, an error, or an exception. -/
inductive Loaded
  | data (d : Data)
  | error (message : Text)
  | raises

/-- The loop over the values of a file that is not encrypted as a whole. -/
def decryptFields (s : Session) (path name : Text) : List Text → Data → Cache → Loaded × Cache
  | [], data, cache => (.data data, cache)
  | k :: ks, data, cache =>
    match (data.get k).bind Value.envelope with
    | none => decryptFields s path name ks data cache
    | some es =>
      match decryptValue lib s cache (dictGet es) (path ++ "::".toList ++ k)
        (k ++ " (".toList ++ name ++ ")".toList) with
      | (.error e, cache) => (.error e, cache)
      | (.ok m, cache) =>
        match decodeUtf8 m with
        | none => (.raises, cache)
        | some t => decryptFields s path name ks (data.set k (.scalar (.text t))) cache

/-- `data["CLOUDTYPE"] = cloudtype`, after the values are decrypted. -/
def Loaded.mark (kind : Kind) (entry : Text) : Loaded → Loaded
  | data d => .data (d.set kind.key (.scalar (.text entry)))
  | l => l

/-- The data without its markers, `unencrypted` and `schema_version`. -/
def withoutMarkers (kind : Kind) (data : Data) : Data :=
  ((data.filter fun e => !kind.isMarker e.1).erase "unencrypted".toList).erase "schema_version".toList

/-- The marker that is popped last. -/
def markerOf (kind : Kind) (data : Data) : Text :=
  match (data.keys.filter kind.isMarker).getLast? with
  | some k => ((data.get k).map (markerText lib)).getD []
  | none => []

/-- What follows once a file is parsed. -/
def loadData (kind : Kind) (s : Session) (cache : Cache) (path name : Text) (data : Data) :
    Loaded × Cache :=
  let subject := kind.noun ++ " '".toList ++ name ++ "'".toList
  let entry := markerOf lib kind data
  if entry = [] then
    (.error (subject ++ " (".toList ++ path ++ ") has no '".toList ++ kind.marker ++ "' — set it to ".toList ++
      kind.examples), cache)
  else
    let data := withoutMarkers kind data
    if data.get "encrypted".toList = some (.scalar (.bool true)) then
      match decryptValue lib s cache (fun k => (data.get k).map (Value.toScalar lib)) path subject with
      | (.error e, cache) => (.error e, cache)
      | (.ok m, cache) =>
        match decodeUtf8 m with
        | none => (.raises, cache)
        | some t =>
          match lib.load t with
          | .error e => (.error (subject ++ " (".toList ++ path ++
              ") decrypted, but the plaintext isn't valid YAML: ".toList ++ e), cache)
          | .ok (.other true) => (.error (subject ++ " (".toList ++ path ++
              ") decrypted payload must be a mapping".toList), cache)
          | .ok (.other false) => (Loaded.mark kind entry (.data Obj.empty), cache)
          | .ok (.mapping inner) => (Loaded.mark kind entry (.data inner), cache)
    else
      let (loaded, cache) := decryptFields lib s path name data.keys data cache
      (loaded.mark kind entry, cache)

/-- What a file of a suffix parses to. -/
def parseFile (ext text : Text) : Except Text Document :=
  if ext = ".yaml".toList ∨ ext = ".yml".toList then lib.load text else lib.parse ext text

/-- `try_load_cloud_account(name, config, passphrase_prompt)` and `try_load_service_credential`. -/
def tryLoad (kind : Kind) (files : Files) (dirs : List Text) (s : Session) (cache : Cache) (name : Text) :
    Loaded × Cache :=
  let subject := kind.noun ++ " '".toList ++ name ++ "'".toList
  match cloudAccountPath files dirs name with
  | none => (.error (subject ++ " not found — looked for <name>.\x7byaml,yml,json,cfg\x7d in: ".toList ++
      ", ".toList.intercalate dirs), cache)
  | some (dir, ext) =>
    let path := dir ++ "/".toList ++ name ++ ext
    match parseFile lib ext ((files dir (name ++ ext)).getD []) with
    | .error e => (.error (subject ++ " (".toList ++ path ++ ") failed to parse as ".toList ++ ext.drop 1 ++
        ": ".toList ++ e), cache)
    | .ok (.other _) => (.error (subject ++ " (".toList ++ path ++
        ") must be a mapping of key: value".toList), cache)
    | .ok (.mapping data) => loadData lib kind s cache path name data

/-- `try_load_cloud_account`. -/
def tryLoadCloudAccount := tryLoad lib .cloud

/-- `try_load_service_credential`. -/
def tryLoadServiceCredential := tryLoad lib .service

end LabInABox.Credentials
