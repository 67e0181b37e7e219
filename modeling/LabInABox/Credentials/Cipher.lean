import LabInABox.Objects
import LabInABox.Schema.Version
import LabInABox.Text.Base64

/-!
# Encrypting a credential

Model of `encrypt_cascade` and `decrypt_cascade` (`libs/crypto_store.py`): the envelope of a value, its
keys derived from a passphrase, and two ciphers one inside the other.

* Argon2id, HKDF and the two ciphers are parameters. Of the ciphers the code relies on two things: what
  was encrypted is decrypted by the same key, and another key is noticed.
* The random bytes of an envelope are arguments.

Results:
* `decryptCascade_encryptCascade`: the passphrase of an envelope gives back what is in it.
* `decryptCascade_ok`: any other passphrase gives back the same, or an error.
-/

namespace LabInABox.Credentials

open Text

abbrev Bytes := List UInt8

/-! ## Texts as bytes -/

/-- `t.encode("utf-8")`. -/
def encodeUtf8 (t : Text) : Bytes := (String.ofList t).toByteArray.data.toList

/-- `raw.decode("utf-8")`. -/
def decodeUtf8 (raw : Bytes) : Option Text := (String.fromUTF8? ⟨raw.toArray⟩).map String.toList

theorem decodeUtf8_encodeUtf8 (t : Text) : decodeUtf8 (encodeUtf8 t) = some t := by
  unfold decodeUtf8 encodeUtf8
  rw [Array.toArray_toList]
  have hv : (String.ofList t).toByteArray.IsValidUTF8 := (String.ofList t).isValidUTF8
  unfold String.fromUTF8?
  rw [dif_pos hv, Option.map_some]
  exact congrArg some (String.toList_ofList)

/-! ## Values -/

/-- A value in a mapping; `other` is anything else, by what `str` and `bool` make of it. -/
inductive Scalar
  | null
  | bool (b : Bool)
  | int (n : Int)
  | text (t : Text)
  | other (shown : Text) (truthy : Bool)
  deriving DecidableEq

/-- `str(value)`. -/
def Scalar.str : Scalar → Text
  | null => "None".toList
  | bool true => "True".toList
  | bool false => "False".toList
  | int n => (toString n).toList
  | text t => t
  | other shown _ => shown

/-- `bool(value)`. -/
def Scalar.truthy : Scalar → Bool
  | null => false
  | bool b => b
  | int n => n ≠ 0
  | text t => t ≠ []
  | other _ truthy => truthy

/-- `int(value)`. -/
def Scalar.toInt : Scalar → Option Int
  | int n => some n
  | bool b => some (if b then 1 else 0)
  | text t => Schema.parseInt t
  | _ => none

/-- The text, of a value that is one. -/
def Scalar.toText : Scalar → Option Text
  | text t => some t
  | _ => none

/-! ## Ciphers -/

/-- An authenticated cipher, without associated data. -/
structure Aead where
  encrypt : (key nonce plaintext : Bytes) → Bytes
  decrypt : (key nonce ciphertext : Bytes) → Option Bytes
  decrypt_encrypt : ∀ key nonce m, decrypt key nonce (encrypt key nonce m) = some m
  authentic : ∀ key key' nonce m, key' ≠ key → decrypt key' nonce (encrypt key nonce m) = none

/-- Argon2id, HKDF-SHA512 and the two ciphers. -/
structure Suite where
  kdf : (passphrase salt : Bytes) → (timeCost memoryCostKib parallelism : Int) → Bytes
  hkdf : (master info salt : Bytes) → Bytes
  aes : Aead
  chacha : Aead

/-- The random bytes of an envelope. -/
structure Nonces where
  salt : Bytes
  nonce1 : Bytes
  nonce2 : Bytes

/-- Why an envelope is not decrypted. -/
inductive DecryptionError
  | unrecognised
  | malformed
  | wrongPassphrase
  deriving DecidableEq

variable (suite : Suite)

/-- `derive_master_key` and `split_keys`. -/
def deriveKeys (passphrase : Text) (salt : Bytes) (timeCost memoryCostKib parallelism : Int) :
    Bytes × Bytes :=
  let master := suite.kdf (encodeUtf8 passphrase) salt timeCost memoryCostKib parallelism
  (suite.hkdf master (encodeUtf8 "lab-in-a-box:credentials:aes-layer".toList) salt,
    suite.hkdf master (encodeUtf8 "lab-in-a-box:credentials:chacha-layer".toList) salt)

/-- `encrypt_cascade(passphrase, plaintext_bytes)`. -/
def encryptCascade (passphrase : Text) (r : Nonces) (plaintext : Bytes) : List (Text × Scalar) :=
  let keys := deriveKeys suite passphrase r.salt 3 262144 4
  let intermediate := suite.aes.encrypt keys.1 r.nonce1 plaintext
  let ciphertext := suite.chacha.encrypt keys.2 r.nonce2 intermediate
  [("encrypted".toList, .bool true), ("kdf".toList, .text "argon2id".toList),
    ("kdf_time_cost".toList, .int 3), ("kdf_memory_cost_kib".toList, .int 262144),
    ("kdf_parallelism".toList, .int 4), ("cipher".toList, .text "aes-256-gcm+chacha20-poly1305".toList),
    ("salt".toList, .text (b64encode r.salt)), ("nonce1".toList, .text (b64encode r.nonce1)),
    ("nonce2".toList, .text (b64encode r.nonce2)), ("ciphertext".toList, .text (b64encode ciphertext))]

/-- `_unb64(envelope[key])`. -/
def envelopeBytes (envelope : Text → Option Scalar) (key : String) : Option Bytes :=
  ((envelope key.toList).bind Scalar.toText).bind b64decode

/-- `int(envelope.get(key, default))`. -/
def envelopeInt (envelope : Text → Option Scalar) (key : String) (default : Int) : Option Int :=
  match envelope key.toList with
  | none => some default
  | some v => v.toInt

/-- `decrypt_cascade(passphrase, envelope)`. -/
def decryptCascade (passphrase : Text) (envelope : Text → Option Scalar) :
    Except DecryptionError Bytes :=
  if envelope "kdf".toList ≠ some (.text "argon2id".toList) ∨
      envelope "cipher".toList ≠ some (.text "aes-256-gcm+chacha20-poly1305".toList) then
    .error .unrecognised
  else
    match envelopeBytes envelope "salt", envelopeBytes envelope "nonce1", envelopeBytes envelope "nonce2",
      envelopeBytes envelope "ciphertext", envelopeInt envelope "kdf_time_cost" 3,
      envelopeInt envelope "kdf_memory_cost_kib" 262144, envelopeInt envelope "kdf_parallelism" 4 with
    | some salt, some nonce1, some nonce2, some ciphertext, some time, some memory, some parallelism =>
      let keys := deriveKeys suite passphrase salt time memory parallelism
      match (suite.chacha.decrypt keys.2 nonce2 ciphertext).bind (suite.aes.decrypt keys.1 nonce1) with
      | some plaintext => .ok plaintext
      | none => .error .wrongPassphrase
    | _, _, _, _, _, _, _ => .error .malformed

variable {suite} {passphrase : Text} {r : Nonces} {plaintext : Bytes} {envelope : Text → Option Scalar}

/-- The keys of an envelope. -/
def envelopeKeys : List Text :=
  ["encrypted", "kdf", "kdf_time_cost", "kdf_memory_cost_kib", "kdf_parallelism", "cipher", "salt", "nonce1",
    "nonce2", "ciphertext"].map String.toList

/-- A mapping that has the entries of an envelope. -/
def Carries (envelope : Text → Option Scalar) (es : List (Text × Scalar)) : Prop :=
  ∀ k ∈ envelopeKeys, envelope k = dictGet es k

/-- What decrypting with any passphrase comes to. -/
theorem decryptCascade_eq (passphrase' : Text)
    (h : Carries envelope (encryptCascade suite passphrase r plaintext)) :
    decryptCascade suite passphrase' envelope =
      match (suite.chacha.decrypt (deriveKeys suite passphrase' r.salt 3 262144 4).2 r.nonce2
          (suite.chacha.encrypt (deriveKeys suite passphrase r.salt 3 262144 4).2 r.nonce2
            (suite.aes.encrypt (deriveKeys suite passphrase r.salt 3 262144 4).1 r.nonce1 plaintext))).bind
          (suite.aes.decrypt (deriveKeys suite passphrase' r.salt 3 262144 4).1 r.nonce1) with
      | some plaintext => .ok plaintext
      | none => .error .wrongPassphrase := by
  have hkdf : envelope "kdf".toList = some (.text "argon2id".toList) := (h _ (by decide)).trans rfl
  have hcipher : envelope "cipher".toList = some (.text "aes-256-gcm+chacha20-poly1305".toList) :=
    (h _ (by decide)).trans rfl
  have hbytes (k : String) (raw : Bytes) (hk : envelope k.toList = some (.text (b64encode raw))) :
      envelopeBytes envelope k = some raw := by
    unfold envelopeBytes
    rw [hk, Option.bind_some, Scalar.toText, Option.bind_some, b64decode_b64encode]
  have hint (k : String) (n d : Int) (hk : envelope k.toList = some (.int n)) :
      envelopeInt envelope k d = some n := by
    unfold envelopeInt
    rw [hk]
    rfl
  have hsalt := hbytes "salt" r.salt ((h _ (by decide)).trans rfl)
  have hnonce1 := hbytes "nonce1" r.nonce1 ((h _ (by decide)).trans rfl)
  have hnonce2 := hbytes "nonce2" r.nonce2 ((h _ (by decide)).trans rfl)
  have hciphertext := hbytes "ciphertext" _ ((h _ (by decide)).trans rfl)
  have htime := hint "kdf_time_cost" 3 3 ((h _ (by decide)).trans rfl)
  have hmemory := hint "kdf_memory_cost_kib" 262144 262144 ((h _ (by decide)).trans rfl)
  have hparallelism := hint "kdf_parallelism" 4 4 ((h _ (by decide)).trans rfl)
  unfold decryptCascade
  rw [if_neg (by rw [hkdf, hcipher]; simp), hsalt, hnonce1, hnonce2, hciphertext, htime, hmemory,
    hparallelism]

/-- **The passphrase of an envelope** gives back what is in it. -/
theorem decryptCascade_encryptCascade
    (h : Carries envelope (encryptCascade suite passphrase r plaintext)) :
    decryptCascade suite passphrase envelope = .ok plaintext := by
  rw [decryptCascade_eq passphrase h, suite.chacha.decrypt_encrypt, Option.bind_some,
    suite.aes.decrypt_encrypt]

/-- **Any passphrase** gives back what is in it, or an error. -/
theorem decryptCascade_ok {passphrase' : Text} {m : Bytes}
    (h : Carries envelope (encryptCascade suite passphrase r plaintext))
    (hm : decryptCascade suite passphrase' envelope = .ok m) : m = plaintext := by
  rw [decryptCascade_eq passphrase' h] at hm
  by_cases hc : (deriveKeys suite passphrase' r.salt 3 262144 4).2 =
      (deriveKeys suite passphrase r.salt 3 262144 4).2
  · rw [hc, suite.chacha.decrypt_encrypt, Option.bind_some] at hm
    by_cases ha : (deriveKeys suite passphrase' r.salt 3 262144 4).1 =
        (deriveKeys suite passphrase r.salt 3 262144 4).1
    · rw [ha, suite.aes.decrypt_encrypt] at hm
      exact (Except.ok.inj hm).symm
    · rw [suite.aes.authentic _ _ _ _ ha] at hm
      cases hm
  · rw [suite.chacha.authentic _ _ _ _ hc, Option.bind_none] at hm
    cases hm

end LabInABox.Credentials
