import LabInABox.Credentials.Parsed
import LabInABox.Credentials.RoundTrip

/-!
# What loading a credential raises

Over the model of `Parsed`, when the functions of `libs/primary.py` that say they never raise do not.

* A passphrase opens an envelope, misses it (a `DecryptionError`, which is caught), or breaks it: it
  raises something else, which nothing catches.
* `tried` has the passphrases for an envelope in the order they are tried, and only those up to the
  first that does not miss count.

Results:
* `opens_encryptCascade`: an envelope that the tools wrote opens with its passphrase.
* `decryptValue_returns_iff`: `_decrypt_value` returns exactly when no passphrase that is tried breaks
  the envelope.
* `neverRaises_iff`: so loading and listing return exactly for certain files.
-/

namespace LabInABox.Credentials.Parsed

open Text

variable (lib : Library)

/-! ## One passphrase -/

/-- Argon2id, the encoding or a cipher refuses what it is given. The inner cipher is reached by what fits
the outer one. -/
def Refuses (f : Fields) : Passphrase → Prop
  | .surrogates => True
  | .text t => lib.kdfTakes f.salt f.timeCost f.memoryCostKib f.parallelism = false ∨
      lib.chachaTakes f.nonce2 = false ∨
      lib.aesTakes f.nonce1 = false ∧
        (lib.suite.chacha.decrypt (f.keys lib t).2 f.nonce2 f.ciphertext).isSome = true

/-- A passphrase breaks an envelope: a cost of it is infinite, or one of its sizes is refused. -/
def Breaks (envelope : Envelope) (pw : Passphrase) : Prop :=
  HeaderKnown envelope ∧ (readFields envelope = .error .overflowError ∨
    ∃ f, readFields envelope = .ok f ∧ Refuses lib f pw)

/-- A passphrase opens an envelope. -/
def Opens (envelope : Envelope) (pw : Passphrase) (m : Bytes) : Prop :=
  HeaderKnown envelope ∧ ∃ f t, readFields envelope = .ok f ∧ pw = .text t ∧ ¬ Refuses lib f pw ∧
    (lib.suite.chacha.decrypt (f.keys lib t).2 f.nonce2 f.ciphertext).bind
      (lib.suite.aes.decrypt (f.keys lib t).1 f.nonce1) = some m

/-- A passphrase misses an envelope. -/
def Misses (envelope : Envelope) (pw : Passphrase) : Prop :=
  ¬ Breaks lib envelope pw ∧ ∀ m, ¬ Opens lib envelope pw m

variable {lib} {envelope : Envelope} {pw : Passphrase} {f : Fields}

/-- What is raised is caught, or it is of a cost that is infinite. -/
def Tame {α : Type} (x : Except Exn α) : Prop :=
  ∀ e, x = .error e → e.isMalformed = true ∨ e = .overflowError

theorem Tame.ok {α : Type} (a : α) : Tame (.ok a : Except Exn α) := fun _ h => by cases h

theorem Tame.getD {α : Type} (x : Option α) : Tame ((x.map Except.ok).getD (.error .valueError)) := by
  cases x with
  | none =>
    intro e h
    obtain rfl := Except.error.inj h
    exact Or.inl rfl
  | some a => exact Tame.ok a

theorem Tame.error {α : Type} {e : Exn} (h : e.isMalformed = true ∨ e = .overflowError) :
    Tame (.error e : Except Exn α) := by
  intro e' he
  obtain rfl := Except.error.inj he
  exact h

theorem Tame.bind {α β : Type} {x : Except Exn α} {g : α → Except Exn β} (hx : Tame x)
    (hg : ∀ a, Tame (g a)) : Tame (x >>= g) := by
  intro e h
  cases x with
  | error e' =>
    have he : (Except.error e' : Except Exn β) = .error e := h
    exact hx e (by rw [Except.error.inj he])
  | ok a => exact hg a e h

theorem tame_b64decode (v : Item) : Tame v.b64decode := by
  cases v with
  | text t => exact Tame.getD _
  | bytes raw => exact Tame.getD _
  | _ => exact Tame.error (Or.inl rfl)

theorem tame_toInt (v : Item) : Tame v.toInt := by
  cases v with
  | bool b => exact Tame.ok _
  | int n => exact Tame.ok _
  | float x =>
    cases x with
    | finite q => exact Tame.ok _
    | infinite => exact Tame.error (Or.inr rfl)
    | nan => exact Tame.error (Or.inl rfl)
  | text t => exact Tame.getD _
  | bytes raw =>
    rw [Item.toInt]
    split
    · exact Tame.getD _
    · exact Tame.error (Or.inl rfl)
  | _ => exact Tame.error (Or.inl rfl)

theorem tame_fieldBytes (envelope : Envelope) (key : String) : Tame (fieldBytes envelope key) := by
  unfold fieldBytes
  split
  · exact Tame.error (Or.inl rfl)
  · exact tame_b64decode _

theorem tame_fieldInt (envelope : Envelope) (key : String) (d : Int) : Tame (fieldInt envelope key d) := by
  unfold fieldInt
  split
  · exact Tame.ok _
  · exact tame_toInt _

/-- Reading the fields raises nothing else. -/
theorem tame_readFields (envelope : Envelope) : Tame (readFields envelope) :=
  (tame_fieldBytes _ _).bind fun _ => (tame_fieldBytes _ _).bind fun _ => (tame_fieldBytes _ _).bind fun _ =>
    (tame_fieldBytes _ _).bind fun _ => (tame_fieldInt _ _ _).bind fun _ => (tame_fieldInt _ _ _).bind
      fun _ => (tame_fieldInt _ _ _).bind fun _ => Tame.ok _

theorem openLayer_of_takes {cipher : Aead} {takes : Bytes → Bool} {key nonce c : Bytes}
    (h : takes nonce = true) : openLayer cipher takes key nonce c =
      ((cipher.decrypt key nonce c).map Except.ok).getD (.error .invalidTag) := if_pos h

theorem openLayer_of_not_takes {cipher : Aead} {takes : Bytes → Bool} {key nonce c : Bytes}
    (h : takes nonce = false) : openLayer cipher takes key nonce c = .error .valueError := by
  unfold openLayer
  rw [h]
  rfl

/-- A size that is refused raises a `ValueError`. -/
theorem decryptCascade_of_refuses (hk : HeaderKnown envelope) (hf : readFields envelope = .ok f)
    (h : Refuses lib f pw) : decryptCascade lib pw envelope = .error .valueError := by
  unfold decryptCascade
  rw [if_neg (not_not_intro hk), hf]
  dsimp only
  unfold keysOf
  cases hkdf : lib.kdfTakes f.salt f.timeCost f.memoryCostKib f.parallelism with
  | false => rfl
  | true =>
    rw [if_pos rfl]
    cases pw with
    | surrogates => rfl
    | text t =>
      rcases h with h | h | ⟨hn, hfit⟩
      · rw [hkdf] at h
        cases h
      · dsimp only
        rw [openLayer_of_not_takes h]
        rfl
      · dsimp only
        cases hc : lib.chachaTakes f.nonce2 with
        | false =>
          rw [openLayer_of_not_takes hc]
          rfl
        | true =>
          obtain ⟨c, hdec⟩ := Option.isSome_iff_exists.mp hfit
          have hinner : (Except.ok c : Except Exn Bytes).bind
              (openLayer lib.suite.aes lib.aesTakes (f.keys lib t).1 f.nonce1) = .error .valueError :=
            openLayer_of_not_takes hn
          rw [openLayer_of_takes hc, hdec, Option.map_some, Option.getD_some, hinner]

/-- Sizes that are taken: what the two ciphers make of it, or a `DecryptionError`. -/
theorem decryptCascade_of_not_refuses {t : Text} (hk : HeaderKnown envelope)
    (hf : readFields envelope = .ok f) (h : ¬ Refuses lib f (.text t)) :
    decryptCascade lib (.text t) envelope =
      (((lib.suite.chacha.decrypt (f.keys lib t).2 f.nonce2 f.ciphertext).bind
        (lib.suite.aes.decrypt (f.keys lib t).1 f.nonce1)).map Except.ok).getD (.error (.decryption
          "wrong passphrase, or the credential file is corrupt/tampered".toList)) := by
  obtain ⟨hkdf, hrest⟩ := not_or.mp h
  obtain ⟨hc, hn⟩ := not_or.mp hrest
  rw [Bool.not_eq_false] at hkdf hc
  unfold decryptCascade
  rw [if_neg (not_not_intro hk), hf]
  dsimp only
  unfold keysOf
  rw [if_pos hkdf]
  dsimp only
  rw [openLayer_of_takes hc]
  cases hdec : lib.suite.chacha.decrypt (f.keys lib t).2 f.nonce2 f.ciphertext with
  | none => rfl
  | some c =>
    rw [hdec] at hn
    have ha : lib.aesTakes f.nonce1 = true := by
      by_contra hne
      exact hn ⟨Bool.eq_false_iff.mpr hne, rfl⟩
    have hinner : (Except.ok c : Except Exn Bytes).bind
        (openLayer lib.suite.aes lib.aesTakes (f.keys lib t).1 f.nonce1) =
        ((lib.suite.aes.decrypt (f.keys lib t).1 f.nonce1 c).map Except.ok).getD (.error .invalidTag) :=
      openLayer_of_takes ha
    rw [Option.map_some, Option.getD_some, Option.bind_some, hinner]
    cases lib.suite.aes.decrypt (f.keys lib t).1 f.nonce1 c with
    | none => rfl
    | some m => rfl

variable (lib) in
/-- A passphrase opens an envelope, misses it or breaks it, and decrypting says which. -/
theorem decryptCascade_cases (envelope : Envelope) (pw : Passphrase) :
    (Breaks lib envelope pw ∧ ∃ e, (∀ msg, e ≠ .decryption msg) ∧
      decryptCascade lib pw envelope = .error e) ∨
    (∃ m, Opens lib envelope pw m ∧ decryptCascade lib pw envelope = .ok m) ∨
    Misses lib envelope pw ∧ ∃ msg, decryptCascade lib pw envelope = .error (.decryption msg) := by
  by_cases hk : HeaderKnown envelope
  · cases hf : readFields envelope with
    | error e =>
      have hd : decryptCascade lib pw envelope = if e.isMalformed then
          .error (.decryption ("malformed credential envelope: ".toList ++ lib.message e))
        else .error e := by
        unfold decryptCascade
        rw [if_neg (not_not_intro hk), hf]
      rcases tame_readFields envelope e hf with he | rfl
      · refine Or.inr (Or.inr ⟨⟨?_, ?_⟩, _, hd.trans (if_pos he)⟩)
        · rintro ⟨_, ho | ⟨f, hf', _⟩⟩
          · obtain rfl := Except.error.inj (hf.symm.trans ho)
            cases he
          · cases hf.symm.trans hf'
        · rintro m ⟨_, f, _, hf', _⟩
          cases hf.symm.trans hf'
      · exact Or.inl ⟨⟨hk, Or.inl hf⟩, _, fun _ h => (by cases h), hd⟩
    | ok f =>
      by_cases hr : Refuses lib f pw
      · exact Or.inl ⟨⟨hk, Or.inr ⟨f, hf, hr⟩⟩, _, fun _ h => (by cases h),
          decryptCascade_of_refuses hk hf hr⟩
      · cases pw with
        | surrogates => exact absurd trivial hr
        | text t =>
          have hd := decryptCascade_of_not_refuses hk hf hr
          cases hb : (lib.suite.chacha.decrypt (f.keys lib t).2 f.nonce2 f.ciphertext).bind
              (lib.suite.aes.decrypt (f.keys lib t).1 f.nonce1) with
          | some m =>
            rw [hb] at hd
            exact Or.inr (Or.inl ⟨m, ⟨hk, f, t, hf, rfl, hr, hb⟩, hd⟩)
          | none =>
            rw [hb] at hd
            refine Or.inr (Or.inr ⟨⟨?_, ?_⟩, _, hd⟩)
            · rintro ⟨_, ho | ⟨f', hf', hr'⟩⟩
              · cases hf.symm.trans ho
              · obtain rfl := Except.ok.inj (hf.symm.trans hf')
                exact hr hr'
            · rintro m ⟨_, f', t', hf', ht, _, hm⟩
              obtain rfl := Except.ok.inj (hf.symm.trans hf')
              obtain rfl := Passphrase.text.inj ht
              cases hb.symm.trans hm
  · refine Or.inr (Or.inr ⟨⟨fun h => hk h.1, fun m h => hk h.1⟩, unrecognised lib envelope, ?_⟩)
    unfold decryptCascade
    rw [if_pos hk]

theorem Opens.not_breaks {m : Bytes} (h : Opens lib envelope pw m) : ¬ Breaks lib envelope pw := by
  obtain ⟨_, f, t, hf, _, hr, _⟩ := h
  rintro ⟨_, ho | ⟨f', hf', hr'⟩⟩
  · cases hf.symm.trans ho
  · obtain rfl := Except.ok.inj (hf.symm.trans hf')
    exact hr hr'

theorem Opens.unique {m m' : Bytes} (h : Opens lib envelope pw m) (h' : Opens lib envelope pw m') :
    m = m' := by
  obtain ⟨_, f, t, hf, rfl, _, hm⟩ := h
  obtain ⟨_, f', t', hf', ht, _, hm'⟩ := h'
  obtain rfl := Except.ok.inj (hf.symm.trans hf')
  obtain rfl := Passphrase.text.inj ht
  exact Option.some.inj (hm.symm.trans hm')

/-! ## What the tools wrote -/

/-- A value that the tools write. -/
def ofScalar : Scalar → Item
  | .null => .null
  | .bool b => .bool b
  | .int n => .int n
  | .text t => .text t
  | .other _ truthy => .other 0 truthy

/-- **What was encrypted opens** with its passphrase, where the ciphers take the sizes it was written with. -/
theorem opens_encryptCascade {t : Text} {r : Nonces} {m : Bytes}
    (h : ∀ k ∈ envelopeKeys, envelope k = (dictGet (encryptCascade lib.suite t r m) k).map ofScalar)
    (hkdf : lib.kdfTakes r.salt 3 262144 4 = true) (hc : lib.chachaTakes r.nonce2 = true)
    (ha : lib.aesTakes r.nonce1 = true) : Opens lib envelope (.text t) m := by
  have hbytes (k : String) (raw : Bytes) (hk : envelope k.toList = some (.text (b64encode raw))) :
      fieldBytes envelope k = .ok raw := by
    unfold fieldBytes
    rw [hk]
    dsimp only
    rw [Item.b64decode, unb64_b64encode]
    rfl
  have hint (k : String) (n d : Int) (hk : envelope k.toList = some (.int n)) :
      fieldInt envelope k d = .ok n := by
    unfold fieldInt
    rw [hk]
    rfl
  have hknown : HeaderKnown envelope := by
    unfold HeaderKnown
    rw [h _ (by decide), h _ (by decide)]
    exact ⟨rfl, rfl⟩
  refine ⟨hknown, ⟨r.salt, r.nonce1, r.nonce2, lib.suite.chacha.encrypt
    (deriveKeys lib.suite t r.salt 3 262144 4).2 r.nonce2 (lib.suite.aes.encrypt
      (deriveKeys lib.suite t r.salt 3 262144 4).1 r.nonce1 m), 3, 262144, 4⟩, t, ?_, rfl, ?_, ?_⟩
  · unfold readFields
    rw [hbytes "salt" _ (h _ (by decide)), hbytes "nonce1" _ (h _ (by decide)),
      hbytes "nonce2" _ (h _ (by decide)), hbytes "ciphertext" _ (h _ (by decide)),
      hint "kdf_time_cost" _ _ (h _ (by decide)), hint "kdf_memory_cost_kib" _ _ (h _ (by decide)),
      hint "kdf_parallelism" _ _ (h _ (by decide))]
    rfl
  · rintro (hn | hn | ⟨hn, _⟩)
    · cases hkdf.symm.trans hn
    · cases hc.symm.trans hn
    · cases ha.symm.trans hn
  · unfold Fields.keys
    rw [lib.suite.chacha.decrypt_encrypt, Option.bind_some, lib.suite.aes.decrypt_encrypt]

/-! ## The passphrases that are tried -/

/-- The passphrases for an envelope, in order: the one that is cached, the one of the environment, what is
answered to three prompts. -/
def tried (s : Session) (cached : Option Passphrase) (label : Text) : List Passphrase :=
  cached.toList ++ (s.passphraseFromEnv.toList ++
    s.ask.elim [] fun answers => (List.range' 0 3).map (answers (promptOf label)))

variable (lib)

/-- A passphrase of a list is tried: those ahead of it miss. -/
def Reached (envelope : Envelope) : List Passphrase → Passphrase → Prop
  | [], _ => False
  | q :: qs, pw => pw = q ∨ Misses lib envelope q ∧ Reached envelope qs pw

/-- No passphrase that is tried breaks the envelope. -/
def Survives (envelope : Envelope) (pws : List Passphrase) : Prop :=
  ∀ pw, Reached lib envelope pws pw → ¬ Breaks lib envelope pw

/-- The first passphrase that does not miss, with what it comes to. -/
def trial (envelope : Envelope) : List Passphrase → Option (Passphrase × Except Exn Bytes)
  | [] => none
  | pw :: pws =>
    match decryptCascade lib pw envelope with
    | .error (.decryption _) => trial envelope pws
    | r => some (pw, r)

variable {lib} {pws : List Passphrase}

theorem trial_cons_of_misses {msg : Text} (h : decryptCascade lib pw envelope = .error (.decryption msg)) :
    trial lib envelope (pw :: pws) = trial lib envelope pws := by
  rw [trial, h]

theorem trial_cons_of_ok {m : Bytes} (h : decryptCascade lib pw envelope = .ok m) :
    trial lib envelope (pw :: pws) = some (pw, .ok m) := by
  rw [trial, h]

theorem trial_cons_of_error {e : Exn} (he : ∀ msg, e ≠ .decryption msg)
    (h : decryptCascade lib pw envelope = .error e) :
    trial lib envelope (pw :: pws) = some (pw, .error e) := by
  rw [trial, h]
  cases e with
  | decryption msg => exact absurd rfl (he msg)
  | _ => rfl

/-- One passphrase at most is tried and does not miss. -/
theorem Reached.unique {pw pw' : Passphrase} :
    ∀ {pws : List Passphrase}, Reached lib envelope pws pw → Reached lib envelope pws pw' →
      ¬ Misses lib envelope pw → ¬ Misses lib envelope pw' → pw = pw'
  | _ :: _, Or.inl h, Or.inl h', _, _ => h.trans h'.symm
  | _ :: _, Or.inl h, Or.inr ⟨hmiss, _⟩, hne, _ => absurd (h ▸ hmiss) hne
  | _ :: _, Or.inr ⟨hmiss, _⟩, Or.inl h', _, hne' => absurd (h' ▸ hmiss) hne'
  | _ :: _, Or.inr ⟨_, h⟩, Or.inr ⟨_, h'⟩, hne, hne' => h.unique h' hne hne'

variable (lib envelope) in
/-- What the first that does not miss comes to says whether it opens the envelope or breaks it. -/
theorem trial_spec (pws : List Passphrase) :
    (trial lib envelope pws = none ∧ ∀ pw, Reached lib envelope pws pw → Misses lib envelope pw) ∨
    (∃ pw m, trial lib envelope pws = some (pw, .ok m) ∧ Reached lib envelope pws pw ∧
      Opens lib envelope pw m) ∨
    ∃ pw e, trial lib envelope pws = some (pw, .error e) ∧ Reached lib envelope pws pw ∧
      Breaks lib envelope pw := by
  induction pws with
  | nil => exact Or.inl ⟨rfl, fun _ h => h.elim⟩
  | cons pw pws ih =>
    rcases decryptCascade_cases lib envelope pw with ⟨hb, e, he, hd⟩ | ⟨m, hm, hd⟩ | ⟨hmiss, msg, hd⟩
    · exact Or.inr (Or.inr ⟨pw, e, trial_cons_of_error he hd, Or.inl rfl, hb⟩)
    · exact Or.inr (Or.inl ⟨pw, m, trial_cons_of_ok hd, Or.inl rfl, hm⟩)
    · rw [trial_cons_of_misses hd]
      rcases ih with ⟨ht, hall⟩ | ⟨pw', m, ht, hr, hm⟩ | ⟨pw', e, ht, hr, hb⟩
      · refine Or.inl ⟨ht, fun q hq => ?_⟩
        rcases hq with rfl | ⟨_, hq⟩
        · exact hmiss
        · exact hall q hq
      · exact Or.inr (Or.inl ⟨pw', m, ht, Or.inr ⟨hmiss, hr⟩, hm⟩)
      · exact Or.inr (Or.inr ⟨pw', e, ht, Or.inr ⟨hmiss, hr⟩, hb⟩)

/-! ## `_decrypt_value` -/

/-- Nothing is raised. -/
def Outcome.Returns {α : Type} : Outcome α → Prop
  | .raises _ => False
  | _ => True

/-- What a call comes to follows the first passphrase that does not miss. -/
def Follows (cacheKey : Text) (cache : Cache) (r : Outcome Bytes × Cache) :
    Option (Passphrase × Except Exn Bytes) → Prop
  | none => ∃ msg, r.1 = .error msg
  | some (pw, .ok m) => r = (.value m, Function.update cache cacheKey (some pw))
  | some (_, .error e) => r.1 = .raises e

variable {s : Session} {cache : Cache} {cacheKey label : Text}

theorem Follows.update {r : Outcome Bytes × Cache} {pw : Option Passphrase} :
    ∀ {t : Option (Passphrase × Except Exn Bytes)},
      Follows cacheKey (Function.update cache cacheKey pw) r t → Follows cacheKey cache r t
  | none, h => h
  | some (_, .ok _), h => by
    unfold Follows at h ⊢
    rw [h, Function.update_idem]
  | some (_, .error _), h => h

theorem askPassphrase_follows (answers : Nat → Passphrase) (left i : Nat) (last : Text) :
    Follows cacheKey cache (askPassphrase lib answers envelope cacheKey label cache left i last)
      (trial lib envelope ((List.range' i left).map answers)) := by
  induction left generalizing i last with
  | zero => exact ⟨_, rfl⟩
  | succ left ih =>
    rw [List.range'_succ, List.map_cons]
    rcases decryptCascade_cases lib envelope (answers i) with ⟨_, e, he, hd⟩ | ⟨m, _, hd⟩ | ⟨_, msg, hd⟩
    · rw [trial_cons_of_error he hd, askPassphrase, hd]
      cases e with
      | decryption msg => exact absurd rfl (he msg)
      | _ => rfl
    · rw [trial_cons_of_ok hd, askPassphrase, hd]
      rfl
    · rw [trial_cons_of_misses hd, askPassphrase, hd]
      exact ih (i + 1) msg

theorem decryptUncached_follows : Follows cacheKey cache (decryptUncached lib s envelope cacheKey label cache)
    (trial lib envelope (s.passphraseFromEnv.toList ++
      s.ask.elim [] fun answers => (List.range' 0 3).map (answers (promptOf label)))) := by
  unfold decryptUncached
  cases s.passphraseFromEnv with
  | none =>
    cases s.ask with
    | none => exact ⟨_, rfl⟩
    | some answers => exact askPassphrase_follows _ _ _ _
  | some pw =>
    rw [Option.toList_some, List.singleton_append]
    rcases decryptCascade_cases lib envelope pw with ⟨_, e, he, hd⟩ | ⟨m, _, hd⟩ | ⟨_, msg, hd⟩
    · rw [trial_cons_of_error he hd]
      dsimp only
      rw [hd]
      cases e with
      | decryption msg => exact absurd rfl (he msg)
      | _ => rfl
    · rw [trial_cons_of_ok hd]
      dsimp only
      rw [hd]
      rfl
    · rw [trial_cons_of_misses hd]
      dsimp only
      rw [hd]
      cases s.ask with
      | none => exact ⟨_, rfl⟩
      | some answers => exact askPassphrase_follows _ _ _ _

variable (lib) in
/-- `_decrypt_value` follows the first passphrase that does not miss. -/
theorem decryptValue_follows (s : Session) (cache : Cache) (envelope : Envelope) (cacheKey label : Text) :
 Follows cacheKey cache (decryptValue lib s cache envelope cacheKey label)
      (trial lib envelope (tried s (cache cacheKey) label)) := by
  unfold decryptValue tried
  cases hc : cache cacheKey with
  | none => exact decryptUncached_follows
  | some pw =>
    rw [Option.toList_some, List.singleton_append]
    dsimp only
    rcases decryptCascade_cases lib envelope pw with ⟨_, e, he, hd⟩ | ⟨m, _, hd⟩ | ⟨_, msg, hd⟩
    · rw [trial_cons_of_error he hd, hd]
      cases e with
      | decryption msg => exact absurd rfl (he msg)
      | _ => rfl
    · rw [trial_cons_of_ok hd, hd]
      have hsame : Function.update cache cacheKey (some pw) = cache := by
        rw [← hc, Function.update_eq_self]
      exact congrArg (Prod.mk _) hsame.symm
    · rw [trial_cons_of_misses hd, hd]
      exact decryptUncached_follows.update

variable (lib) in
/-- What `_decrypt_value` comes to: no passphrase opens the envelope, or the first that does not miss opens
it, or breaks it. -/
theorem decryptValue_cases (s : Session) (cache : Cache) (envelope : Envelope) (cacheKey label : Text) :
    ((∃ msg cache', decryptValue lib s cache envelope cacheKey label = (.error msg, cache')) ∧
      ∀ pw, Reached lib envelope (tried s (cache cacheKey) label) pw → Misses lib envelope pw) ∨
    (∃ pw m, decryptValue lib s cache envelope cacheKey label =
        (.value m, Function.update cache cacheKey (some pw)) ∧
      Reached lib envelope (tried s (cache cacheKey) label) pw ∧ Opens lib envelope pw m) ∨
    ∃ pw e cache', decryptValue lib s cache envelope cacheKey label = (.raises e, cache') ∧
      Reached lib envelope (tried s (cache cacheKey) label) pw ∧ Breaks lib envelope pw := by
  have hf := decryptValue_follows lib s cache envelope cacheKey label
  rcases trial_spec lib envelope (tried s (cache cacheKey) label) with
    ⟨ht, hall⟩ | ⟨pw, m, ht, hr, hm⟩ | ⟨pw, e, ht, hr, hb⟩
  · rw [ht] at hf
    obtain ⟨msg, hmsg⟩ := hf
    exact Or.inl ⟨⟨msg, _, Prod.ext hmsg rfl⟩, hall⟩
  · rw [ht] at hf
    exact Or.inr (Or.inl ⟨pw, m, hf, hr, hm⟩)
  · rw [ht] at hf
    exact Or.inr (Or.inr ⟨pw, e, _, Prod.ext hf rfl, hr, hb⟩)

section Surviving

variable {P : Passphrase → Bytes → Prop}

/-- Where no passphrase opens the envelope nothing is asked of what it holds. -/
theorem survives_of_misses (h : ∀ pw, Reached lib envelope pws pw → Misses lib envelope pw) :
    Survives lib envelope pws ∧ ∀ pw m, Reached lib envelope pws pw → Opens lib envelope pw m → P pw m :=
  ⟨fun pw hr => (h pw hr).1, fun pw m hr hm => absurd hm ((h pw hr).2 m)⟩

/-- Where one opens it, it is asked of that one. -/
theorem survives_iff_of_opens {m : Bytes} (hr : Reached lib envelope pws pw) (hm : Opens lib envelope pw m) :
    (Survives lib envelope pws ∧ ∀ pw m, Reached lib envelope pws pw → Opens lib envelope pw m → P pw m) ↔
      P pw m := by
  refine ⟨fun h => h.2 pw m hr hm, fun h => ⟨fun pw' hr' hb' => ?_, fun pw' m' hr' hm' => ?_⟩⟩
  · obtain rfl := hr.unique hr' (fun h => h.2 m hm) fun h => h.1 hb'
    exact hm.not_breaks hb'
  · obtain rfl := hr.unique hr' (fun h => h.2 m hm) fun h => h.2 m' hm'
    rw [hm'.unique hm]
    exact h

end Surviving

/-- **`_decrypt_value` returns** exactly when no passphrase that is tried breaks the envelope. -/
theorem decryptValue_returns_iff : (decryptValue lib s cache envelope cacheKey label).1.Returns ↔
    Survives lib envelope (tried s (cache cacheKey) label) := by
  rcases decryptValue_cases lib s cache envelope cacheKey label with
    ⟨⟨msg, cache', hd⟩, hall⟩ | ⟨pw, m, hd, hr, hm⟩ | ⟨pw, e, cache', hd, hr, hb⟩
  · rw [hd]
    exact ⟨fun _ pw hr => (hall pw hr).1, fun _ => trivial⟩
  · rw [hd]
    exact ⟨fun _ => ((survives_iff_of_opens (P := fun _ _ => True) hr hm).mpr trivial).1, fun _ => trivial⟩
  · rw [hd]
    exact ⟨fun h => h.elim, fun h => absurd hb (h pw hr)⟩

/-! ## Markers -/

/-- `k.lower` is there. -/
def Key.Lowers : Key → Prop
  | other _ => False
  | _ => True

/-- The key is read as the marker. -/
def Key.marks (kind : Kind) : Key → Bool
  | text t => kind.isMarker t
  | _ => false

theorem Key.isMarker_of_lowers {kind : Kind} {k : Key} (h : k.Lowers) :
    k.isMarker kind = .ok (k.marks kind) := by
  cases k with
  | other id => exact h.elim
  | _ => rfl

theorem Key.isMarker_of_not_lowers {kind : Kind} {k : Key} (h : ¬ k.Lowers) :
    k.isMarker kind = .error .attributeError ∧ k.marks kind = false := by
  cases k with
  | other id => exact ⟨rfl, rfl⟩
  | _ => exact absurd trivial h

variable (lib)

/-- The text of the first marker. -/
def firstText (kind : Kind) (es : List (Key × Item)) : Text :=
  ((es.find? fun e => e.1.marks kind).map fun e => markerText lib e.2).getD []

/-- The text of the last marker. -/
def lastText (kind : Kind) (es : List (Key × Item)) : Text :=
  ((es.filter fun e => e.1.marks kind).getLast?.map fun e => markerText lib e.2).getD []

/-- The data without its markers, `unencrypted` and `schema_version`. -/
def withoutMarkers (kind : Kind) (data : Data) : Data :=
  ((data.filter fun e => !e.1.marks kind).erase (.text "unencrypted".toList)).erase
    (.text "schema_version".toList)

/-- The keys up to the first marker have `lower`. -/
def Scanned (kind : Kind) (es : List (Key × Item)) : Prop :=
  ∀ e ∈ es.takeWhile fun e => !e.1.marks kind, e.1.Lowers

variable {lib} {kind : Kind}

variable (lib kind) in
/-- Scanning for the first marker raises at a key ahead of it that has no `lower`. -/
theorem firstMarker_spec (es : List (Key × Item)) :
    (Scanned kind es ∧ firstMarker lib kind es = .ok (firstText lib kind es)) ∨
      ¬ Scanned kind es ∧ firstMarker lib kind es = .error .attributeError := by
  induction es with
  | nil => exact Or.inl ⟨fun e he => absurd he List.not_mem_nil, rfl⟩
  | cons e es ih =>
    obtain ⟨k, v⟩ := e
    rw [firstMarker]
    by_cases hk : k.Lowers
    · rw [Key.isMarker_of_lowers hk]
      unfold Scanned firstText
      rw [List.takeWhile_cons, List.find?_cons]
      cases k.marks kind with
      | true => exact Or.inl ⟨fun e he => absurd he List.not_mem_nil, rfl⟩
      | false =>
        rw [Bool.not_false, if_pos rfl]
        rcases ih with ⟨hs, hf⟩ | ⟨hs, hf⟩
        · exact Or.inl ⟨List.forall_mem_cons.mpr ⟨hk, hs⟩, hf⟩
        · exact Or.inr ⟨fun h => hs (List.forall_mem_cons.mp h).2, hf⟩
    · obtain ⟨herr, hmarks⟩ : k.isMarker kind = .error .attributeError ∧ k.marks kind = false :=
        Key.isMarker_of_not_lowers hk
      refine Or.inr ⟨fun h => hk (h (k, v) ?_), by rw [herr]⟩
      rw [List.takeWhile_cons, hmarks]
      exact List.mem_cons_self

theorem popMarkers_of_lowers {es : List (Key × Item)} (h : ∀ e ∈ es, e.1.Lowers) (entry : Text) (data : Data) :
    popMarkers lib kind es entry data =
      .ok (((es.filter fun e => e.1.marks kind).getLast?.map fun e => markerText lib e.2).getD entry,
        ((es.filter fun e => e.1.marks kind).map Prod.fst).foldl Obj.erase data) := by
  induction es generalizing entry data with
  | nil => rfl
  | cons e es ih =>
    obtain ⟨k, v⟩ := e
    obtain ⟨hk, hes⟩ := List.forall_mem_cons.mp h
    rw [popMarkers, Key.isMarker_of_lowers hk, List.filter_cons]
    cases k.marks kind with
    | true =>
      dsimp only
      rw [ih hes, if_pos rfl, List.getLast?_cons, Option.map_some, Option.getD_some]
      cases (es.filter fun e => e.1.marks kind).getLast? <;> rfl
    | false => exact ih hes entry data

theorem popMarkers_of_not_lowers {es : List (Key × Item)} (h : ¬ ∀ e ∈ es, e.1.Lowers) (entry : Text)
    (data : Data) : popMarkers lib kind es entry data = .error .attributeError := by
  induction es generalizing entry data with
  | nil => exact absurd (fun e he => absurd he List.not_mem_nil) h
  | cons e es ih =>
    obtain ⟨k, v⟩ := e
    rw [popMarkers]
    by_cases hk : k.Lowers
    · have hes : ¬ ∀ e ∈ es, e.1.Lowers := fun hes => h (List.forall_mem_cons.mpr ⟨hk, hes⟩)
      rw [Key.isMarker_of_lowers hk]
      cases k.marks kind with
      | true => exact ih hes _ _
      | false => exact ih hes _ _
    · rw [(Key.isMarker_of_not_lowers hk).1]

/-- Keys taken out one after another. -/
theorem foldl_erase (ks : List Key) (data : Data) :
    ks.foldl Obj.erase data = data.filter fun e => decide (e.1 ∉ ks) := by
  induction ks generalizing data with
  | nil =>
    apply Obj.ext
    exact (List.filter_eq_self.mpr fun e _ => decide_eq_true List.not_mem_nil).symm
  | cons k ks ih =>
    rw [List.foldl_cons, ih]
    apply Obj.ext
    show (data.entries.filter _).filter _ = data.entries.filter _
    rw [List.filter_filter]
    refine List.filter_congr fun e _ => ?_
    rw [← Bool.decide_and]
    exact decide_eq_decide.mpr (by rw [List.mem_cons, not_or, and_comm])

/-- Taking out the markers of a mapping. -/
theorem popMarkers_entries {data : Data} (h : ∀ k ∈ data.keys, k.Lowers) :
    popMarkers lib kind data.entries [] data =
      .ok (lastText lib kind data.entries, data.filter fun e => !e.1.marks kind) := by
  rw [popMarkers_of_lowers fun e he => h e.1 (List.mem_map_of_mem he), foldl_erase]
  refine congrArg (fun d => Except.ok (_, d)) (Obj.ext (List.filter_congr fun e he => ?_))
  have hmem : e.1 ∈ (data.entries.filter fun e => e.1.marks kind).map Prod.fst ↔ e.1.marks kind = true := by
    constructor
    · intro hm
      obtain ⟨e', he', hee⟩ := List.mem_map.mp hm
      rw [← hee]
      exact (List.mem_filter.mp he').2
    · intro hm
      exact List.mem_map_of_mem (List.mem_filter.mpr ⟨he, hm⟩)
  cases hm : e.1.marks kind with
  | true => exact decide_eq_false (not_not_intro (hmem.mpr hm))
  | false => exact decide_eq_true fun h => by rw [hmem.mp h] at hm; cases hm

/-! ## Loading -/

variable (lib)

/-- No field breaks, up to the first one that no passphrase opens, and what a field holds is UTF-8. -/
def FieldsSurvive (s : Session) (path name : Text) : List (Key × Item) → Cache → Prop
  | [], _ => True
  | (k, v) :: es, cache =>
    match v.envelope with
    | none => FieldsSurvive s path name es cache
    | some envelope =>
      let pws := tried s (cache (fieldKey lib path k)) (fieldLabel lib name k)
      Survives lib envelope pws ∧
        ∀ pw m, Reached lib envelope pws pw → Opens lib envelope pw m →
          (decodeUtf8 m).isSome = true ∧
            FieldsSurvive s path name es (Function.update cache (fieldKey lib path k) (some pw))

/-- A text is YAML, or PyYAML says that it is not. -/
def YamlHandles (t : Text) : Prop := ∀ e, lib.yaml t = .error e → e = .yamlError

/-- No envelope of a file breaks. -/
def DataSurvives (kind : Kind) (s : Session) (cache : Cache) (path name : Text) (data : Data) : Prop :=
  match data.get (.text "encrypted".toList) with
  | some (.bool true) =>
    let envelope : Envelope := fun t => data.get (.text t)
    let pws := tried s (cache path) (subjectOf kind name)
    Survives lib envelope pws ∧
      ∀ pw m, Reached lib envelope pws pw → Opens lib envelope pw m →
        ∃ t, decodeUtf8 m = some t ∧ YamlHandles lib t
  | _ => FieldsSurvive lib s path name data.entries cache

/-- Every key has `lower`, and where the file is marked no envelope of it breaks. -/
def LoadSurvives (kind : Kind) (s : Session) (cache : Cache) (path name : Text) (data : Data) : Prop :=
  (∀ k ∈ data.keys, k.Lowers) ∧
    (lastText lib kind data.entries ≠ [] → DataSurvives lib kind s cache path name (withoutMarkers kind data))

variable {lib} {path name : Text}

/-- The loop over the values returns exactly when no field breaks. -/
theorem decryptFields_returns_iff {es : List (Key × Item)} {data : Data} (hnd : (es.map Prod.fst).Nodup)
    (hget : ∀ e ∈ es, data.get e.1 = some e.2) :
    (decryptFields lib s path name (es.map Prod.fst) data cache).1.Returns ↔
      FieldsSurvive lib s path name es cache := by
  induction es generalizing data cache with
  | nil => exact Iff.rfl
  | cons e es ih =>
    obtain ⟨k, v⟩ := e
    obtain ⟨hk, hes⟩ := List.forall_mem_cons.mp hget
    obtain ⟨hnot, hnd⟩ := List.nodup_cons.mp hnd
    rw [List.map_cons, decryptFields, hk, Option.bind_some, FieldsSurvive]
    cases v.envelope with
    | none => exact ih hnd hes
    | some envelope =>
      dsimp only
      rcases decryptValue_cases lib s cache envelope (fieldKey lib path k) (fieldLabel lib name k) with
        ⟨⟨msg, cache', hd⟩, hall⟩ | ⟨pw, m, hd, hr, hm⟩ | ⟨pw, e, cache', hd, hr, hb⟩
      · rw [hd]
        exact ⟨fun _ => survives_of_misses hall, fun _ => trivial⟩
      · rw [hd, survives_iff_of_opens hr hm]
        cases ht : decodeUtf8 m with
        | none =>
          dsimp only
          rw [ht]
          exact ⟨fun h => h.elim, fun h => by cases h.1⟩
        | some t =>
          dsimp only
          rw [ht]
          have hget' : ∀ e ∈ es, (data.set k (.text t)).get e.1 = some e.2 := by
            intro e he
            have hne : e.1 ≠ k := fun h => hnot (List.mem_map.mpr ⟨e, he, h⟩)
            rw [Obj.get_set, if_neg hne, hes e he]
          exact (ih hnd hget').trans ⟨fun h => ⟨rfl, h⟩, fun h => h.2⟩
      · rw [hd]
        exact ⟨fun h => h.elim, fun h => absurd hb (h.1 pw hr)⟩

/-- What follows the marker returns exactly when no envelope breaks. -/
theorem decryptData_returns_iff {data : Data} :
    (decryptData lib kind s cache path name data).1.Returns ↔
      DataSurvives lib kind s cache path name data := by
  have hfields : (decryptFields lib s path name data.keys data cache).1.Returns ↔
      FieldsSurvive lib s path name data.entries cache :=
    decryptFields_returns_iff data.nodup fun e he => Obj.mem_entries_iff.mp he
  by_cases hwhole : data.get (.text "encrypted".toList) = some (.bool true)
  · simp only [decryptData, DataSurvives, hwhole]
    rcases decryptValue_cases lib s cache (fun t => data.get (.text t)) path (subjectOf kind name) with
      ⟨⟨msg, cache', hd⟩, hall⟩ | ⟨pw, m, hd, hr, hm⟩ | ⟨pw, e, cache', hd, hr, hb⟩
    · rw [hd]
      exact ⟨fun _ => survives_of_misses hall, fun _ => trivial⟩
    · rw [hd, survives_iff_of_opens hr hm]
      dsimp only
      cases ht : decodeUtf8 m with
      | none => exact ⟨fun h => h.elim, fun ⟨t, h, _⟩ => by cases h⟩
      | some t =>
        dsimp only
        have hex : (∃ t', some t = some t' ∧ YamlHandles lib t') ↔ YamlHandles lib t :=
          ⟨fun ⟨t', h, hy⟩ => Option.some.inj h ▸ hy, fun h => ⟨t, rfl, h⟩⟩
        rw [hex]
        unfold YamlHandles
        cases hy : lib.yaml t with
        | error e =>
          by_cases he : e = .yamlError
          · rw [he]
            refine ⟨fun _ => fun e' h => (Except.error.inj h).symm, fun _ => trivial⟩
          · refine ⟨fun h => ?_, fun h => absurd (h e rfl) he⟩
            cases e with
            | yamlError => exact absurd rfl he
            | _ => exact h.elim
        | ok doc =>
          refine ⟨fun _ e h => (by cases h), fun _ => ?_⟩
          cases doc with
          | mapping inner => exact trivial
          | other truthy => cases truthy <;> exact trivial
    · rw [hd]
      exact ⟨fun h => h.elim, fun h => absurd hb (h.1 pw hr)⟩
  · have hd : decryptData lib kind s cache path name data =
        decryptFields lib s path name data.keys data cache := by
      unfold decryptData
      split
      · exact absurd ‹_› hwhole
      · rfl
    have hs : DataSurvives lib kind s cache path name data ↔
        FieldsSurvive lib s path name data.entries cache := by
      unfold DataSurvives
      split
      · exact absurd ‹_› hwhole
      · exact Iff.rfl
    rw [hd, hs]
    exact hfields

/-- Loading what a file parses to returns exactly when every key has `lower` and no envelope breaks. -/
theorem loadData_returns_iff {data : Data} : (loadData lib kind s cache path name data).1.Returns ↔
    LoadSurvives lib kind s cache path name data := by
  unfold loadData LoadSurvives
  by_cases hl : ∀ k ∈ data.keys, k.Lowers
  · rw [popMarkers_entries hl]
    dsimp only
    by_cases he : lastText lib kind data.entries = []
    · rw [if_pos he]
      exact ⟨fun _ => ⟨hl, fun h => absurd he h⟩, fun _ => trivial⟩
    · rw [if_neg he]
      have hd : (decryptData lib kind s cache path name (withoutMarkers kind data)).1.Returns ↔
          DataSurvives lib kind s cache path name (withoutMarkers kind data) := decryptData_returns_iff
      unfold withoutMarkers at hd ⊢
      rw [← hd]
      constructor
      · intro h
        refine ⟨hl, fun _ => ?_⟩
        cases hr : decryptData lib kind s cache path name
            (((data.filter fun e => !e.1.marks kind).erase (.text "unencrypted".toList)).erase
              (.text "schema_version".toList)) with
        | mk r cache' =>
          rw [hr] at h
          cases r with
          | raises e => exact h
          | _ => exact trivial
      · intro h
        have hret := h.2 he
        cases hr : decryptData lib kind s cache path name
            (((data.filter fun e => !e.1.marks kind).erase (.text "unencrypted".toList)).erase
              (.text "schema_version".toList)) with
        | mk r cache' =>
          rw [hr] at hret
          cases r with
          | raises e => exact hret
          | _ => exact trivial
  · have hn : ¬ ∀ e ∈ data.entries, e.1.Lowers := fun h => hl fun k hk => by
      obtain ⟨e, he, rfl⟩ := List.mem_map.mp hk
      exact h e he
    rw [popMarkers_of_not_lowers hn]
    exact ⟨fun h => h.elim, fun h => absurd h.1 hl⟩

/-! ## Listing -/

variable (lib)

/-- The mapping that a file parses to. -/
def Candidate.data (c : Candidate) : Option Data :=
  match c.content.map (parse lib c.ext) with
  | some (.ok (.mapping data)) => some data
  | _ => none

/-- The first marker of a file. -/
def Candidate.entry (kind : Kind) (c : Candidate) : Text :=
  ((c.data lib).map fun data => firstText lib kind data.entries).getD []

/-- The file, listed. -/
def Candidate.found (kind : Kind) (c : Candidate) : Found := ⟨c.name, c.entry lib kind, c.dir, c.ext⟩

/-- The keys of a file have `lower` up to its first marker. -/
def Candidate.Scanned (kind : Kind) (c : Candidate) : Prop :=
  ∀ data, c.data lib = some data → Parsed.Scanned kind data.entries

/-- A file is looked at: its name is not among those seen, and no file ahead of it is listed under it. -/
def LooksAt (kind : Kind) (seen : List Text) (cs : List Candidate) (c : Candidate) : Prop :=
  c.name ∉ seen ∧ ∃ pre post, cs = pre ++ c :: post ∧ ∀ c' ∈ pre, c'.name = c.name → c'.entry lib kind = []

variable {lib} {seen : List Text} {c c' : Candidate} {cs : List Candidate} {found : List Found}

theorem listFile_of_seen (h : c.name ∈ found.map Found.name) : listFile lib kind found c = .ok found := if_pos h

theorem data_eq_some {data : Data} :
    c.data lib = some data ↔ c.content.map (parse lib c.ext) = some (.ok (.mapping data)) := by
  unfold Candidate.data
  constructor
  · intro h
    split at h
    · rename_i hdata
      rw [hdata, Option.some.inj h]
    · cases h
  · intro h
    rw [h]

theorem listFile_of_data {data : Data} (h : c.name ∉ found.map Found.name) (hd : c.data lib = some data) :
    listFile lib kind found c = (firstMarker lib kind data.entries).bind fun entry =>
      .ok (if entry = [] then found else found ++ [⟨c.name, entry, c.dir, c.ext⟩]) := by
  unfold listFile
  rw [if_neg h, data_eq_some.mp hd]
  dsimp only
  cases firstMarker lib kind data.entries <;> rfl

theorem listFile_of_no_data (h : c.name ∉ found.map Found.name) (hd : c.data lib = none) :
    listFile lib kind found c = .ok found := by
  unfold listFile
  rw [if_neg h]
  split
  · rename_i hdata
    rw [data_eq_some.mpr hdata] at hd
    cases hd
  · rfl

theorem listFile_of_scanned (h : c.name ∉ found.map Found.name) (hs : c.Scanned lib kind) :
    listFile lib kind found c =
      .ok (if c.entry lib kind = [] then found else found ++ [c.found lib kind]) := by
  unfold Candidate.found Candidate.entry
  cases hd : c.data lib with
  | none => exact listFile_of_no_data h hd
  | some data =>
    rw [listFile_of_data h hd, Option.map_some, Option.getD_some]
    rcases firstMarker_spec lib kind data.entries with ⟨_, hf⟩ | ⟨hn, _⟩
    · rw [hf]
      rfl
    · exact absurd (hs data hd) hn

theorem listFile_of_not_scanned (h : c.name ∉ found.map Found.name) (hs : ¬ c.Scanned lib kind) :
    listFile lib kind found c = .error .attributeError := by
  unfold Candidate.Scanned at hs
  push Not at hs
  obtain ⟨data, hd, hn⟩ := hs
  rw [listFile_of_data h hd]
  rcases firstMarker_spec lib kind data.entries with ⟨hok, _⟩ | ⟨_, hf⟩
  · exact absurd hok hn
  · rw [hf]
    rfl

theorem looksAt_congr {seen' : List Text} (h : ∀ n, n ∈ seen ↔ n ∈ seen') :
    LooksAt lib kind seen cs c ↔ LooksAt lib kind seen' cs c := by
  unfold LooksAt
  rw [h]

/-- The first file is looked at, and those behind it with its name seen where it is listed. -/
theorem looksAt_cons : LooksAt lib kind seen (c' :: cs) c ↔ c = c' ∧ c'.name ∉ seen ∨
    LooksAt lib kind (if c'.entry lib kind = [] then seen else seen ++ [c'.name]) cs c := by
  constructor
  · rintro ⟨hseen, pre, post, heq, hpre⟩
    cases pre with
    | nil =>
      obtain ⟨rfl, _⟩ := List.cons.inj heq
      exact Or.inl ⟨rfl, hseen⟩
    | cons p pre =>
      obtain ⟨rfl, hcs⟩ := List.cons.inj heq
      obtain ⟨hp, hpre⟩ := List.forall_mem_cons.mp hpre
      refine Or.inr ⟨?_, pre, post, hcs, hpre⟩
      split
      · exact hseen
      · rename_i hentry
        intro hmem
        rcases List.mem_append.mp hmem with hm | hm
        · exact hseen hm
        · exact hentry (hp (List.mem_singleton.mp hm).symm)
  · rintro (⟨rfl, hseen⟩ | ⟨hseen, pre, post, hcs, hpre⟩)
    · exact ⟨hseen, [], cs, rfl, fun c' hc' => absurd hc' List.not_mem_nil⟩
    · split at hseen
      · rename_i hentry
        exact ⟨hseen, c' :: pre, post, by rw [hcs]; rfl, List.forall_mem_cons.mpr ⟨fun _ => hentry, hpre⟩⟩
      · rw [List.mem_append, List.mem_singleton, not_or] at hseen
        refine ⟨hseen.1, c' :: pre, post, by rw [hcs]; rfl, List.forall_mem_cons.mpr ⟨fun h => ?_, hpre⟩⟩
        exact absurd h.symm hseen.2

theorem exists_looksAt_cons (h : c'.name ∉ seen) {P : Candidate → Prop} :
    (∃ c, LooksAt lib kind seen (c' :: cs) c ∧ P c) ↔
      P c' ∨ ∃ c, LooksAt lib kind (if c'.entry lib kind = [] then seen else seen ++ [c'.name]) cs c ∧ P c := by
  constructor
  · rintro ⟨c, hc, hp⟩
    rcases looksAt_cons.mp hc with ⟨rfl, _⟩ | hc
    · exact Or.inl hp
    · exact Or.inr ⟨c, hc, hp⟩
  · rintro (hp | ⟨c, hc, hp⟩)
    · exact ⟨c', looksAt_cons.mpr (Or.inl ⟨rfl, h⟩), hp⟩
    · exact ⟨c, looksAt_cons.mpr (Or.inr hc), hp⟩

variable (lib kind) in
/-- Listing raises at a file that is looked at and not scanned, and lists those that have a marker. -/
theorem foldlM_listFile (cs : List Candidate) (found : List Found) :
    ((∀ c, LooksAt lib kind (found.map Found.name) cs c → c.Scanned lib kind) ∧
      ∃ found', cs.foldlM (listFile lib kind) found = .ok found' ∧
        ∀ f, f ∈ found' ↔ f ∈ found ∨ ∃ c, LooksAt lib kind (found.map Found.name) cs c ∧
          c.entry lib kind ≠ [] ∧ f = c.found lib kind) ∨
    (¬ ∀ c, LooksAt lib kind (found.map Found.name) cs c → c.Scanned lib kind) ∧
      cs.foldlM (listFile lib kind) found = .error .attributeError := by
  induction cs generalizing found with
  | nil =>
    have hnone (c : Candidate) : ¬ LooksAt lib kind (found.map Found.name) [] c := by
      rintro ⟨_, pre, post, h, _⟩
      cases pre <;> cases h
    refine Or.inl ⟨fun c hc => absurd hc (hnone c), found, rfl, fun f => ?_⟩
    exact ⟨Or.inl, fun h => h.resolve_right fun ⟨c, hc, _⟩ => hnone c hc⟩
  | cons c' cs ih =>
    rw [List.foldlM_cons]
    by_cases hseen : c'.name ∈ found.map Found.name
    · have hlook (c : Candidate) : LooksAt lib kind (found.map Found.name) (c' :: cs) c ↔
          LooksAt lib kind (found.map Found.name) cs c := by
        rw [looksAt_cons]
        refine (or_iff_right fun h => h.2 hseen).trans (looksAt_congr fun n => ?_)
        split
        · exact Iff.rfl
        · rw [List.mem_append, List.mem_singleton]
          exact or_iff_left_of_imp fun h => h ▸ hseen
      simp only [hlook]
      rw [listFile_of_seen hseen]
      exact ih found
    · by_cases hs : c'.Scanned lib kind
      · rw [listFile_of_scanned hseen hs]
        have hnames : (if c'.entry lib kind = [] then found else found ++ [c'.found lib kind]).map Found.name =
            if c'.entry lib kind = [] then found.map Found.name else found.map Found.name ++ [c'.name] := by
          split
          · rfl
          · rw [List.map_append]
            rfl
        have hstep := ih (if c'.entry lib kind = [] then found else found ++ [c'.found lib kind])
        rw [hnames] at hstep
        have hall : (∀ c, LooksAt lib kind (found.map Found.name) (c' :: cs) c → c.Scanned lib kind) ↔
            ∀ c, LooksAt lib kind (if c'.entry lib kind = [] then found.map Found.name
              else found.map Found.name ++ [c'.name]) cs c → c.Scanned lib kind := by
          refine ⟨fun h c hc => h c (looksAt_cons.mpr (Or.inr hc)), fun h c hc => ?_⟩
          rcases looksAt_cons.mp hc with ⟨rfl, _⟩ | hc
          · exact hs
          · exact h c hc
        rw [hall]
        rcases hstep with ⟨hscan, found', hf, hmem⟩ | ⟨hscan, hf⟩
        · refine Or.inl ⟨hscan, found', hf, fun f => ?_⟩
          rw [hmem, exists_looksAt_cons hseen, ← or_assoc]
          refine or_congr_left ?_
          split
          · rename_i hentry
            exact ⟨Or.inl, fun h => h.resolve_right fun h => h.1 hentry⟩
          · rename_i hentry
            rw [List.mem_append, List.mem_singleton]
            exact or_congr_right ⟨fun h => ⟨hentry, h⟩, fun h => h.2⟩
        · exact Or.inr ⟨hscan, hf⟩
      · rw [listFile_of_not_scanned hseen hs]
        exact Or.inr ⟨fun h => hs (h c' (looksAt_cons.mpr (Or.inl ⟨rfl, hseen⟩))), rfl⟩

/-! ## Every entry point -/

section Returning

variable (lib) (kind : Kind) (files : Directories) (dirs : List Text) (s : Session) (cache : Cache)
  (name cacheKey label : Text) (envelope : Envelope)

/-- **Loading never raises**: decrypting a value returns, so does loading a file that parses, and listing
gives a list. -/
structure NeverRaises : Prop where
  decrypt : (decryptValue lib s cache envelope cacheKey label).1.Returns
  load : ∀ dir ext text doc, cloudAccountPath files dirs name = some (dir, ext) →
    contentOf files dir (name ++ ext) = some (some text) →
    parse lib (lower (suffix (name ++ ext))) text = .ok doc →
    (tryLoad lib kind files dirs s cache name).1.Returns
  list : ∃ l, list lib kind files dirs = .ok l

/-- What does not break: the envelope, with the passphrases that are tried; the file that is loaded; and
every file that is looked at, up to its first marker. -/
structure NothingBreaks : Prop where
  decrypt : Survives lib envelope (tried s (cache cacheKey) label)
  load : ∀ dir ext text data, cloudAccountPath files dirs name = some (dir, ext) →
    contentOf files dir (name ++ ext) = some (some text) →
    parse lib (lower (suffix (name ++ ext))) text = .ok (.mapping data) →
    LoadSurvives lib kind s cache (dir ++ "/".toList ++ name ++ ext) name data
  list : ∀ c, LooksAt lib kind [] (candidates files dirs) c → c.Scanned lib kind

variable {lib kind files dirs s cache name cacheKey label envelope}

/-- A file that parses to a mapping is loaded from it. -/
theorem tryLoad_of_mapping {dir ext text : Text} {data : Data}
    (hpath : cloudAccountPath files dirs name = some (dir, ext))
    (hcontent : contentOf files dir (name ++ ext) = some (some text))
    (hparse : parse lib (lower (suffix (name ++ ext))) text = .ok (.mapping data)) :
    tryLoad lib kind files dirs s cache name =
      loadData lib kind s cache (dir ++ "/".toList ++ name ++ ext) name data := by
  unfold tryLoad
  rw [hpath]
  dsimp only
  rw [hcontent, Option.bind_some, id]
  dsimp only
  rw [hparse]

/-- Any other that parses is an error. -/
theorem tryLoad_of_other {dir ext text : Text} {truthy : Bool}
    (hpath : cloudAccountPath files dirs name = some (dir, ext))
    (hcontent : contentOf files dir (name ++ ext) = some (some text))
    (hparse : parse lib (lower (suffix (name ++ ext))) text = .ok (.other truthy)) :
    (tryLoad lib kind files dirs s cache name).1.Returns := by
  unfold tryLoad
  rw [hpath]
  dsimp only
  rw [hcontent, Option.bind_some, id]
  dsimp only
  rw [hparse]
  exact trivial

theorem list_isOk_iff : (∃ l, list lib kind files dirs = .ok l) ↔
    ∀ c, LooksAt lib kind [] (candidates files dirs) c → c.Scanned lib kind := by
  unfold list listFound
  rcases foldlM_listFile lib kind (candidates files dirs) [] with
    ⟨hscan, found, hf, _⟩ | ⟨hscan, hf⟩
  · rw [hf]
    exact ⟨fun _ => hscan, fun _ => ⟨_, rfl⟩⟩
  · rw [hf]
    exact ⟨fun ⟨_, h⟩ => (by cases h), fun h => absurd h hscan⟩

/-- **Loading and listing** raise nothing exactly when nothing breaks. -/
theorem neverRaises_iff (lib : Library) (kind : Kind) (files : Directories) (dirs : List Text) (s : Session)
    (cache : Cache) (name cacheKey label : Text) (envelope : Envelope) :
    NeverRaises lib kind files dirs s cache name cacheKey label envelope ↔
      NothingBreaks lib kind files dirs s cache name cacheKey label envelope := by
  constructor
  · intro h
    refine ⟨decryptValue_returns_iff.mp h.decrypt, fun dir ext text data hpath hcontent hparse => ?_,
      list_isOk_iff.mp h.list⟩
    have hret := h.load dir ext text _ hpath hcontent hparse
    rw [tryLoad_of_mapping hpath hcontent hparse] at hret
    exact loadData_returns_iff.mp hret
  · intro h
    refine ⟨decryptValue_returns_iff.mpr h.decrypt, fun dir ext text doc hpath hcontent hparse => ?_,
      list_isOk_iff.mpr h.list⟩
    cases doc with
    | other truthy => exact tryLoad_of_other hpath hcontent hparse
    | mapping data =>
      rw [tryLoad_of_mapping hpath hcontent hparse]
      exact loadData_returns_iff.mpr (h.load dir ext text data hpath hcontent hparse)

end Returning

/-! ## A nonce that was cut short -/

/-- A library whose parsers take nothing and whose ciphers take the sizes that the real ones do. -/
def strictLibrary : Library where
  suite := sampleLibrary.suite
  kdfTakes salt timeCost memoryCostKib parallelism :=
    8 ≤ salt.length && decide (1 ≤ timeCost) && decide (1 ≤ parallelism) && decide (8 * parallelism ≤ memoryCostKib)
  aesTakes nonce := 8 ≤ nonce.length && nonce.length ≤ 128
  chachaTakes nonce := nonce.length = 12
  yaml _ := .error .yamlError
  json _ := .error .valueError
  isalnum _ := false
  environ _ := none
  str _ := []
  strKey _ := []
  message _ := []

/-- An envelope of the right shape whose second nonce has three bytes. -/
def shortNonce : Envelope := fun t =>
  dictGet [("encrypted".toList, .bool true), ("kdf".toList, .text "argon2id".toList),
    ("cipher".toList, .text "aes-256-gcm+chacha20-poly1305".toList),
    ("salt".toList, .text "AAAAAAAAAAAA".toList), ("nonce1".toList, .text "AAAAAAAAAAAAAAAA".toList),
    ("nonce2".toList, .text "AAAA".toList), ("ciphertext".toList, .text "AAAA".toList)] t

/-- **The second nonce is not checked**: `_decrypt_value` raises the `ValueError` of the cipher. -/
theorem short_nonce_raises : ¬ NeverRaises strictLibrary .cloud (fun _ => none) []
    ⟨some (.text "secret".toList), none⟩ (fun _ => none) "aws".toList "aws".toList "aws".toList shortNonce := by
  intro h
  have hs := decryptValue_returns_iff.mp h.decrypt
  have hknown : HeaderKnown shortNonce := by decide
  obtain ⟨f, hf, hnonce⟩ : ∃ f, readFields shortNonce = .ok f ∧ f.nonce2 = [0, 0, 0] := ⟨_, rfl, rfl⟩
  have hrefused : strictLibrary.chachaTakes f.nonce2 = false := by
    rw [hnonce]
    rfl
  exact hs (.text "secret".toList) (Or.inl rfl) ⟨hknown, Or.inr ⟨f, hf, Or.inr (Or.inl hrefused)⟩⟩

end LabInABox.Credentials.Parsed
