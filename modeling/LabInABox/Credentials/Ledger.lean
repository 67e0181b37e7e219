import LabInABox.Credentials.Helper
import LabInABox.Credentials.RoundTrip
import LabInABox.Simulation

/-!
# The helper and its ledger

That the commands of the helper (`Helper`) do to its directory what they do to the ledger.

* `Account.StoredAs` is the data that a file of an account may have. Each shape of it is read key by key.
* A file that the helper finds in its directory is one of its own.

Results:
* `secrets_storedAs`, `credentialEntry_eq`: what is told of a file is what is told of its account.
* `helper_refines`: the helper answers as the ledger, and its directory holds what the ledger does.
-/

namespace LabInABox.Credentials.Helper

open Text Simulation
open Jobs.Status (safeName)
open Parsed (suffix)

variable (lib : Library) (repr : Text → Text)

/-! ## Names of files -/

theorem rtakeWhile_yaml (s : Text) : (s ++ ".yaml".toList).rtakeWhile (· ≠ '.') = "yaml".toList := by
  unfold List.rtakeWhile
  rw [List.reverse_append]
  simp [List.takeWhile]

theorem suffix_yaml {s : Text} (hs : s ≠ []) : suffix (s ++ ".yaml".toList) = ".yaml".toList := by
  have hlen := List.length_pos_iff.mpr hs
  unfold suffix
  rw [rtakeWhile_yaml]
  dsimp only
  rw [if_pos ⟨by decide, by simp; omega⟩]
  rfl

theorem stem_yaml {s : Text} (hs : s ≠ []) : stem (s ++ ".yaml".toList) = s := by
  have htake : (s ++ ".yaml".toList).take ((s ++ ".yaml".toList).length - "yaml".toList.length - 1) = s := by
    have hlen : (s ++ ".yaml".toList).length - "yaml".toList.length - 1 = s.length := by
      simp
    rw [hlen, List.take_left]
  unfold stem
  rw [rtakeWhile_yaml]
  dsimp only
  rw [htake, if_neg]
  rintro (h | h | h)
  · exact hs h
  · exact absurd h (by decide)
  · simp at h

/-! ## The data of an account -/

section Data

variable {lib} {f : Filled} {a : Account} {data : Data}

/-- The fields that are shown are no markers, in any case. -/
theorem shown_field (kind : Kind) : ∀ e ∈ kind.table, ∀ f ∈ e.2, lower f.1 ∉ listMarkers := by
  cases kind <;> decide

theorem Filled.field (f : Filled) {k : Text} (hk : k ∈ f.fields.keys) :
    ∃ r ∈ f.rows, r.1 = k ∧ f.kind.isMarker k = false ∧ k ∉ reserved ∧ lower k ∉ listMarkers := by
  obtain ⟨r, hr, rfl⟩ := List.mem_map.mp (f.named k hk)
  obtain ⟨_, _, hspec⟩ := table_spec f.kind _ f.known
  exact ⟨r, hr, rfl, (hspec r hr).1, (hspec r hr).2, shown_field f.kind _ f.known r hr⟩

theorem Filled.entry_ne (f : Filled) : f.entry ≠ [] := (table_spec f.kind _ f.known).2.1

/-- The keys before the fields. -/
def headKeys (kind : Kind) : List Text := [kind.marker, "schema_version".toList, "unencrypted".toList]

theorem headKeys_spec (kind : Kind) : (headKeys kind).Nodup ∧ ∀ k ∈ headKeys kind, k ∈ reserved := by
  cases kind <;> decide

theorem keys_textFields (fields : Obj Text Text) : (textFields fields).keys = fields.keys := by
  unfold textFields Obj.filterMap Obj.keys
  simp

/-- The keys of a plain file. -/
theorem keys_payload (f : Filled) : (f.payload lib).keys = headKeys f.kind ++ f.fields.keys := by
  obtain ⟨hnd, hreserved⟩ := headKeys_spec f.kind
  have hstart : (((Obj.empty.set f.kind.marker (Value.scalar (.text f.entry))).set "schema_version".toList
      (.scalar (.text "1.0".toList))).set "unencrypted".toList (.scalar (.bool true))).keys = headKeys f.kind := by
    cases f.kind <;> rfl
  unfold Filled.payload filePayload
  dsimp only
  unfold Obj.keys at hstart ⊢
  rw [Obj.entries_assign_append, List.map_append, hstart]
  · exact congrArg _ (keys_textFields f.fields)
  · rw [List.map_append, hstart]
    refine List.nodup_append.mpr ⟨hnd, (textFields f.fields).nodup, fun k hk k' hk' heq => ?_⟩
    have hfield : k' ∈ f.fields.keys := by
      rw [← keys_textFields]
      exact hk'
    obtain ⟨_, _, _, _, hres, _⟩ := f.field hfield
    exact hres (heq ▸ hreserved k hk)

theorem get_payload (f : Filled) (k : Text) : (f.payload lib).get k =
    ((f.fields.get k).map fun t => .scalar (.text t)).or
      (if k = "unencrypted".toList then some (.scalar (.bool true))
        else if k = "schema_version".toList then some (.scalar (.text "1.0".toList))
        else if k = f.kind.marker then some (.scalar (.text f.entry)) else none) := get_filePayload_plain k

/-- A field, as it is entered. -/
theorem get_payload_field (lib : Library) (f : Filled) {k : Text} (hk : k ∈ f.fields.keys) :
    ∃ t, f.fields.get k = some t ∧ (f.payload lib).get k = some (.scalar (.text t)) := by
  obtain ⟨t, ht⟩ := Obj.mem_keys_iff.mp hk
  refine ⟨t, ht, ?_⟩
  rw [get_payload, ht]
  rfl

/-- A key that stands before the fields. -/
theorem get_field_headKeys (f : Filled) {k : Text} (hk : k ∈ reserved) : f.fields.get k = none :=
  get_field_eq_none f.known f.named (Or.inr hk)

theorem not_mem_sensitive (f : Filled) {k : Text} (hk : k ∈ reserved) : k ∉ f.sensitive := by
  intro hmem
  obtain ⟨t, ht⟩ := Obj.mem_keys_iff.mp (List.mem_of_mem_filter hmem)
  rw [get_field_headKeys f hk] at ht
  cases ht

/-- The fields of an account, each encrypted or not. -/
theorem encryptFields_payload (lib : Library) (f : Filled) (passphrase : Text) (r : Text → Nonces) :
    ∃ data, encryptFields lib passphrase r f.sensitive (f.payload lib) = some data ∧
      data.keys = (f.payload lib).keys ∧ (∀ k ∉ f.sensitive, data.get k = (f.payload lib).get k) ∧
      ∀ k ∈ f.sensitive, ∃ t, (f.payload lib).get k = some (.scalar (.text t)) ∧
        data.get k = some (.mapping (encryptCascade lib.suite passphrase (r k) (encodeUtf8 t))) := by
  refine encryptFields_spec r f.sensitive (f.payload lib) (f.fields.nodup.filter _) fun k hk => ?_
  obtain ⟨t, _, ht⟩ := get_payload_field lib f (List.mem_of_mem_filter hk)
  exact ⟨t, ht⟩

/-- The keys that say the kind of a file. -/
def kindWords : List Text := listMarkers.take 4

/-- Data that says what kind of file it is, once. -/
structure Marked (f : Filled) (data : Data) : Prop where
  marker : data.get f.kind.marker = some (.scalar (.text f.entry))
  others : ∀ k ∈ data.keys, k = f.kind.marker ∨ lower k ∉ kindWords

theorem not_mem_kindWords {k : Text} (h : lower k ∉ listMarkers) : lower k ∉ kindWords :=
  fun hk => h (List.mem_of_mem_take hk)

theorem payload_marked (lib : Library) (f : Filled) : Marked f (f.payload lib) where
  marker := by
    obtain ⟨_, _, hmu, hmv⟩ := isMarker_versions f.kind
    have hreserved : f.kind.marker ∈ reserved := by cases f.kind <;> decide
    rw [get_payload, get_field_headKeys f hreserved, if_neg hmu, if_neg hmv, if_pos rfl]
    rfl
  others k hk := by
    rw [keys_payload] at hk
    rcases List.mem_append.mp hk with hk | hk
    · have hhead : ∀ kind : Kind, ∀ k ∈ headKeys kind, k = kind.marker ∨ lower k ∉ kindWords := by
        intro kind
        cases kind <;> decide
      exact hhead f.kind k hk
    · obtain ⟨_, _, _, _, _, hlower⟩ := f.field hk
      exact Or.inr (not_mem_kindWords hlower)

theorem whole_marked (f : Filled) (e : Text × Nonces) :
    Marked f (filePayload lib f.kind f.entry f.fields (some e)) where
  marker := by
    obtain ⟨_, _, _, hmv⟩ := isMarker_versions f.kind
    have hnone : f.kind.marker ∉ envelopeKeys := by cases f.kind <;> decide
    rw [get_filePayload_encrypted, dictGet_eq_none hnone, if_neg hmv, if_pos rfl]
    rfl
  others k hk := by
    obtain ⟨v, hv⟩ := Obj.mem_keys_iff.mp hk
    have henvelope : ∀ k ∈ envelopeKeys, lower k ∉ kindWords := by decide
    by_cases hmem : k ∈ envelopeKeys
    · exact Or.inr (henvelope k hmem)
    · rw [get_filePayload_encrypted, dictGet_eq_none hmem, Option.map_none, Option.none_or] at hv
      split at hv
      · rename_i hversion
        subst hversion
        exact Or.inr (by decide)
      · split at hv
        · rename_i hmarker
          exact Or.inl hmarker
        · cases hv

theorem storedAs_marked (h : a.StoredAs lib data) : Marked a.toFilled data := by
  unfold Account.StoredAs at h
  split at h
  · rw [h]
    exact payload_marked lib a.toFilled
  · obtain ⟨r, hr⟩ := h
    rw [hr]
    exact whole_marked a.toFilled _
  · rename_i passphrase _
    obtain ⟨r, hr⟩ := h
    obtain ⟨data', hd, hkeys, hrest, _⟩ := encryptFields_payload lib a.toFilled passphrase r
    obtain rfl := Option.some.inj (hr.symm.trans hd)
    have hplain := payload_marked lib a.toFilled
    refine ⟨?_, fun k hk => hplain.others k (hkeys ▸ hk)⟩
    rw [hrest, hplain.marker]
    have hreserved : a.kind.marker ∈ reserved := by cases a.kind <;> decide
    exact not_mem_sensitive a.toFilled hreserved

/-- What a file has that is not encrypted as a whole. -/
structure Fieldwise (lib : Library) (a : Account) (data : Data) : Prop where
  keys : data.keys = (a.payload lib).keys
  rest : ∀ k ∉ a.sensitive, data.get k = (a.payload lib).get k

theorem storedAs_fieldwise (h : a.StoredAs lib data) (hw : ∀ passphrase, a.sealed ≠ .whole passphrase) :
    Fieldwise lib a data := by
  unfold Account.StoredAs at h
  split at h
  · rw [h]
    exact ⟨rfl, fun _ _ => rfl⟩
  · rename_i passphrase heq
    exact absurd heq (hw passphrase)
  · rename_i passphrase _
    obtain ⟨r, hr⟩ := h
    obtain ⟨data', hd, hkeys, hrest, _⟩ := encryptFields_payload lib a.toFilled passphrase r
    obtain rfl := Option.some.inj (hr.symm.trans hd)
    exact ⟨hkeys, hrest⟩

theorem encrypted_mem : "encrypted".toList ∈ reserved := by decide

theorem Fieldwise.not_whole (h : Fieldwise lib a data) : data.get "encrypted".toList = none := by
  have hmarker : "encrypted".toList ≠ a.kind.marker := by cases a.kind <;> decide
  rw [h.rest _ (not_mem_sensitive a.toFilled encrypted_mem), get_payload,
    get_field_headKeys a.toFilled encrypted_mem, if_neg (by decide), if_neg (by decide), if_neg hmarker]
  rfl

/-- The keys of a file that is encrypted as a whole are its kind and the envelope. -/
theorem whole_keys (f : Filled) (e : Text × Nonces) :
    (filePayload lib f.kind f.entry f.fields (some e)).get "encrypted".toList = some (.scalar (.bool true)) ∧
      ∀ k ∈ (filePayload lib f.kind f.entry f.fields (some e)).keys,
        k ∈ envelopeKeys ∨ k = "schema_version".toList ∨ k = f.kind.marker := by
  constructor
  · rw [get_filePayload_encrypted]
    rfl
  · intro k hk
    obtain ⟨v, hv⟩ := Obj.mem_keys_iff.mp hk
    by_cases hmem : k ∈ envelopeKeys
    · exact Or.inl hmem
    · rw [get_filePayload_encrypted, dictGet_eq_none hmem, Option.map_none, Option.none_or] at hv
      split at hv
      · exact Or.inr (Or.inl ‹_›)
      · split at hv
        · exact Or.inr (Or.inr ‹_›)
        · cases hv

/-! ## What is shown of it -/

/-- What `sensitive_plaintext_fields` asks of a key. -/
def isSecret (data : Data) (k : Text) : Bool :=
  (match data.get k with
    | some (.scalar (.text _)) => true
    | _ => false) && k ≠ "cloudtype".toList && k ≠ "credential_kind".toList && looksSensitive k

theorem sensitivePlaintextFields_eq (data : Data) :
    sensitivePlaintextFields data = data.keys.filter (isSecret data) := rfl

theorem isSecret_congr {data' : Data} {k : Text} (h : data.get k = data'.get k) :
    isSecret data k = isSecret data' k := by
  unfold isSecret
  rw [h]

theorem isSecret_text {k t : Text} (ht : data.get k = some (.scalar (.text t)))
    (hk : k ≠ "cloudtype".toList) (hk' : k ≠ "credential_kind".toList) :
    isSecret data k = looksSensitive k := by
  unfold isSecret
  rw [ht, decide_eq_true hk, decide_eq_true hk']
  rfl

theorem isSecret_eq_false {k : Text}
    (h : k = "cloudtype".toList ∨ k = "credential_kind".toList ∨ looksSensitive k = false) :
    isSecret data k = false := by
  unfold isSecret
  rcases h with rfl | rfl | h
  · simp
  · simp
  · rw [h, Bool.and_false]

/-- The secrets of plain data are the fields that look sensitive. -/
theorem sensitivePlaintextFields_payload (lib : Library) (f : Filled) :
    sensitivePlaintextFields (f.payload lib) = f.sensitive := by
  have hhead (kind : Kind) : ∀ k ∈ headKeys kind, k = "cloudtype".toList ∨ k = "credential_kind".toList ∨
      looksSensitive k = false := by
    cases kind <;> decide
  have hnone : (headKeys f.kind).filter (isSecret (f.payload lib)) = [] :=
    List.filter_eq_nil_iff.mpr fun k hk h => by
      rw [isSecret_eq_false (hhead f.kind k hk)] at h
      exact Bool.false_ne_true h
  rw [sensitivePlaintextFields_eq, keys_payload, List.filter_append, hnone, List.nil_append]
  refine List.filter_congr fun k hk => ?_
  obtain ⟨t, _, ht⟩ := get_payload_field lib f hk
  obtain ⟨_, _, _, _, hres, _⟩ := f.field hk
  exact isSecret_text ht (fun h => hres (h ▸ by decide)) fun h => hres (h ▸ by decide)

/-- **The secrets of a file** are those of its account. -/
theorem secrets_storedAs (h : a.StoredAs lib data) : sensitivePlaintextFields data = a.secrets := by
  unfold Account.StoredAs at h
  unfold Account.secrets
  split at h
  · rename_i heq
    rw [h, heq, sensitivePlaintextFields_payload lib]
  · rename_i passphrase heq
    obtain ⟨r, hr⟩ := h
    have hplain (kind : Kind) : ∀ k, k ∈ envelopeKeys ∨ k = "schema_version".toList ∨ k = kind.marker →
        k = "cloudtype".toList ∨ k = "credential_kind".toList ∨ looksSensitive k = false := by
      have henvelope : ∀ k ∈ envelopeKeys, looksSensitive k = false := by decide
      rintro k (hk | rfl | rfl)
      · exact Or.inr (Or.inr (henvelope k hk))
      · decide
      · cases kind <;> decide
    rw [heq, hr, sensitivePlaintextFields_eq]
    refine List.filter_eq_nil_iff.mpr fun k hk hs => ?_
    rw [isSecret_eq_false (hplain a.kind k ((whole_keys a.toFilled _).2 k hk))] at hs
    exact Bool.false_ne_true hs
  · rename_i passphrase heq
    obtain ⟨r, hr⟩ := h
    obtain ⟨data', hd, hkeys, hrest, henc⟩ := encryptFields_payload lib a.toFilled passphrase r
    obtain rfl := Option.some.inj (hr.symm.trans hd)
    rw [heq, sensitivePlaintextFields_eq]
    refine List.filter_eq_nil_iff.mpr fun k hk hs => ?_
    by_cases hmem : k ∈ a.sensitive
    · obtain ⟨t, _, ht⟩ := henc k hmem
      unfold isSecret at hs
      rw [ht] at hs
      exact Bool.false_ne_true hs
    · rw [isSecret_congr (hrest k hmem)] at hs
      refine hmem ?_
      rw [← sensitivePlaintextFields_payload lib, sensitivePlaintextFields_eq]
      exact List.mem_filter.mpr ⟨hkeys ▸ hk, hs⟩

/-- The fields that are shown of a file that is not encrypted as a whole. -/
theorem Fieldwise.shown (h : Fieldwise lib a data) :
    (data.keys.filter fun k => lower k ∉ listMarkers) = "schema_version".toList :: a.fields.keys := by
  have hhead (kind : Kind) : ((headKeys kind).filter fun k => lower k ∉ listMarkers) =
      ["schema_version".toList] := by
    cases kind <;> decide
  have hfields : (a.fields.keys.filter fun k => lower k ∉ listMarkers) = a.fields.keys := by
    refine List.filter_eq_self.mpr fun k hk => ?_
    obtain ⟨_, _, _, _, _, hlower⟩ := a.field hk
    exact decide_eq_true hlower
  rw [h.keys, keys_payload, List.filter_append, hhead, hfields]
  rfl

/-- Is this value encrypted? -/
def isEnvelope (data : Data) (k : Text) : Bool := ((data.get k).bind Value.envelope).isSome

theorem isEnvelope_payload (f : Filled) (k : Text) : isEnvelope (f.payload lib) k = false := by
  unfold isEnvelope
  rw [get_payload]
  cases f.fields.get k with
  | some t => rfl
  | none =>
    rw [Option.map_none, Option.none_or]
    split_ifs <;> rfl

/-- The fields that are shown as encrypted. -/
theorem Fieldwise.envelopes (h : Fieldwise lib a data) (hs : a.StoredAs lib data) :
    (("schema_version".toList :: a.fields.keys).filter (isEnvelope data)) =
      match a.sealed with
      | .each _ => a.sensitive
      | _ => [] := by
  have hrest {k : Text} (hk : k ∉ a.sensitive) : isEnvelope data k = false := by
    unfold isEnvelope
    rw [h.rest k hk]
    exact isEnvelope_payload a.toFilled k
  have hversion := hrest (not_mem_sensitive a.toFilled (by decide : "schema_version".toList ∈ reserved))
  rw [List.filter_cons_of_neg (by rw [hversion]; exact Bool.false_ne_true)]
  unfold Account.StoredAs at hs
  split at hs
  · rename_i heq
    rw [heq, hs]
    exact List.filter_eq_nil_iff.mpr fun k _ hk => by
      rw [isEnvelope_payload] at hk
      exact Bool.false_ne_true hk
  · rename_i heq
    obtain ⟨r, hr⟩ := hs
    have hnone := h.not_whole
    rw [hr, (whole_keys a.toFilled _).1] at hnone
    cases hnone
  · rename_i passphrase heq
    obtain ⟨r, hr⟩ := hs
    obtain ⟨data', hd, _, _, henc⟩ := encryptFields_payload lib a.toFilled passphrase r
    obtain rfl := Option.some.inj (hr.symm.trans hd)
    rw [heq]
    refine List.filter_congr fun k hk => ?_
    by_cases hlooks : looksSensitive k = true
    · obtain ⟨t, _, ht⟩ := henc k (List.mem_filter.mpr ⟨hk, hlooks⟩)
      unfold isEnvelope
      rw [ht, Option.bind_some, envelope_encryptCascade, hlooks]
      rfl
    · rw [hrest fun hmem => hlooks (List.mem_filter.mp hmem).2]
      exact (Bool.eq_false_iff.mpr hlooks).symm

theorem lowered_get {w m : Text} (hm : ∀ k ∈ data.keys, lower k = w → k = m) (hlower : lower m = w) :
    (lowered data).get w = data.get m := by
  unfold lowered
  rw [Obj.get_assign_of_lawful, Obj.get_empty, Option.or_none]
  cases hget : data.get m with
  | none =>
    refine dictGet_eq_none fun hmem => ?_
    rw [List.map_map] at hmem
    obtain ⟨e, he, hw⟩ := List.mem_map.mp hmem
    have hk : e.1 ∈ data.keys := List.mem_map_of_mem he
    rw [← hm e.1 hk hw, Obj.mem_entries_iff.mp he] at hget
    cases hget
  | some v =>
    refine dictGet_eq_of_forall (fun e he hw => ?_) ?_
    · obtain ⟨e', he', rfl⟩ := List.mem_map.mp he
      have hk := hm e'.1 (List.mem_map_of_mem he') hw
      rw [← hk, Obj.mem_entries_iff.mp he'] at hget
      exact hget
    · exact List.mem_map.mpr ⟨(w, v), List.mem_map.mpr ⟨(m, v), Obj.mem_entries_iff.mpr hget, by rw [hlower]⟩, rfl⟩

theorem lowered_kindWord (h : Marked f data) {w : Text} (hw : w ∈ kindWords) :
    (lowered data).get w = if w = f.kind.marker then some (.scalar (.text f.entry)) else none := by
  have hlower : ∀ w ∈ kindWords, lower w = w := by decide
  have hmarker (kind : Kind) : lower kind.marker = kind.marker := by cases kind <;> decide
  have hm (k : Text) (hk : k ∈ data.keys) (hkw : lower k = w) : k = w := by
    rcases h.others k hk with rfl | hne
    · rw [← hkw, hmarker]
    · exact absurd (hkw ▸ hw) hne
  rw [lowered_get hm (hlower w hw)]
  split
  · rename_i heq
    rw [heq]
    exact h.marker
  · rename_i hne
    refine Obj.not_mem_keys_iff.mp fun hmem => ?_
    rcases h.others w hmem with heq | hnot
    · exact hne heq
    · exact hnot ((hlower w hw).symm ▸ hw)

theorem firstOf_eq {k k' : Text} : firstOf lib data k k' =
    ((((data.get k).filter truthy).or ((data.get k').filter truthy)).map (shown lib)).getD [] := by
  unfold firstOf
  cases (data.get k).filter truthy <;> rfl

/-- **What kind of file it is** is told from its marker. -/
theorem firstOf_marked (lib : Library) (h : Marked f data) :
    firstOf lib (lowered data) "cloudtype".toList "cloud_type".toList =
        (match f.kind with | .cloud => f.entry | .service => []) ∧
      firstOf lib (lowered data) "credential_kind".toList "kind".toList =
        (match f.kind with | .cloud => [] | .service => f.entry) := by
  have htruthy : truthy (.scalar (.text f.entry)) = true := decide_eq_true f.entry_ne
  have hsome : (some (Value.scalar (.text f.entry))).filter truthy = some (.scalar (.text f.entry)) := by
    rw [Option.filter_some, if_pos htruthy]
  rw [firstOf_eq, firstOf_eq, lowered_kindWord h (by decide : "cloudtype".toList ∈ kindWords),
    lowered_kindWord h (by decide : "cloud_type".toList ∈ kindWords),
    lowered_kindWord h (by decide : "credential_kind".toList ∈ kindWords),
    lowered_kindWord h (by decide : "kind".toList ∈ kindWords)]
  cases hk : f.kind with
  | cloud =>
    rw [if_pos (by decide), if_neg (by decide), if_neg (by decide), if_neg (by decide), hsome]
    exact ⟨rfl, rfl⟩
  | service =>
    rw [if_neg (by decide), if_neg (by decide), if_pos (by decide), if_neg (by decide), hsome]
    exact ⟨rfl, rfl⟩

/-- **What is shown of a file** is what is shown of its account. -/
theorem credentialEntry_eq {dir : Dir} {file : Text} (hload : loadCredential lib dir file = data)
    (h : a.StoredAs lib data) : credentialEntry lib dir file = a.outline file := by
  obtain ⟨hcloud, hservice⟩ := firstOf_marked lib (storedAs_marked h)
  have hne := a.entry_ne
  unfold credentialEntry
  dsimp only
  rw [hload, hcloud, hservice, secrets_storedAs h]
  by_cases hw : ∃ passphrase, a.sealed = .whole passphrase
  · obtain ⟨passphrase, heq⟩ := hw
    have hwhole : data.get "encrypted".toList = some (.scalar (.bool true)) := by
      unfold Account.StoredAs at h
      rw [heq] at h
      obtain ⟨r, hr⟩ := h
      rw [hr]
      exact (whole_keys a.toFilled _).1
    rw [decide_eq_true hwhole]
    unfold Account.outline Account.secrets
    rw [heq]
    cases hk : a.kind <;> simp [hne]
  · have hfields := storedAs_fieldwise h fun passphrase heq => hw ⟨passphrase, heq⟩
    have hnot : data.get "encrypted".toList ≠ some (.scalar (.bool true)) := by
      rw [hfields.not_whole]
      rintro ⟨⟩
    have henv := hfields.envelopes h
    rw [decide_eq_false hnot, if_neg Bool.false_ne_true, if_neg Bool.false_ne_true, hfields.shown]
    unfold isEnvelope at henv
    rw [henv]
    unfold Account.outline
    cases hs : a.sealed with
    | whole passphrase => exact absurd ⟨passphrase, hs⟩ hw
    | plain => cases hk : a.kind <;> simp [hne]
    | each passphrase => cases hk : a.kind <;> simp [hne]

end Data

/-! ## The refinement -/

section Refinement

variable {lib repr} {dir : Dir} {l : Ledger} {a : Account} {n : Text}

/-- **What an accepted request comes to**. -/
theorem vet_ok {holds : Text → Bool} {req : AddRequest} {f : Filled} {s : Text}
    (h : vet repr holds req = .ok (f, s)) :
    registry req.kind = some f.kind ∧ f.entry = req.type ∧
      f.fields = (req.fields.filter fun e => decide (e.2 ≠ [])) ∧ safeName req.account = true ∧
      s = f.entry ++ "-".toList ++ req.account ∧ ∀ ext ∈ credentialExts, holds (s ++ ext) = false := by
  unfold vet at h
  split at h
  · cases h
  · rename_i kind hkind
    split at h
    · cases h
    · rename_i entry rows known hfind
      dsimp only at h
      split_ifs at h with hname hunknown hmissing hshort hexists
      obtain ⟨rfl, rfl⟩ := Prod.mk.inj (Except.ok.inj h)
      have hentry := List.find?_some hfind
      refine ⟨hkind, of_decide_eq_true hentry, rfl, by simpa using hname, rfl, fun ext hext => ?_⟩
      exact Bool.eq_false_iff.mpr fun ht => hexists (List.any_eq_true.mpr ⟨ext, hext, ht⟩)

theorem Agrees.empty : Agrees lib Obj.empty Obj.empty where
  held := Obj.RelatedBy.empty
  named n hn := by cases hn

theorem Agrees.mem_iff (h : Agrees lib dir l) (n : Text) : n ∈ dir.keys ↔ n ∈ l.keys := h.held.mem_keys_iff n

theorem Agrees.holds_eq (h : Agrees lib dir l) :
    (fun n => decide (n ∈ dir.keys)) = fun n => decide (n ∈ l.keys) :=
  funext fun n => decide_eq_decide.mpr (h.mem_iff n)

/-- What is in the file of an account. -/
theorem Agrees.stored (h : Agrees lib dir l) (hn : l.get n = some a) :
    ∃ data, a.StoredAs lib data ∧ dir.get n = some (lib.dump data) ∧ loadCredential lib dir n = data := by
  have hmem : n ∈ l.keys := Obj.mem_keys_iff.mpr ⟨a, hn⟩
  obtain ⟨text, hd⟩ := Obj.mem_keys_iff.mp ((h.mem_iff n).mpr hmem)
  obtain ⟨data, rfl, hs⟩ := h.held.get hd hn
  obtain ⟨s, hne, rfl⟩ := h.named n hmem
  refine ⟨data, hs, hd, ?_⟩
  unfold loadCredential parseFile
  rw [hd, suffix_yaml hne, if_pos (Or.inl rfl), Option.getD_some, lib.load_dump]

theorem Agrees.set (h : Agrees lib dir l) {s text : Text} (hs : s ≠ []) (ht : Holds lib text a) :
    Agrees lib (dir.set (s ++ ".yaml".toList) text) (l.set (s ++ ".yaml".toList) a) where
  held := h.held.set _ ht
  named n hn := by
    obtain ⟨b, hb⟩ := Obj.mem_keys_iff.mp hn
    rw [Obj.get_set] at hb
    split at hb
    · exact ⟨s, hs, ‹_›⟩
    · exact h.named n (Obj.mem_keys_iff.mpr ⟨b, hb⟩)

theorem Agrees.erase (h : Agrees lib dir l) (n : Text) : Agrees lib (dir.erase n) (l.erase n) where
  held := h.held.erase n
  named n' hn := by
    obtain ⟨b, hb⟩ := Obj.mem_keys_iff.mp hn
    rw [Obj.get_erase] at hb
    split at hb
    · cases hb
    · exact h.named n' (Obj.mem_keys_iff.mpr ⟨b, hb⟩)

/-- The listings are one. -/
theorem credentialsList_eq (h : Agrees lib dir l) (place : Text) :
    credentialsList lib place dir = l.list place := by
  have hsuffix : (dir.keys.filter fun n => suffix n ∈ credentialExts) = dir.keys := by
    refine List.filter_eq_self.mpr fun n hn => ?_
    obtain ⟨s, hs, rfl⟩ := h.named n ((h.mem_iff n).mp hn)
    rw [suffix_yaml hs]
    decide
  have hentry : ∀ n ∈ sorted l.keys,
      (l.get n).map (Account.outline n) = some (credentialEntry lib dir n) := by
    intro n hn
    obtain ⟨a, ha⟩ := Obj.mem_keys_iff.mp (mem_sorted.mp hn)
    obtain ⟨data, hs, _, hload⟩ := h.stored ha
    rw [ha, Option.map_some, credentialEntry_eq hload hs]
  have hsorted : sorted dir.keys = sorted l.keys := sorted_congr dir.nodup l.nodup h.mem_iff
  unfold credentialsList Ledger.list
  rw [hsuffix, hsorted, List.filterMap_congr hentry, List.filterMap_eq_map']

theorem credentialsAdd_refines (h : Agrees lib dir l) (req : AddRequest) (r : Nonces) :
    Agrees lib (credentialsAdd lib repr dir req r).1 (l.add repr req).1 ∧
      (credentialsAdd lib repr dir req r).2 = (l.add repr req).2 := by
  unfold credentialsAdd Ledger.add
  rw [h.holds_eq]
  cases hv : vet repr (fun n => decide (n ∈ l.keys)) req with
  | error e => exact ⟨h, rfl⟩
  | ok v =>
    obtain ⟨f, s⟩ := v
    obtain ⟨_, _, _, _, rfl, _⟩ := vet_ok hv
    refine ⟨h.set (by simp) ?_, rfl⟩
    cases hp : req.passphrase with
    | none => exact ⟨_, rfl, rfl⟩
    | some passphrase => exact ⟨_, rfl, r, rfl⟩

/-- An account with secrets is stored plain. -/
theorem Account.sealed_of_secrets (h : a.secrets ≠ []) : a.sealed = .plain ∧ a.secrets = a.sensitive := by
  unfold Account.secrets at h ⊢
  cases hs : a.sealed with
  | plain => exact ⟨rfl, rfl⟩
  | whole _ =>
    rw [hs] at h
    exact absurd rfl h
  | each _ =>
    rw [hs] at h
    exact absurd rfl h

theorem filter_secrets (a : Account) : (some a).filter (fun a => decide (a.secrets ≠ [])) =
    if a.secrets = [] then none else some a := by
  rw [Option.filter_some]
  by_cases h : a.secrets = []
  · rw [if_pos h, if_neg (by simpa using h)]
  · rw [if_neg h, if_pos (decide_eq_true h)]

/-- A file that a command is carried out on is there. -/
theorem mem_of_credentialFile {holds : Text → Bool} (h : credentialFile repr holds n = none) :
    safeName n = true ∧ suffix n ∈ credentialExts ∧ holds n = true := by
  unfold credentialFile at h
  split_ifs at h with hname hfile
  rw [not_or, not_not] at hfile
  exact ⟨by simpa using hname, hfile.1, by simpa using hfile.2⟩

/-- A file that is there is found by a safe name. -/
theorem credentialFile_of_mem (repr : Text → Text) {holds : Text → Bool} (hs : suffix n ∈ credentialExts)
    (hn : holds n = true) : credentialFile repr holds n =
      if safeName n then none else some ("invalid credential file name ".toList ++ repr n) := by
  unfold credentialFile
  have hnot : ¬ (suffix n ∉ credentialExts ∨ holds n = false) := by
    rw [not_or, not_not, hn]
    exact ⟨hs, Bool.noConfusion⟩
  rw [if_neg hnot]
  cases safeName n <;> rfl

theorem credentialsEncrypt_refines (h : Agrees lib dir l) (name passphrase : Text) (r : Text → Nonces) :
    Agrees lib (credentialsEncrypt lib repr dir name passphrase r).1 (l.encrypt repr name passphrase).1 ∧
      (credentialsEncrypt lib repr dir name passphrase r).2 = (l.encrypt repr name passphrase).2 := by
  unfold credentialsEncrypt Ledger.encrypt
  dsimp only
  rw [h.holds_eq]
  cases hf : credentialFile repr (fun n => decide (n ∈ l.keys)) name with
  | some e => exact ⟨h, rfl⟩
  | none =>
    dsimp only
    split
    · exact ⟨h, rfl⟩
    · obtain ⟨a, hl⟩ := Obj.mem_keys_iff.mp (of_decide_eq_true (mem_of_credentialFile hf).2.2)
      obtain ⟨data, hs, _, hload⟩ := h.stored hl
      rw [hload, secrets_storedAs hs, hl]
      by_cases hnone : a.secrets = []
      · rw [if_pos hnone, filter_secrets, if_pos hnone]
        exact ⟨h, rfl⟩
      · rw [if_neg hnone, filter_secrets, if_neg hnone]
        dsimp only
        have hmem := h.mem_iff (stem name ++ ".encrypted.yaml".toList)
        by_cases hout : stem name ++ ".encrypted.yaml".toList ∈ l.keys
        · rw [if_pos hout, if_pos (hmem.mpr hout)]
          exact ⟨h, rfl⟩
        · rw [if_neg hout, if_neg (mt hmem.mp hout)]
          obtain ⟨hplain, hsecrets⟩ := Account.sealed_of_secrets hnone
          have hdata : data = a.payload lib := by
            unfold Account.StoredAs at hs
            rw [hplain] at hs
            exact hs
          obtain ⟨data', hd, _⟩ := encryptFields_payload lib a.toFilled passphrase r
          rw [hdata, hsecrets, hd]
          have hname : stem name ++ ".encrypted.yaml".toList =
              (stem name ++ ".encrypted".toList) ++ ".yaml".toList := by
            rw [List.append_assoc]
            rfl
          rw [hname]
          exact ⟨h.set (by simp) ⟨data', rfl, r, hd⟩, rfl⟩

theorem credentialsDelete_refines (h : Agrees lib dir l) (name : Text) :
    Agrees lib (credentialsDelete repr dir name).1 (l.delete repr name).1 ∧
      (credentialsDelete repr dir name).2 = (l.delete repr name).2 := by
  unfold credentialsDelete Ledger.delete
  rw [h.holds_eq]
  cases credentialFile repr (fun n => decide (n ∈ l.keys)) name with
  | some e => exact ⟨h, rfl⟩
  | none => exact ⟨h.erase name, rfl⟩

/-- **The helper refines the ledger**: it answers the same, and its directory holds the accounts. -/
theorem helper_refines (lib : Library) (repr : Text → Text) (place : Text) :
    Simulates (Agrees lib) Eq (step lib repr place) (Ledger.step repr place) := by
  rintro dir l c _ h rfl
  cases c with
  | list => exact ⟨h, congrArg Except.ok (credentialsList_eq h place)⟩
  | add req r => exact credentialsAdd_refines h req r
  | encrypt name passphrase r => exact credentialsEncrypt_refines h name passphrase r
  | delete name => exact credentialsDelete_refines h name

end Refinement

end LabInABox.Credentials.Helper
