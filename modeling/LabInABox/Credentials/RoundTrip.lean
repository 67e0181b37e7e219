import LabInABox.Credentials.Store
import Mathlib.Data.List.Infix
import Mathlib.Logic.Encodable.Basic
import Mathlib.Logic.Equiv.List

/-!
# Credential files are read as they were written

What `_write_file` writes and what `write_encrypted_copy` writes, loaded by name
(`scripts/setup_credentials.py`, `libs/primary.py`), for both kinds of file.

* The file is the first that its name leads to: `Reaches` says so of its directory.
* Two mappings are one when looking up gives the same.

Results:
* `decryptValue_ok`: a value is decrypted, whatever is cached and wherever the passphrase is given.
* `tryLoad_writeFile`: a written file gives its fields, plain or encrypted.
* `tryLoad_writeEncryptedCopy`: a copy with fields encrypted gives what the file gives.
* `stringField_of_mem_sensitivePlaintextFields`: the fields that look sensitive may be encrypted.
* `credentials_round_trip`: both.
-/

namespace LabInABox.Credentials

open Text

variable {lib : Library} {kind : Kind} {s : Session} {cache : Cache} {passphrase : Text}

/-! ## One value -/

theorem carries_self (es : List (Text × Scalar)) : Carries (dictGet es) es := fun _ _ => rfl

theorem askPassphrase_ok {envelope : Text → Option Scalar} {r : Nonces} {m : Bytes} {label : Text}
    {answers : Nat → Text} (hc : Carries envelope (encryptCascade lib.suite passphrase r m))
    (ha : ∀ i, answers i = passphrase) :
    askPassphrase lib answers envelope label 3 0 = .ok (m, passphrase) := by
  rw [askPassphrase, ha, decryptCascade_encryptCascade hc]

/-- **A value is decrypted**, whatever is cached and wherever the passphrase is given. -/
theorem decryptValue_ok {envelope : Text → Option Scalar} {r : Nonces} {m : Bytes} (cacheKey label : Text)
    (hc : Carries envelope (encryptCascade lib.suite passphrase r m)) (hs : s.Gives passphrase) :
    (decryptValue lib s cache envelope cacheKey label).1 = .ok m := by
  unfold decryptValue
  split
  · rename_i m' hm
    obtain ⟨pw, _, hpw⟩ := Option.bind_eq_some_iff.mp hm
    cases hd : decryptCascade lib.suite pw envelope with
    | error e =>
      rw [hd] at hpw
      cases hpw
    | ok m'' =>
      rw [hd] at hpw
      obtain rfl := Option.some.inj hpw
      rw [decryptCascade_ok hc hd]
  · dsimp only
    have hask (answers : Nat → Text) (ha : ∀ i, answers i = passphrase) :
        askPassphrase lib answers envelope label 3 0 = .ok (m, passphrase) := askPassphrase_ok hc ha
    split
    · rename_i pw henv
      split
      · rename_i m' hd
        rw [decryptCascade_ok hc hd]
      · rename_i e hd
        rcases hs with hs | ⟨answers, hans, ha⟩
        · rw [henv] at hs
          obtain rfl := Option.some.inj hs
          rw [decryptCascade_encryptCascade hc] at hd
          cases hd
        · rw [hans, Option.map_some, Option.getD_some, hask answers ha]
    · rename_i henv
      rcases hs with hs | ⟨answers, hans, ha⟩
      · rw [henv] at hs
        cases hs
      · rw [hans, Option.map_some, Option.getD_some, hask answers ha]

/-! ## The values of a file -/

/-- A value is read as another: it is that value and no envelope, or the envelope of its text. -/
def ReadAs (suite : Suite) (passphrase : Text) (v w : Option Value) : Prop :=
  v = w ∧ w.bind Value.envelope = none ∨ ∃ r t,
    v = some (.mapping (encryptCascade suite passphrase r (encodeUtf8 t))) ∧ w = some (.scalar (.text t))

theorem envelope_encryptCascade (suite : Suite) (passphrase : Text) (r : Nonces) (m : Bytes) :
    (Value.mapping (encryptCascade suite passphrase r m)).envelope =
      some (encryptCascade suite passphrase r m) := by
  have hget : dictGet (encryptCascade suite passphrase r m) "encrypted".toList = some (.bool true) := rfl
  unfold Value.envelope
  dsimp only
  rw [if_pos hget]

/-- The loop over the values reads each one. -/
theorem decryptFields_spec (path name : Text) {target : Text → Option Value} :
    ∀ (ks : List Text) (data : Data) (cache : Cache),
      ((∃ k, data.get k ≠ target k) → s.Gives passphrase) →
      (∀ k, ReadAs lib.suite passphrase (data.get k) (target k)) →
      (∀ k, data.get k ≠ target k → k ∈ ks) →
      ∃ d cache', decryptFields lib s path name ks data cache = (.data d, cache') ∧
        ∀ k, d.get k = target k
  | [], data, cache, _, _, hks => by
    refine ⟨data, cache, rfl, fun k => ?_⟩
    by_contra hne
    cases hks k hne
  | k :: ks, data, cache, hs, h, hks => by
    unfold decryptFields
    rcases h k with ⟨hk, hnone⟩ | ⟨r, t, hk, htarget⟩
    · rw [hk, hnone]
      refine decryptFields_spec path name ks data cache hs h fun k' hne => ?_
      refine (List.mem_cons.mp (hks k' hne)).resolve_left ?_
      rintro rfl
      exact hne hk
    · rw [hk, Option.bind_some, envelope_encryptCascade]
      dsimp only
      have hgives : s.Gives passphrase := by
        refine hs ⟨k, ?_⟩
        rw [hk, htarget]
        rintro ⟨⟩
      have hok : (decryptValue lib s cache (dictGet (encryptCascade lib.suite passphrase r (encodeUtf8 t)))
          (path ++ "::".toList ++ k) (k ++ " (".toList ++ name ++ ")".toList)).1 = .ok (encodeUtf8 t) :=
        decryptValue_ok _ _ (carries_self _) hgives
      cases hd : decryptValue lib s cache (dictGet (encryptCascade lib.suite passphrase r (encodeUtf8 t)))
        (path ++ "::".toList ++ k) (k ++ " (".toList ++ name ++ ")".toList) with
      | mk res cache' =>
        rw [hd] at hok
        dsimp only at hok
        rw [hok]
        dsimp only
        rw [decodeUtf8_encodeUtf8]
        dsimp only
        refine decryptFields_spec path name ks _ cache' (fun _ => hgives) (fun k' => ?_) fun k' hne => ?_
        · rw [Obj.get_set]
          split
          · rename_i hkk
            rw [hkk, htarget]
            exact Or.inl ⟨rfl, rfl⟩
          · exact h k'
        · rw [Obj.get_set] at hne
          split at hne
          · rename_i hkk
            rw [hkk, htarget] at hne
            exact absurd rfl hne
          · rename_i hkk
            exact (List.mem_cons.mp (hks k' hne)).resolve_left hkk

/-! ## Markers -/

theorem get_withoutMarkers (kind : Kind) (data : Data) (k : Text) : (withoutMarkers kind data).get k =
    if kind.isMarker k ∨ k = "unencrypted".toList ∨ k = "schema_version".toList then none
    else data.get k := by
  unfold withoutMarkers
  rw [Obj.get_erase, Obj.get_erase, Obj.get_filter]
  by_cases h₁ : k = "schema_version".toList
  · rw [if_pos h₁, if_pos (Or.inr (Or.inr h₁))]
  · rw [if_neg h₁]
    by_cases h₂ : k = "unencrypted".toList
    · rw [if_pos h₂, if_pos (Or.inr (Or.inl h₂))]
    · rw [if_neg h₂]
      cases hm : kind.isMarker k with
      | true =>
        rw [if_pos (Or.inl rfl)]
        cases data.get k <;> simp [hm]
      | false =>
        rw [if_neg]
        · cases data.get k <;> simp [hm]
        · rintro (h | h | h)
          · cases h
          · exact h₂ h
          · exact h₁ h

/-- The marker of a file that has one. -/
theorem markerOf_eq {data : Data} {m : Text} {v : Value} (hm : data.get m = some v)
    (hmarker : kind.isMarker m = true) (honly : ∀ k ∈ data.keys, kind.isMarker k = true → k = m) :
    markerOf lib kind data = markerText lib v := by
  have hmem : m ∈ data.keys.filter kind.isMarker :=
    List.mem_filter.mpr ⟨Obj.mem_keys_iff.mpr ⟨v, hm⟩, hmarker⟩
  unfold markerOf
  cases hlast : (data.keys.filter kind.isMarker).getLast? with
  | none =>
    rw [List.getLast?_eq_none_iff] at hlast
    rw [hlast] at hmem
    cases hmem
  | some k =>
    have hk := List.mem_filter.mp (List.mem_of_getLast? hlast)
    dsimp only
    rw [honly k hk.1 hk.2, hm]
    rfl

/-! ## Finding the file -/

/-- A name leads to the directory: no directory before it has a file of that name. -/
def Reaches (files : Files) (dirs : List Text) (dir name : Text) : Prop :=
  dir ∈ dirs ∧ ∀ d ∈ dirs.takeWhile (· ≠ dir), ∀ ext ∈ cloudAccountExts, files d (name ++ ext) = none

theorem cloudAccountPath_write {files : Files} {dirs : List Text} {dir name : Text}
    (h : Reaches files dirs dir name) (text : Text) :
    cloudAccountPath (files.write dir (name ++ ".yaml".toList) text) dirs name =
      some (dir, ".yaml".toList) := by
  obtain ⟨hmem, hbefore⟩ := h
  have hsplit : ∃ rest, dirs = dirs.takeWhile (· ≠ dir) ++ dir :: rest := by
    have hne : dirs.dropWhile (· ≠ dir) ≠ [] := by
      intro hnil
      have hall := List.dropWhile_eq_nil_iff.mp hnil dir hmem
      simp at hall
    obtain ⟨d, rest, hd⟩ := List.exists_cons_of_ne_nil hne
    have hhead := List.head_dropWhile_not (· ≠ dir) hne
    have hdir : d = dir := by
      simp only [hd, List.head_cons] at hhead
      simpa using hhead
    refine ⟨rest, ?_⟩
    have happ := (List.takeWhile_append_dropWhile (p := (· ≠ dir)) (l := dirs)).symm
    rw [hd, hdir] at happ
    exact happ
  obtain ⟨rest, hrest⟩ := hsplit
  unfold cloudAccountPath
  have hwrite (d n : Text) : files.write dir (name ++ ".yaml".toList) text d n =
      if d = dir ∧ n = name ++ ".yaml".toList then some text else files d n := rfl
  rw [hrest, List.flatMap_append, List.find?_append, List.find?_eq_none.mpr, Option.none_or,
    List.flatMap_cons]
  · have hexts : cloudAccountExts = ".yaml".toList :: cloudAccountExts.tail := rfl
    rw [hexts, List.map_cons, List.cons_append, List.find?_cons_of_pos]
    rw [hwrite, if_pos ⟨rfl, rfl⟩]
    rfl
  · intro p hp
    obtain ⟨d, hd, hp⟩ := List.mem_flatMap.mp hp
    obtain ⟨ext, hext, rfl⟩ := List.mem_map.mp hp
    have hne : d ≠ dir := by simpa using List.mem_takeWhile_imp hd
    rw [hwrite, if_neg fun hc => hne hc.1, hbefore d hd ext hext]
    simp

/-! ## Written files -/

/-- The load gives the data that is looked up so. -/
def Loaded.Is (l : Loaded) (get : Text → Option Value) : Prop := ∃ d, l = .data d ∧ ∀ k, d.get k = get k

theorem Loaded.is_data {d : Data} {get : Text → Option Value} :
    (Loaded.data d).Is get ↔ ∀ k, d.get k = get k := by
  constructor
  · rintro ⟨_, h, hget⟩
    cases h
    exact hget
  · exact fun hget => ⟨d, rfl, hget⟩

theorem get_textFields (fields : Obj Text Text) (k : Text) :
    (textFields fields).get k = (fields.get k).map fun t => .scalar (.text t) := by
  unfold textFields
  rw [Obj.get_filterMap]
  cases fields.get k <;> rfl

/-- The keys that a file has beside its fields. -/
def reserved : List Text :=
  ["encrypted", "unencrypted", "schema_version", "cloudtype", "cloud_type", "credential_kind", "kind",
    "CLOUDTYPE", "CREDENTIAL_KIND"].map String.toList

/-- No field has a name that stands for anything else, and every entry is a word. -/
theorem table_spec (kind : Kind) : ∀ e ∈ kind.table, strip e.1 = e.1 ∧ e.1 ≠ [] ∧
    ∀ f ∈ e.2, kind.isMarker f.1 = false ∧ f.1 ∉ reserved := by
  cases kind <;> decide

theorem isMarker_marker (kind : Kind) : kind.isMarker kind.marker = true := by
  cases kind <;> decide

theorem isMarker_envelopeKeys (kind : Kind) : ∀ k ∈ envelopeKeys, kind.isMarker k = false ∧
    k ≠ kind.marker ∧ k ≠ "unencrypted".toList ∧ k ≠ "schema_version".toList := by
  cases kind <;> decide

theorem isMarker_versions (kind : Kind) : kind.isMarker "unencrypted".toList = false ∧
    kind.isMarker "schema_version".toList = false ∧ kind.marker ≠ "unencrypted".toList ∧
    kind.marker ≠ "schema_version".toList := by
  cases kind <;> decide

section Written

variable {entry : Text} {rows : List Row} {fields : Obj Text Text}

/-- A plain payload, key by key. -/
theorem get_filePayload_plain (k : Text) :
    (filePayload lib kind entry fields none).get k =
      ((fields.get k).map fun t => .scalar (.text t)).or
        (if k = "unencrypted".toList then some (.scalar (.bool true))
          else if k = "schema_version".toList then some (.scalar (.text "1.0".toList))
          else if k = kind.marker then some (.scalar (.text entry)) else none) := by
  unfold filePayload
  dsimp only
  rw [Obj.get_assign_entries, get_textFields, Obj.get_set, Obj.get_set, Obj.get_set]
  rfl

/-- An encrypted payload, key by key. -/
theorem get_filePayload_encrypted (r : Nonces) (k : Text) :
    (filePayload lib kind entry fields (some (passphrase, r))).get k =
      ((dictGet (encryptCascade lib.suite passphrase r
        (encodeUtf8 (lib.dump (textFields fields)))) k).map Value.scalar).or
        (if k = "schema_version".toList then some (.scalar (.text "1.0".toList))
          else if k = kind.marker then some (.scalar (.text entry)) else none) := by
  unfold filePayload
  dsimp only
  have hmap := dictGet_map (encryptCascade lib.suite passphrase r
    (encodeUtf8 (lib.dump (textFields fields)))) Value.scalar k
  rw [Obj.get_assign_of_lawful, hmap, Obj.get_set, Obj.get_set]
  rfl

/-- A registered field stands for nothing else. -/
theorem field_spec (hentry : (entry, rows) ∈ kind.table)
    (hfields : ∀ k ∈ fields.keys, k ∈ rows.map Prod.fst) {k : Text} (hk : fields.get k ≠ none) :
    kind.isMarker k = false ∧ k ∉ reserved := by
  obtain ⟨v, hv⟩ := Option.ne_none_iff_exists'.mp hk
  obtain ⟨f, hf, rfl⟩ := List.mem_map.mp (hfields k (Obj.mem_keys_iff.mpr ⟨v, hv⟩))
  exact (table_spec kind _ hentry).2.2 f hf

/-- A reserved key or a marker is no field. -/
theorem get_field_eq_none (hentry : (entry, rows) ∈ kind.table)
    (hfields : ∀ k ∈ fields.keys, k ∈ rows.map Prod.fst) {k : Text}
    (hk : kind.isMarker k = true ∨ k ∈ reserved) : fields.get k = none := by
  by_contra hne
  obtain ⟨h₁, h₂⟩ := field_spec hentry hfields hne
  rcases hk with hk | hk
  · rw [h₁] at hk
    cases hk
  · exact h₂ hk

theorem markerText_entry (hentry : (entry, rows) ∈ kind.table) :
    markerText lib (.scalar (.text entry)) = entry := by
  obtain ⟨hstrip, hne, _⟩ := table_spec kind _ hentry
  unfold markerText
  dsimp only
  have ht : (Scalar.text entry).truthy = true := decide_eq_true hne
  rw [if_pos ht]
  exact hstrip

/-- What is left of a payload that is a marker. -/
theorem markerOf_filePayload (hentry : (entry, rows) ∈ kind.table)
    (hfields : ∀ k ∈ fields.keys, k ∈ rows.map Prod.fst) (encrypt : Option (Text × Nonces)) :
    markerOf lib kind (filePayload lib kind entry fields encrypt) = entry := by
  obtain ⟨hu, hv, hmu, hmv⟩ := isMarker_versions kind
  have hmarker := isMarker_marker kind
  have hnone : fields.get kind.marker = none := get_field_eq_none hentry hfields (Or.inl hmarker)
  cases encrypt with
  | none =>
    rw [markerOf_eq (m := kind.marker) (v := .scalar (.text entry)) _ hmarker, markerText_entry hentry]
    · intro k hk hm
      obtain ⟨v, hv'⟩ := Obj.mem_keys_iff.mp hk
      rw [get_filePayload_plain, get_field_eq_none hentry hfields (Or.inl hm), Option.map_none,
        Option.none_or] at hv'
      split at hv'
      · rename_i h
        rw [h, hu] at hm
        cases hm
      · split at hv'
        · rename_i h
          rw [h, hv] at hm
          cases hm
        · split at hv'
          · rename_i h
            exact h
          · cases hv'
    · rw [get_filePayload_plain, hnone, Option.map_none, Option.none_or, if_neg hmu, if_neg hmv, if_pos rfl]
  | some e =>
    obtain ⟨pw, r⟩ := e
    have henv {k : Text} (hm : kind.isMarker k = true) (es : List (Text × Scalar))
        (hes : es.map Prod.fst = envelopeKeys) : dictGet es k = none := by
      refine dictGet_eq_none fun hk => ?_
      rw [hes] at hk
      rw [(isMarker_envelopeKeys kind k hk).1] at hm
      cases hm
    rw [markerOf_eq (m := kind.marker) (v := .scalar (.text entry)) _ hmarker, markerText_entry hentry]
    · intro k hk hm
      obtain ⟨v, hv'⟩ := Obj.mem_keys_iff.mp hk
      rw [get_filePayload_encrypted, henv hm _ rfl, Option.map_none, Option.none_or] at hv'
      split at hv'
      · rename_i h
        rw [h, hv] at hm
        cases hm
      · split at hv'
        · rename_i h
          exact h
        · cases hv'
    · rw [get_filePayload_encrypted, henv hmarker _ rfl, Option.map_none, Option.none_or, if_neg hmv,
        if_pos rfl]

/-- A file that was just written is loaded. -/
theorem tryLoad_write {files : Files} {dirs : List Text} {dir name : Text}
    (h : Reaches files dirs dir name) (data : Data) :
    tryLoad lib kind (files.write dir (name ++ ".yaml".toList) (lib.dump data)) dirs s cache name =
      loadData lib kind s cache (dir ++ "/".toList ++ name ++ ".yaml".toList) name data := by
  have htext : files.write dir (name ++ ".yaml".toList) (lib.dump data) dir (name ++ ".yaml".toList) =
      some (lib.dump data) := if_pos ⟨rfl, rfl⟩
  unfold tryLoad
  dsimp only
  rw [cloudAccountPath_write h]
  dsimp only
  rw [htext, Option.getD_some, parseFile, if_pos (Or.inl rfl), lib.load_dump]

/-- The data that a load gives, with the marker under its key. -/
theorem get_mark (d : Data) (entry k : Text) : (d.set kind.key (.scalar (.text entry))).get k =
    if k = kind.key then some (.scalar (.text entry)) else d.get k := Obj.get_set _ _ _

end Written

/-- **A written file gives its fields**, plain or encrypted. -/
theorem tryLoad_writeFile {files : Files} {dirs : List Text} {dir name : Text}
    (h : Reaches files dirs dir name) {entry : Text} {rows : List Row} (hentry : (entry, rows) ∈ kind.table)
    {fields : Obj Text Text} (hfields : ∀ k ∈ fields.keys, k ∈ rows.map Prod.fst)
    {encrypt : Option (Text × Nonces)} (hs : ∀ e, encrypt = some e → s.Gives e.1) (cache : Cache) :
    (tryLoad lib kind (writeFile lib kind files dir (name ++ ".yaml".toList) entry fields encrypt) dirs s
      cache name).1.Is fun k => if k = kind.key then some (.scalar (.text entry))
        else (fields.get k).map fun t => .scalar (.text t) := by
  obtain ⟨_, hne, _⟩ := table_spec kind _ hentry
  obtain ⟨hu, hv, hmu, hmv⟩ := isMarker_versions kind
  unfold writeFile
  rw [tryLoad_write h, loadData]
  dsimp only
  rw [markerOf_filePayload hentry hfields, if_neg hne]
  cases encrypt with
  | none =>
    have hget (k : Text) : (withoutMarkers kind (filePayload lib kind entry fields none)).get k =
        (fields.get k).map fun t => .scalar (.text t) := by
      rw [get_withoutMarkers, get_filePayload_plain]
      split
      · rename_i hk
        rw [get_field_eq_none hentry hfields]
        · rfl
        · rcases hk with hk | rfl | rfl
          · exact Or.inl hk
          · exact Or.inr (by decide)
          · exact Or.inr (by decide)
      · rename_i hk
        push Not at hk
        have hkm : k ≠ kind.marker := by
          rintro rfl
          exact hk.1 (isMarker_marker kind)
        rw [if_neg hk.2.1, if_neg hk.2.2, if_neg hkm, Option.or_none]
    have hencrypted : fields.get "encrypted".toList = none :=
      get_field_eq_none hentry hfields (Or.inr (by decide))
    rw [if_neg]
    · have hread (k : Text) : ReadAs lib.suite []
          ((withoutMarkers kind (filePayload lib kind entry fields none)).get k)
          ((fields.get k).map fun t => .scalar (.text t)) := by
        refine Or.inl ⟨hget k, ?_⟩
        cases fields.get k <;> rfl
      obtain ⟨d, cache', hd, hdget⟩ := decryptFields_spec (dir ++ "/".toList ++ name ++ ".yaml".toList) name
        (withoutMarkers kind (filePayload lib kind entry fields none)).keys
        (withoutMarkers kind (filePayload lib kind entry fields none)) cache
        (fun ⟨k, hk⟩ => absurd (hget k) hk) hread fun k hk => absurd (hget k) hk
      rw [hd]
      refine ⟨_, rfl, fun k => ?_⟩
      rw [get_mark, hdget]
    · rw [hget, hencrypted]
      intro hc
      cases hc
  | some e =>
    obtain ⟨pw, r⟩ := e
    have hget {k : Text} (hk : k ∈ envelopeKeys) :
        (withoutMarkers kind (filePayload lib kind entry fields (some (pw, r)))).get k =
          (dictGet (encryptCascade lib.suite pw r (encodeUtf8 (lib.dump (textFields fields)))) k).map
            Value.scalar := by
      obtain ⟨h₁, h₂, h₃, h₄⟩ := isMarker_envelopeKeys kind k hk
      rw [get_withoutMarkers, get_filePayload_encrypted, if_neg, if_neg h₄, if_neg h₂, Option.or_none]
      rintro (hc | hc | hc)
      · rw [h₁] at hc
        cases hc
      · exact h₃ hc
      · exact h₄ hc
    have hencrypted : (withoutMarkers kind (filePayload lib kind entry fields (some (pw, r)))).get
        "encrypted".toList = some (.scalar (.bool true)) := (hget (by decide)).trans rfl
    have hcarries : Carries (fun k => ((withoutMarkers kind (filePayload lib kind entry fields
        (some (pw, r)))).get k).map (Value.toScalar lib))
        (encryptCascade lib.suite pw r (encodeUtf8 (lib.dump (textFields fields)))) := by
      intro k hk
      dsimp only
      rw [hget hk, Option.map_map]
      exact Option.map_id'
    rw [if_pos hencrypted]
    have hok := @decryptValue_ok lib s cache pw _ r _ (dir ++ "/".toList ++ name ++ ".yaml".toList)
      (kind.noun ++ " '".toList ++ name ++ "'".toList) hcarries (hs _ rfl)
    cases hd : decryptValue lib s cache (fun k => ((withoutMarkers kind (filePayload lib kind entry fields
        (some (pw, r)))).get k).map (Value.toScalar lib)) (dir ++ "/".toList ++ name ++ ".yaml".toList)
        (kind.noun ++ " '".toList ++ name ++ "'".toList) with
    | mk res cache' =>
      rw [hd] at hok
      dsimp only at hok ⊢
      rw [hok]
      dsimp only
      rw [decodeUtf8_encodeUtf8]
      dsimp only
      rw [lib.load_dump]
      refine ⟨_, rfl, fun k => ?_⟩
      rw [get_mark, get_textFields]

/-! ## A copy with fields encrypted -/

/-- A key with a text that is not a marker: what `sensitive_plaintext_fields` gives, and more. -/
def StringField (kind : Kind) (data : Data) (k : Text) : Prop :=
  (∃ t, data.get k = some (.scalar (.text t))) ∧ kind.isMarker k = false

/-- Nothing in the data is encrypted, and it is not so as a whole. -/
structure Plaintext (data : Data) : Prop where
  whole : data.get "encrypted".toList ≠ some (.scalar (.bool true))
  values : ∀ k, (data.get k).bind Value.envelope = none

/-- Encrypting the values of some keys leaves the other keys. -/
theorem encryptFields_spec (r : Text → Nonces) :
    ∀ (ks : List Text) (data : Data), ks.Nodup → (∀ k ∈ ks, ∃ t, data.get k = some (.scalar (.text t))) →
      ∃ data', encryptFields lib passphrase r ks data = some data' ∧ data'.keys = data.keys ∧
        (∀ k ∉ ks, data'.get k = data.get k) ∧
        ∀ k ∈ ks, ∃ t, data.get k = some (.scalar (.text t)) ∧
          data'.get k = some (.mapping (encryptCascade lib.suite passphrase (r k) (encodeUtf8 t)))
  | [], data, _, _ => ⟨data, rfl, rfl, fun _ _ => rfl, fun _ hk => by cases hk⟩
  | k :: ks, data, hnd, htext => by
    obtain ⟨t, ht⟩ := htext k List.mem_cons_self
    obtain ⟨hk, hks⟩ := List.nodup_cons.mp hnd
    have hset {k' : Text} (hne : k' ≠ k) (v : Value) : (data.set k v).get k' = data.get k' := by
      rw [Obj.get_set, if_neg hne]
    have hother {k' : Text} (hk' : k' ∈ ks) : k' ≠ k := fun h => hk (h ▸ hk')
    obtain ⟨data', hd, hkeys, hrest, henc⟩ := encryptFields_spec r ks
      (data.set k (.mapping (encryptCascade lib.suite passphrase (r k) (encodeUtf8 t)))) hks
      fun k' hk' => by
        rw [hset (hother hk')]
        exact htext k' (List.mem_cons_of_mem _ hk')
    unfold encryptFields
    rw [ht]
    refine ⟨data', hd, ?_, fun k' hk' => ?_, fun k' hk' => ?_⟩
    · rw [hkeys, Obj.keys_set_of_mem (Obj.mem_keys_iff.mpr ⟨_, ht⟩)]
    · rw [List.mem_cons, not_or] at hk'
      rw [hrest k' hk'.2, hset hk'.1]
    · rcases List.mem_cons.mp hk' with rfl | hk'
      · refine ⟨t, ht, ?_⟩
        rw [hrest _ hk, Obj.get_set, if_pos rfl]
      · obtain ⟨t', ht', he⟩ := henc k' hk'
        rw [hset (hother hk')] at ht'
        exact ⟨t', ht', he⟩

/-- Data that is read as plain data is loaded as it, whatever it is called. -/
theorem loadData_of_readAs {data data' : Data} (hs : (∃ k, data'.get k ≠ data.get k) → s.Gives passphrase)
    (hkeys : data'.keys = data.keys)
    (hread : ∀ k, ReadAs lib.suite passphrase (data'.get k) (data.get k))
    (hmarkers : ∀ k, kind.isMarker k = true → data'.get k = data.get k)
    (hwhole : data.get "encrypted".toList ≠ some (.scalar (.bool true))) (path name : Text)
    (get : Text → Option Value) :
    (loadData lib kind s cache path name data').1.Is get ↔ markerOf lib kind data ≠ [] ∧
      ∀ k, get k = if k = kind.key then some (.scalar (.text (markerOf lib kind data)))
        else (withoutMarkers kind data).get k := by
  have hmarker : markerOf lib kind data' = markerOf lib kind data := by
    unfold markerOf
    rw [hkeys]
    cases hlast : (data.keys.filter kind.isMarker).getLast? with
    | none => rfl
    | some k =>
      dsimp only
      rw [hmarkers k (List.mem_filter.mp (List.mem_of_getLast? hlast)).2]
  have hread' (k : Text) : ReadAs lib.suite passphrase ((withoutMarkers kind data').get k)
      ((withoutMarkers kind data).get k) := by
    rw [get_withoutMarkers, get_withoutMarkers]
    split
    · exact Or.inl ⟨rfl, rfl⟩
    · exact hread k
  have hwhole' : (withoutMarkers kind data').get "encrypted".toList ≠ some (.scalar (.bool true)) := by
    rw [get_withoutMarkers]
    split
    · rintro ⟨⟩
    · intro hc
      rcases hread "encrypted".toList with ⟨heq, _⟩ | ⟨r, t, heq, _⟩
      · exact hwhole (heq ▸ hc)
      · rw [heq] at hc
        cases hc
  unfold loadData
  dsimp only
  rw [hmarker]
  by_cases hm : markerOf lib kind data = []
  · rw [if_pos hm]
    constructor
    · rintro ⟨_, h, _⟩
      cases h
    · exact fun h => absurd hm h.1
  · rw [if_neg hm, if_neg hwhole']
    have hgives : (∃ k, (withoutMarkers kind data').get k ≠ (withoutMarkers kind data).get k) →
        s.Gives passphrase := by
      rintro ⟨k, hk⟩
      refine hs ⟨k, fun heq => hk ?_⟩
      rw [get_withoutMarkers, get_withoutMarkers, heq]
    have hkeys' (k : Text) (hne : (withoutMarkers kind data').get k ≠ (withoutMarkers kind data).get k) :
        k ∈ (withoutMarkers kind data').keys := by
      rcases hread' k with ⟨heq, _⟩ | ⟨r, t, heq, _⟩
      · exact absurd heq hne
      · exact Obj.mem_keys_iff.mpr ⟨_, heq⟩
    obtain ⟨d, cache', hd, hget⟩ := decryptFields_spec path name (withoutMarkers kind data').keys
      (withoutMarkers kind data') cache hgives hread' hkeys'
    rw [hd]
    have hmark : (Loaded.mark kind (markerOf lib kind data) (.data d)).Is get ↔
        ∀ k, (d.set kind.key (.scalar (.text (markerOf lib kind data)))).get k = get k := Loaded.is_data
    rw [hmark]
    constructor
    · intro h
      refine ⟨hm, fun k => ?_⟩
      rw [← h k, get_mark, hget]
    · intro h k
      rw [h.2 k, get_mark, hget]

/-- **The copy of a file with fields encrypted** gives what the file gives. -/
theorem tryLoad_writeEncryptedCopy {files : Files} {dirs : List Text} {dir name ext : Text} {data : Data}
    (hpath : cloudAccountPath files dirs name = some (dir, ext))
    (hparse : parseFile lib ext ((files dir (name ++ ext)).getD []) = .ok (.mapping data))
    (hplain : Plaintext data) {keys : List Text} (hnd : keys.Nodup)
    (hkeys : ∀ k ∈ keys, StringField kind data k)
    (h : Reaches files dirs dir (stem (name ++ ext) ++ ".encrypted".toList)) (hs : s.Gives passphrase)
    (r : Text → Nonces) (s₀ : Session) (cache₀ cache : Cache) :
    ∃ files', writeEncryptedCopy lib files dir (name ++ ext) data keys passphrase r =
        some (files', stem (name ++ ext) ++ ".encrypted.yaml".toList) ∧
      ∀ get, (tryLoad lib kind files' dirs s cache (stem (name ++ ext) ++ ".encrypted".toList)).1.Is get ↔
        (tryLoad lib kind files dirs s₀ cache₀ name).1.Is get := by
  obtain ⟨data', hd, hkeys', hrest, henc⟩ := encryptFields_spec r keys data hnd fun k hk => (hkeys k hk).1
  have hread (k : Text) : ReadAs lib.suite passphrase (data'.get k) (data.get k) := by
    by_cases hk : k ∈ keys
    · obtain ⟨t, ht, he⟩ := henc k hk
      exact Or.inr ⟨r k, t, he, ht⟩
    · exact Or.inl ⟨hrest k hk, hplain.values k⟩
  have hmarkers (k : Text) (hm : kind.isMarker k = true) : data'.get k = data.get k := by
    refine hrest k fun hk => ?_
    rw [(hkeys k hk).2] at hm
    cases hm
  have hname : stem (name ++ ext) ++ ".encrypted.yaml".toList =
      stem (name ++ ext) ++ ".encrypted".toList ++ ".yaml".toList := by
    rw [List.append_assoc]
    rfl
  unfold writeEncryptedCopy
  rw [hd, Option.map_some, hname]
  refine ⟨_, rfl, fun get => ?_⟩
  have horiginal : tryLoad lib kind files dirs s₀ cache₀ name =
      loadData lib kind s₀ cache₀ (dir ++ "/".toList ++ name ++ ext) name data := by
    unfold tryLoad
    dsimp only
    rw [hpath]
    dsimp only
    rw [hparse]
  rw [tryLoad_write h, horiginal, loadData_of_readAs (fun _ => hs) hkeys' hread hmarkers hplain.whole,
    @loadData_of_readAs lib kind s₀ cache₀ passphrase data data (fun ⟨k, hk⟩ => absurd rfl hk) rfl
      (fun k => Or.inl ⟨rfl, hplain.values k⟩) (fun _ _ => rfl) hplain.whole]

/-! ## What looks sensitive -/

/-- A character whose upper case is a letter is that letter or the small one. -/
theorem eq_or_of_toUpper_eq {c d : Char} (h : c.toUpper = d) : c = d ∨ c.val = d.val + 32 := by
  have hz : 'A'.val - 'a'.val + 32 = 0 := by decide
  unfold Char.toUpper at h
  split at h
  · right
    rw [← h, UInt32.add_assoc, hz, UInt32.add_zero]
  · exact Or.inl h

/-- Letters of the hints, each with the lower case of what has it in upper case. -/
def hintLetters : List (Char × List Char) :=
  [('S', ['s', 'ß', 'ſ', 'ﬅ', 'ﬆ']), ('K', ['k']), ('O', ['o'])]

theorem lowerChar_of_mem_upperChar {c : Char} {e : Char × List Char} (he : e ∈ hintLetters)
    (hc : e.1 ∈ upperChar c) : lowerChar c ∈ e.2 := by
  unfold upperChar at hc
  split at hc
  · rename_i t ht
    obtain ⟨l₁, l₂, hl, _⟩ := List.lookup_eq_some_iff.mp ht
    have hspec : ∀ p ∈ [('ß', "SS"), ('ŉ', "ʼN"), ('ǰ', "J̌"), ('ẖ', "H̱"), ('ẗ', "T̈"), ('ẘ', "W̊"), ('ẙ', "Y̊"),
        ('ẚ', "Aʾ"), ('ﬀ', "FF"), ('ﬁ', "FI"), ('ﬂ', "FL"), ('ﬃ', "FFI"), ('ﬄ', "FFL"), ('ﬅ', "ST"),
        ('ﬆ', "ST"), ('ı', "I"), ('ſ', "S")], ∀ e ∈ hintLetters, e.1 ∈ p.2.toList → lowerChar p.1 ∈ e.2 := by
      decide
    exact hspec (c, t) (hl ▸ by simp) e he hc
  · have heq := List.mem_singleton.mp hc
    have hletter : ∀ e ∈ hintLetters, lowerChar e.1 ∈ e.2 ∧ e.1.toLower.val = e.1.val + 32 ∧
        lowerChar e.1.toLower ∈ e.2 := by
      decide
    obtain ⟨hbig, hval, hsmall⟩ := hletter e he
    rcases eq_or_of_toUpper_eq heq.symm with h | h
    · rw [h]
      exact hbig
    · rw [Char.ext (h.trans hval.symm)]
      exact hsmall

/-- **A field that looks sensitive** is a text, and no marker. -/
theorem stringField_of_mem_sensitivePlaintextFields {data : Data} {k : Text}
    (hk : k ∈ sensitivePlaintextFields data) : StringField kind data k := by
  unfold sensitivePlaintextFields at hk
  obtain ⟨_, hk⟩ := List.mem_filter.mp hk
  rw [Bool.and_eq_true, Bool.and_eq_true, Bool.and_eq_true] at hk
  obtain ⟨⟨⟨htext, _⟩, _⟩, hlooks⟩ := hk
  refine ⟨?_, ?_⟩
  · cases hv : data.get k with
    | none =>
      rw [hv] at htext
      cases htext
    | some v =>
      rw [hv] at htext
      rcases v with (_ | _ | _ | t | _) | _
      case scalar.text => exact ⟨t, rfl⟩
      all_goals cases htext
  · cases hm : kind.isMarker k with
    | false => rfl
    | true =>
      have hlower : lower k ∈ kind.markers := of_decide_eq_true hm
      -- no marker has an s, nor both a k and an o, and every hint has
      have hmarkers : ∀ m ∈ kind.markers, ('k' ∉ m ∨ 'o' ∉ m) ∧ ∀ x ∈ ['s', 'ß', 'ſ', 'ﬅ', 'ﬆ'], x ∉ m := by
        cases kind <;> decide
      have hhints : ∀ h ∈ sensitiveHints, 'S' ∈ h ∨ 'K' ∈ h ∧ 'O' ∈ h := by decide
      have hback {e : Char × List Char} (he : e ∈ hintLetters) (hmem : e.1 ∈ k.flatMap upperChar) :
          ∃ x ∈ e.2, x ∈ lower k := by
        obtain ⟨c, hc, hup⟩ := List.mem_flatMap.mp hmem
        exact ⟨_, lowerChar_of_mem_upperChar he hup, List.mem_map_of_mem hc⟩
      obtain ⟨h, hh, htails⟩ := List.any_eq_true.mp hlooks
      obtain ⟨u, hu, hprefix⟩ := List.any_eq_true.mp htails
      have hsub {x : Char} (hx : x ∈ h) : x ∈ k.flatMap upperChar :=
        ((List.mem_tails _ _).mp hu).subset ((List.isPrefixOf_iff_prefix.mp hprefix).subset hx)
      obtain ⟨hko, hs⟩ := hmarkers _ hlower
      rcases hhints h hh with hS | ⟨hK, hO⟩
      · obtain ⟨x, hx, hxk⟩ := hback (e := ('S', ['s', 'ß', 'ſ', 'ﬅ', 'ﬆ'])) (by decide) (hsub hS)
        exact absurd hxk (hs x hx)
      · obtain ⟨x, hx, hxk⟩ := hback (e := ('K', ['k'])) (by decide) (hsub hK)
        obtain ⟨y, hy, hyk⟩ := hback (e := ('O', ['o'])) (by decide) (hsub hO)
        obtain rfl := List.mem_singleton.mp hx
        obtain rfl := List.mem_singleton.mp hy
        rcases hko with hk' | ho
        · exact absurd hxk hk'
        · exact absurd hyk ho

/-- The fields that look sensitive are distinct. -/
theorem nodup_sensitivePlaintextFields (data : Data) : (sensitivePlaintextFields data).Nodup :=
  data.nodup.filter _

/-! ## A library and an account -/

/-- A cipher that shows its key. -/
def showKey : Bytes → Bytes → Bytes
  | [], m => 0 :: m
  | b :: key, m => 1 :: b :: showKey key m

/-- What is behind the key. -/
def readKey : Bytes → Bytes → Option Bytes
  | [], 0 :: m => some m
  | b :: key, 1 :: b' :: c => if b' = b then readKey key c else none
  | _, _ => none

theorem readKey_showKey (key m : Bytes) : readKey key (showKey key m) = some m := by
  induction key with
  | nil => rfl
  | cons b key ih => exact (if_pos rfl).trans ih

theorem readKey_showKey_of_ne {key key' : Bytes} (h : key' ≠ key) (m : Bytes) :
    readKey key' (showKey key m) = none := by
  induction key generalizing key' with
  | nil =>
    cases key' with
    | nil => exact absurd rfl h
    | cons b key' => rfl
  | cons b key ih =>
    cases key' with
    | nil => rfl
    | cons b' key' =>
      by_cases hb : b = b'
      · refine (if_pos hb).trans (ih fun hk => h ?_)
        rw [hb, hk]
      · exact if_neg hb

/-- A stand-in for both ciphers. -/
def openCipher : Aead where
  encrypt key _ m := showKey key m
  decrypt key _ c := readKey key c
  decrypt_encrypt key _ m := readKey_showKey key m
  authentic _ _ _ m h := readKey_showKey_of_ne h m

instance encodableChar : Encodable Char :=
  Encodable.ofLeftInverse Char.toNat Char.ofNat Char.ofNat_toNat

instance encodableScalar : Encodable Scalar :=
  Encodable.ofLeftInverse (α := Unit ⊕ Bool ⊕ Int ⊕ List Char ⊕ List Char × Bool)
    (fun
      | .null => .inl ()
      | .bool b => .inr (.inl b)
      | .int n => .inr (.inr (.inl n))
      | .text t => .inr (.inr (.inr (.inl t)))
      | .other shown truthy => .inr (.inr (.inr (.inr (shown, truthy)))))
    (fun
      | .inl () => .null
      | .inr (.inl b) => .bool b
      | .inr (.inr (.inl n)) => .int n
      | .inr (.inr (.inr (.inl t))) => .text t
      | .inr (.inr (.inr (.inr (shown, truthy)))) => .other shown truthy)
    (fun s => by cases s <;> rfl)

instance encodableValue : Encodable Value :=
  Encodable.ofLeftInverse (α := Scalar ⊕ List (List Char × Scalar))
    (fun
      | .scalar s => .inl s
      | .mapping entries => .inr entries)
    (fun
      | .inl s => .scalar s
      | .inr entries => .mapping entries)
    (fun v => by cases v <;> rfl)

instance encodableData : Encodable Data :=
  Encodable.ofLeftInjection (α := List (List Char × Value)) Obj.entries
    (fun es => if h : (es.map Prod.fst).Nodup then some ⟨es, h⟩ else none)
    (fun d => dif_pos d.nodup)

/-- The fields of an account. -/
def sampleFields : Obj Text Text := Obj.empty.set "HETZNER_TOKEN".toList "t0ken".toList

/-- Its file, parsed. -/
def sampleData : Data :=
  (((Obj.empty.set "cloudtype".toList (.scalar (.text "hetzner".toList))).set "schema_version".toList
    (.scalar (.text "1.0".toList))).set "unencrypted".toList (.scalar (.bool true))).set
    "HETZNER_TOKEN".toList (.scalar (.text "t0ken".toList))

/-- What PyYAML writes for it. -/
def sampleText : Text :=
  "cloudtype: hetzner\nschema_version: '1.0'\nunencrypted: true\nHETZNER_TOKEN: t0ken\n".toList

/-- A library that writes this file as PyYAML does, and any other by its number. -/
def sampleLibrary : Library where
  suite :=
    { kdf := fun passphrase salt _ _ _ => passphrase ++ salt
      hkdf := fun master info salt => master ++ info ++ salt
      aes := openCipher
      chacha := openCipher }
  dump d := if d.entries = sampleData.entries then sampleText else List.replicate (Encodable.encode d) '.'
  load t :=
    if t = sampleText then .ok (.mapping sampleData)
    else ((Encodable.decode t.length).map fun d => Except.ok (Document.mapping d)).getD (.error [])
  load_dump d := by
    by_cases hd : d.entries = sampleData.entries
    · rw [if_pos hd, if_pos rfl, Obj.ext hd]
    · have hne : List.replicate (Encodable.encode d) '.' ≠ sampleText := by
        intro h
        have hc : 'c' ∈ sampleText := by decide
        rw [← h] at hc
        exact absurd (List.eq_of_mem_replicate hc) (by decide)
      rw [if_neg hd, if_neg hne, List.length_replicate, Encodable.encodek, Option.map_some, Option.getD_some]
  parse _ _ := .error []
  str _ := []
  malformed := []

theorem plaintext_sampleData : Plaintext sampleData where
  whole := by decide
  values k := by
    cases hk : sampleData.get k with
    | none => rfl
    | some v =>
      have hall : ∀ e ∈ sampleData.entries, e.2.envelope = none := by decide
      exact hall (k, v) (Obj.mem_entries_iff.mpr hk)

/-! ## The round trip -/

/-- **What is written is what is loaded**, for a file that is written plain or encrypted and for a copy
with fields encrypted. -/
theorem credentials_round_trip (lib : Library) (kind : Kind) (files : Files) (dirs : List Text) (dir : Text)
    (s : Session) (cache : Cache) :
    (∀ (name entry : Text) (rows : List Row) (fields : Obj Text Text) (encrypt : Option (Text × Nonces)),
      Reaches files dirs dir name → (entry, rows) ∈ kind.table → (∀ k ∈ fields.keys, k ∈ rows.map Prod.fst) →
      (∀ e, encrypt = some e → s.Gives e.1) →
      (tryLoad lib kind (writeFile lib kind files dir (name ++ ".yaml".toList) entry fields encrypt) dirs s
        cache name).1.Is fun k => if k = kind.key then some (.scalar (.text entry))
          else (fields.get k).map fun t => .scalar (.text t)) ∧
    ∀ (name ext : Text) (data : Data) (keys : List Text) (passphrase : Text) (r : Text → Nonces)
      (s₀ : Session) (cache₀ : Cache), cloudAccountPath files dirs name = some (dir, ext) →
      parseFile lib ext ((files dir (name ++ ext)).getD []) = .ok (.mapping data) → Plaintext data →
      keys.Nodup → (∀ k ∈ keys, StringField kind data k) →
      Reaches files dirs dir (stem (name ++ ext) ++ ".encrypted".toList) → s.Gives passphrase →
      ∃ files', writeEncryptedCopy lib files dir (name ++ ext) data keys passphrase r =
          some (files', stem (name ++ ext) ++ ".encrypted.yaml".toList) ∧
        ∀ get, (tryLoad lib kind files' dirs s cache (stem (name ++ ext) ++ ".encrypted".toList)).1.Is get ↔
          (tryLoad lib kind files dirs s₀ cache₀ name).1.Is get := by
  constructor
  · intro name entry rows fields encrypt h hentry hfields hs
    exact tryLoad_writeFile h hentry hfields hs cache
  · intro name ext data keys passphrase r s₀ cache₀ hpath hparse hplain hnd hkeys h hs
    exact tryLoad_writeEncryptedCopy hpath hparse hplain hnd hkeys h hs r s₀ cache₀ cache

theorem credentials_round_trip_sample :
    ((tryLoad sampleLibrary .cloud (writeFile sampleLibrary .cloud (fun _ _ => none) "/creds".toList
        ("hetzner-eu".toList ++ ".yaml".toList) "hetzner".toList sampleFields none) ["/creds".toList]
        ⟨some "secret".toList, none⟩ (fun _ => none) "hetzner-eu".toList).1.Is fun k =>
      if k = Kind.cloud.key then some (.scalar (.text "hetzner".toList))
      else (sampleFields.get k).map fun t => .scalar (.text t)) ∧
    ∃ files', writeEncryptedCopy sampleLibrary (Files.write (fun _ _ => none) "/creds".toList
        "hetzner-eu.yaml".toList sampleText) "/creds".toList ("hetzner-eu".toList ++ ".yaml".toList) sampleData
        ["HETZNER_TOKEN".toList] "secret".toList (fun _ => ⟨[1], [2], [3]⟩) =
          some (files', stem ("hetzner-eu".toList ++ ".yaml".toList) ++ ".encrypted.yaml".toList) ∧
      ∀ get, (tryLoad sampleLibrary .cloud files' ["/creds".toList] ⟨some "secret".toList, none⟩ (fun _ => none)
          (stem ("hetzner-eu".toList ++ ".yaml".toList) ++ ".encrypted".toList)).1.Is get ↔
        (tryLoad sampleLibrary .cloud (Files.write (fun _ _ => none) "/creds".toList
          "hetzner-eu.yaml".toList sampleText) ["/creds".toList] ⟨none, none⟩ (fun _ => none)
          "hetzner-eu".toList).1.Is get := by
  have hreaches (files : Files) (name : Text) : Reaches files ["/creds".toList] "/creds".toList name := by
    refine ⟨by decide, fun d hd => ?_⟩
    have hnil : (["/creds".toList] : List Text).takeWhile (· ≠ "/creds".toList) = [] := by decide
    rw [hnil] at hd
    cases hd
  have hs : Session.Gives ⟨some "secret".toList, none⟩ "secret".toList := Or.inl (by decide)
  constructor
  · exact (credentials_round_trip sampleLibrary .cloud (fun _ _ => none) ["/creds".toList] "/creds".toList
      ⟨some "secret".toList, none⟩ fun _ => none).1 _ _ _ sampleFields none (hreaches _ _)
      (List.mem_cons_self) (by decide) fun e he => by cases he
  · refine (credentials_round_trip sampleLibrary .cloud (Files.write (fun _ _ => none) "/creds".toList
      "hetzner-eu.yaml".toList sampleText) ["/creds".toList] "/creds".toList
      ⟨some "secret".toList, none⟩ fun _ => none).2 "hetzner-eu".toList ".yaml".toList sampleData
      ["HETZNER_TOKEN".toList] "secret".toList (fun _ => ⟨[1], [2], [3]⟩) ⟨none, none⟩ (fun _ => none)
      (by decide) ?_ plaintext_sampleData (by decide) ?_ (hreaches _ _) hs
    · have hfile : Files.write (fun _ _ => none) "/creds".toList "hetzner-eu.yaml".toList sampleText
          "/creds".toList ("hetzner-eu".toList ++ ".yaml".toList) = some sampleText := if_pos ⟨rfl, by decide⟩
      have hload : sampleLibrary.load sampleText = .ok (.mapping sampleData) := by
        unfold sampleLibrary
        dsimp only
        rw [if_pos rfl]
      rw [hfile, parseFile, if_pos (Or.inl rfl), Option.getD_some, hload]
    · intro k hk
      obtain rfl := List.mem_singleton.mp hk
      exact ⟨⟨_, rfl⟩, by decide⟩

end LabInABox.Credentials
