import LabInABox.Schema.Validate

/-!
# Which backend a node is on

Model of the places that tell a node's backend: the preflight (`node_backend_eff` and `_uses_libvirt` of
`validate_lab_definition`), the image downloads (`image_download_requests`, `libs/lab_creation.py`), and
`get_backend` with `effective_backend_name` (`libs/backends.py`), on which the node is created.

* A field is what JSON gives, or absent. Looking a list or a mapping up by name raises a `TypeError`;
  here it is no name, so the preflight reports it and `get_backend` dies.
* The credentials files are a parameter: what `try_load_cloud_account` reads of one, and what
  `list_cloud_accounts` lists. Neither is derived from the other.
* What `resolve` of the chosen backend then finds is `Backend/Reuse.lean`'s.

Results:
* `agrees_iff`: when all of them give one answer.
-/

namespace LabInABox.Backend

open Text Schema

/-! ## Values -/

/-- `bool(value)`. -/
def truthy : Json → Bool
  | .null => false
  | .bool b => b
  | .int n => n ≠ 0
  | .real shown => shown.1 ≠ "0.0".toList && shown.1 ≠ "-0.0".toList
  | .text t => t ≠ []
  | .list items => items ≠ []
  | .mapping items => items ≠ []

/-- `_jq_or(value)`, of a field that may be absent. -/
def jqOr : Option Json → Json
  | none | some .null | some (.bool false) => .text []
  | some v => v

/-- `_empty(value)`. -/
def isEmpty : Json → Bool
  | .null | .bool false => true
  | .text t => t = []
  | _ => false

/-- `a or b`. -/
def pyOr (a b : Json) : Json := if truthy a then a else b

/-- `value == t`, for a text `t`. -/
def isText (t : Text) : Json → Bool
  | .text s => s = t
  | _ => false

/-- `.get(key)`. -/
def get (field : Option Json) : Json := field.getD .null

theorem truthy_jqOr (field : Option Json) : truthy (jqOr field) = truthy (get field) := by
  rcases field with _ | v
  · rfl
  · cases v with
    | bool b => cases b <;> rfl
    | _ => rfl

/-- A field that counts is not changed by the default of its absence. -/
theorem jqOr_of_truthy {field : Option Json} (h : truthy (get field) = true) :
    jqOr field = get field := by
  rcases field with _ | v
  · cases h
  · cases v with
    | null => cases h
    | bool b =>
      cases b with
      | false => cases h
      | true => rfl
    | _ => rfl

theorem truthy_pyOr (a b : Json) : truthy (pyOr a b) = (truthy a || truthy b) := by
  unfold pyOr
  cases ha : truthy a with
  | true => simpa using ha
  | false => simp

theorem truthy_of_not_isEmpty {t : Text} (h : isEmpty (.text t) = false) : truthy (.text t) = true := by
  simpa [isEmpty, truthy] using h

theorem isEmpty_of_truthy {v : Json} (h : truthy v = true) : isEmpty v = false := by
  cases v with
  | null => cases h
  | bool b =>
    cases b with
    | false => cases h
    | true => rfl
  | text t => simpa [isEmpty, truthy] using h
  | _ => rfl

theorem eq_text_of_isText {t : Text} {v : Json} (h : isText t v = true) : v = .text t := by
  cases v with
  | text s => rw [of_decide_eq_true h]
  | _ => cases h

/-! ## The places -/

/-- `BACKENDS`. -/
def BACKENDS : List Text :=
  ["libvirt".toList, "harvester".toList, "hetzner".toList, "aws".toList, "gcp".toList, "alibaba".toList,
    "scaleway".toList, "upcloud".toList, "ovhcloud".toList, "exoscale".toList]

/-- `"libvirt"`. -/
def libvirt : Text := "libvirt".toList

/-- `CLOUD_BACKEND_NAMES`. -/
def CLOUD_BACKEND_NAMES : List Text :=
  BACKENDS.filter fun name => name ≠ libvirt && name ≠ "harvester".toList

/-- `value in names`. -/
def isIn (names : List Text) (v : Json) : Bool := names.any fun name => isText name v

/-- The fields of a node, or of the common section, that choose a backend. -/
structure Fields where
  backend : Option Json
  cloudAccount : Option Json

/-- The credentials files: the `CLOUDTYPE` of one that can be loaded, and the names with the types that are
listed. -/
structure Accounts where
  load : Text → Option Text
  listed : List (Text × Text)
  load_ne : ∀ {name ct}, load name = some ct → ct ≠ []

variable (accounts : Accounts) (BACKEND : Option Text) (common node : Fields)

/-- The cloud account the preflight takes for a node. -/
def cloudAccount : Json := pyOr (jqOr node.cloudAccount) (jqOr common.cloudAccount)

/-- The backend a lab names for a node. -/
def namedBackend : Json := pyOr (jqOr node.backend) (jqOr common.backend)

/-- The cloudtype of a node's account, in the preflight. -/
def accountCloudtype : Option Text :=
  if isEmpty (cloudAccount common node) then none else accounts.load (cloudAccount common node).str

/-- The preflight reports no error about the backend of a node. -/
def PreflightTakes : Prop :=
  (isEmpty (jqOr common.backend) = false → isIn BACKENDS (jqOr common.backend) = true) ∧
  (isEmpty (jqOr node.backend) = false → isIn BACKENDS (jqOr node.backend) = true) ∧
  (isEmpty (cloudAccount common node) = false → ∃ ct, accounts.load (cloudAccount common node).str = some ct ∧
    ct ∈ CLOUD_BACKEND_NAMES ∧
    (isEmpty (namedBackend common node) = false → isText ct (namedBackend common node) = true))

/-- `node_backend_eff`. -/
def nodeBackendEff : Json :=
  pyOr ((accountCloudtype accounts common node).elim .null .text)
    (pyOr (namedBackend common node) (pyOr (jqOr (BACKEND.map .text)) (.text libvirt)))

/-- `_uses_libvirt(node)`. -/
def usesLibvirt : Bool :=
  if (accountCloudtype accounts common node).isSome then false
  else isEmpty (namedBackend common node) || isText libvirt (namedBackend common node)

/-- The node is not skipped by `image_download_requests`. -/
def downloadsImage : Bool :=
  !(truthy (cloudAccount common node) ||
    (truthy (namedBackend common node) && !isText libvirt (namedBackend common node)))

/-- `node_cfg.get("backend") or common_cfg.get("backend") or config.get("BACKEND") or "libvirt"`. -/
def backendName : Json :=
  pyOr (get node.backend) (pyOr (get common.backend) (pyOr (get (BACKEND.map .text)) (.text libvirt)))

/-- `_resolve_account_name`: the account, if any, unless it dies. -/
def resolveAccountName : Option (Option Text) :=
  let account := pyOr (get node.cloudAccount) (get common.cloudAccount)
  if truthy account then some (some account.str)
  else if isIn CLOUD_BACKEND_NAMES (backendName BACKEND common node) then
    match (accounts.listed.filter fun a => isText a.2 (backendName BACKEND common node)).map Prod.fst with
    | [] => some none
    | [name] => some (some name)
    | _ => none
  else some none

/-- `get_backend`: the name of the backend it makes, unless it dies. -/
def getBackend : Option Text := do
  let account ← resolveAccountName accounts BACKEND common node
  let explicitBackend := pyOr (get node.backend) (get common.backend)
  match account with
  | some name =>
    let ct ← accounts.load name
    if truthy explicitBackend && !isText ct explicitBackend then none
    else BACKENDS.find? fun b => b = ct
  | none => BACKENDS.find? fun b => isText b (backendName BACKEND common node)

/-- `effective_backend_name`, unless it dies. -/
def effectiveBackendName : Option Json := do
  let account ← resolveAccountName accounts BACKEND common node
  match account with
  | some name => (accounts.load name).map .text
  | none => some (backendName BACKEND common node)

/-! ## Where they agree -/

/-- Every place takes the node for one on `b`. -/
structure Agrees (b : Text) : Prop where
  preflight : nodeBackendEff accounts BACKEND common node = .text b
  effective : effectiveBackendName accounts BACKEND common node = some (.text b)
  uses : usesLibvirt accounts common node = decide (b = libvirt)
  downloads : downloadsImage common node = decide (b = libvirt)

/-- The lab names a cloud account or a backend for the node; or neither, and the configuration names none
besides libvirt. -/
def Chooses : Prop :=
  truthy (cloudAccount common node) = true ∨ truthy (namedBackend common node) = true ∨
    (isEmpty (cloudAccount common node) = true ∧ (BACKEND.getD [] = [] ∨ BACKEND = some libvirt))

variable {accounts BACKEND common node} {a b : Option Json}

theorem truthy_pyOr_jqOr : truthy (pyOr (jqOr a) (jqOr b)) = truthy (pyOr (get a) (get b)) := by
  rw [truthy_pyOr, truthy_pyOr, truthy_jqOr, truthy_jqOr]

/-- Absent fields count as empty texts only where neither counts. -/
theorem pyOr_jqOr_of_truthy (h : truthy (pyOr (jqOr a) (jqOr b)) = true) :
    pyOr (jqOr a) (jqOr b) = pyOr (get a) (get b) := by
  unfold pyOr at h ⊢
  by_cases ha : truthy (get a) = true
  · rw [truthy_jqOr, if_pos ha, if_pos ha, jqOr_of_truthy ha]
  · rw [truthy_jqOr, if_neg ha] at h ⊢
    rw [truthy_jqOr] at h
    rw [if_neg ha, jqOr_of_truthy h]

theorem backendName_of_named (h : truthy (namedBackend common node) = true) :
    backendName BACKEND common node = namedBackend common node := by
  rw [namedBackend, pyOr_jqOr_of_truthy h]
  rw [namedBackend, truthy_pyOr_jqOr] at h
  unfold backendName pyOr at *
  by_cases hn : truthy (get node.backend) = true
  · rw [if_pos hn, if_pos hn]
  · rw [if_neg hn] at h ⊢
    rw [if_neg hn, if_pos h]

theorem backendName_of_not_named (h : truthy (namedBackend common node) = false) :
    backendName BACKEND common node = pyOr (get (BACKEND.map .text)) (.text libvirt) := by
  rw [namedBackend, truthy_pyOr_jqOr, truthy_pyOr, Bool.or_eq_false_iff] at h
  unfold backendName
  rw [pyOr, h.1, if_neg Bool.false_ne_true, pyOr, h.2, if_neg Bool.false_ne_true]

theorem resolveAccountName_of_account (h : truthy (cloudAccount common node) = true) :
    resolveAccountName accounts BACKEND common node = some (some (cloudAccount common node).str) := by
  have ht := h
  rw [cloudAccount, truthy_pyOr_jqOr] at ht
  rw [cloudAccount, pyOr_jqOr_of_truthy h, resolveAccountName, if_pos ht]

/-- A backend the lab names for a node that the preflight takes is one of `BACKENDS`. -/
theorem named_mem (hp : PreflightTakes accounts common node)
    (h : truthy (namedBackend common node) = true) :
    ∃ t ∈ BACKENDS, namedBackend common node = .text t := by
  have hin : isIn BACKENDS (namedBackend common node) = true := by
    unfold namedBackend pyOr at h ⊢
    by_cases hn : truthy (jqOr node.backend) = true
    · rw [if_pos hn]
      exact hp.2.1 (isEmpty_of_truthy hn)
    · rw [if_neg hn] at h ⊢
      exact hp.1 (isEmpty_of_truthy h)
  obtain ⟨t, ht, his⟩ := List.any_eq_true.mp hin
  exact ⟨t, ht, eq_text_of_isText his⟩

/-- A field that names no backend is empty, in a node that the preflight takes. -/
theorem isEmpty_named (hp : PreflightTakes accounts common node)
    (h : truthy (namedBackend common node) = false) : isEmpty (namedBackend common node) = true := by
  rw [namedBackend, truthy_pyOr, Bool.or_eq_false_iff] at h
  rw [namedBackend, pyOr, h.1, if_neg Bool.false_ne_true]
  by_contra hne
  have hin := hp.1 (by simpa using hne)
  obtain ⟨t, ht, his⟩ := List.any_eq_true.mp hin
  rw [eq_text_of_isText his] at h
  have hnil : t = [] := by simpa [truthy] using h.2
  rw [hnil] at ht
  exact absurd ht (by decide)

theorem not_mem_cloud : libvirt ∉ CLOUD_BACKEND_NAMES := by decide

theorem truthy_text_of_mem {t : Text} (h : t ∈ BACKENDS) : truthy (.text t) = true := by
  refine decide_eq_true fun hnil => ?_
  rw [hnil] at h
  exact absurd h (by decide)

theorem find_eq {t u : Text} (h : BACKENDS.find? (fun b => decide (b = t)) = some u) : u = t := by
  have := List.find?_some h
  exact of_decide_eq_true this

theorem find_isText_eq {v : Json} {u : Text} (h : BACKENDS.find? (fun b => isText b v) = some u) :
    v = .text u := by
  have := List.find?_some h
  exact eq_text_of_isText this

theorem mem_of_cloud {t : Text} (h : t ∈ CLOUD_BACKEND_NAMES) : t ∈ BACKENDS ∧ t ≠ libvirt :=
  ⟨(List.mem_filter.mp h).1, fun he => not_mem_cloud (he ▸ h)⟩

variable {b : Text}

/-- A node with a cloud account is on the account's cloud. -/
theorem agrees_of_account (hp : PreflightTakes accounts common node)
    (hg : getBackend accounts BACKEND common node = some b)
    (ha : truthy (cloudAccount common node) = true) : Agrees accounts BACKEND common node b := by
  obtain ⟨ct, hload, hcloud, -⟩ := hp.2.2 (isEmpty_of_truthy ha)
  have hname : resolveAccountName accounts BACKEND common node =
      some (some (cloudAccount common node).str) := resolveAccountName_of_account ha
  have hct : accountCloudtype accounts common node = some ct := by
    rw [accountCloudtype, if_neg (by rw [isEmpty_of_truthy ha]; exact Bool.false_ne_true), hload]
  obtain rfl : b = ct := by
    rw [getBackend, hname] at hg
    simp only [Option.bind_eq_bind, Option.bind_some, hload] at hg
    split at hg
    · cases hg
    · exact find_eq hg
  obtain ⟨hmem, hne⟩ := mem_of_cloud hcloud
  refine ⟨?_, ?_, ?_, ?_⟩
  · rw [nodeBackendEff, hct, Option.elim_some, pyOr, if_pos (truthy_text_of_mem hmem)]
  · rw [effectiveBackendName, hname]
    simp only [Option.bind_eq_bind, Option.bind_some, hload, Option.map_some]
  · rw [usesLibvirt, hct]
    simp [hne]
  · rw [downloadsImage, ha]
    simp [hne]

/-- So is a node that names a backend, and no account. -/
theorem agrees_of_named (hp : PreflightTakes accounts common node)
    (hg : getBackend accounts BACKEND common node = some b)
    (ha : truthy (cloudAccount common node) = false)
    (hn : truthy (namedBackend common node) = true) : Agrees accounts BACKEND common node b := by
  obtain ⟨t, hmem, hv⟩ := named_mem hp hn
  have hback : backendName BACKEND common node = .text t := by rw [backendName_of_named hn, hv]
  have hexp : pyOr (get node.backend) (get common.backend) = .text t := by
    rw [← hv, namedBackend, pyOr_jqOr_of_truthy hn]
  have htrue := truthy_text_of_mem hmem
  obtain ⟨rfl, heff⟩ : b = t ∧ effectiveBackendName accounts BACKEND common node = some (.text t) := by
    unfold getBackend at hg
    unfold effectiveBackendName
    cases hr : resolveAccountName accounts BACKEND common node with
    | none =>
      rw [hr] at hg
      cases hg
    | some account =>
      rw [hr] at hg
      cases account with
      | none =>
        simp only [Option.bind_eq_bind, Option.bind_some, hback] at hg ⊢
        exact ⟨(Json.text.inj (find_isText_eq hg)).symm, trivial⟩
      | some name =>
        simp only [Option.bind_eq_bind, Option.bind_some, hexp, htrue, Bool.true_and] at hg ⊢
        cases hload : accounts.load name with
        | none =>
          rw [hload] at hg
          cases hg
        | some ct =>
          rw [hload] at hg
          simp only [Option.bind_some, Option.map_some] at hg ⊢
          split at hg
          · cases hg
          · rename_i hct
            have hteq : t = ct := by simpa [isText] using hct
            exact ⟨(find_eq hg).trans hteq.symm, by rw [hteq]⟩
  by_cases he : isEmpty (cloudAccount common node) = true
  · have hct : accountCloudtype accounts common node = none := by rw [accountCloudtype, if_pos he]
    refine ⟨?_, heff, ?_, ?_⟩
    · rw [nodeBackendEff, hct, hv, Option.elim_none, pyOr, if_neg (by decide), pyOr, if_pos htrue]
    · rw [usesLibvirt, hct, hv, isEmpty_of_truthy htrue]
      rfl
    · rw [downloadsImage, ha, hv, htrue]
      simp [isText]
  · -- an account that counts for the preflight alone is on the backend the node names
    obtain ⟨ct, hload, hcloud, heq⟩ := hp.2.2 (by simpa using he)
    have hteq : b = ct := by
      have := heq (isEmpty_of_truthy hn)
      rw [hv] at this
      exact of_decide_eq_true this
    have hct : accountCloudtype accounts common node = some b := by
      rw [accountCloudtype, if_neg he, hload, hteq]
    have hne : b ≠ libvirt := by
      rw [hteq]
      exact (mem_of_cloud hcloud).2
    refine ⟨?_, heff, ?_, ?_⟩
    · rw [nodeBackendEff, hct, Option.elim_some, pyOr, if_pos htrue]
    · rw [usesLibvirt, hct]
      simp [hne]
    · rw [downloadsImage, ha, hv, htrue]
      simp [isText, hne]

/-- **Where the places agree**, for a node that the preflight takes and `get_backend` makes a backend
for. -/
theorem agrees_iff (hp : PreflightTakes accounts common node)
    (hg : getBackend accounts BACKEND common node = some b) :
    Agrees accounts BACKEND common node b ↔ Chooses BACKEND common node := by
  by_cases ha : truthy (cloudAccount common node) = true
  · exact ⟨fun _ => Or.inl ha, fun _ => agrees_of_account hp hg ha⟩
  by_cases hn : truthy (namedBackend common node) = true
  · exact ⟨fun _ => Or.inr (Or.inl hn), fun _ => agrees_of_named hp hg (by simpa using ha) hn⟩
  have ha' : truthy (cloudAccount common node) = false := by simpa using ha
  have hn' : truthy (namedBackend common node) = false := by simpa using hn
  have hback : backendName BACKEND common node = pyOr (get (BACKEND.map .text)) (.text libvirt) :=
    backendName_of_not_named hn'
  have hdown : downloadsImage common node = true := by rw [downloadsImage, ha', hn']; rfl
  constructor
  · intro h
    have hb : b = libvirt := by
      have := h.downloads
      rw [hdown] at this
      exact of_decide_eq_true this.symm
    have hpre := h.preflight
    by_cases he : isEmpty (cloudAccount common node) = true
    · refine Or.inr (Or.inr ⟨he, ?_⟩)
      rw [nodeBackendEff, accountCloudtype, if_pos he, Option.elim_none, pyOr, if_neg (by decide), pyOr,
        hn', if_neg Bool.false_ne_true, hb] at hpre
      cases hB : BACKEND with
      | none => exact Or.inl rfl
      | some B =>
        by_cases hnil : B = []
        · exact Or.inl hnil
        · rw [hB, pyOr, if_pos (by simpa [jqOr, truthy] using hnil)] at hpre
          exact Or.inr (congrArg some (Json.text.inj hpre))
    · obtain ⟨ct, hload, hcloud, -⟩ := hp.2.2 (by simpa using he)
      obtain ⟨hmem, hne⟩ := mem_of_cloud hcloud
      rw [nodeBackendEff, accountCloudtype, if_neg he, hload, Option.elim_some, pyOr,
        if_pos (truthy_text_of_mem hmem), hb] at hpre
      exact absurd (Json.text.inj hpre) hne
  · rintro (h | h | ⟨he, hB⟩)
    · exact absurd h ha
    · exact absurd h hn
    · have hlib : truthy (.text libvirt) = true := by decide
      have hname : pyOr (get (BACKEND.map .text)) (.text libvirt) = .text libvirt ∧
          pyOr (jqOr (BACKEND.map .text)) (.text libvirt) = .text libvirt := by
        rcases hB with hB | rfl
        · cases BACKEND with
          | none => exact ⟨rfl, rfl⟩
          | some B =>
            obtain rfl : B = [] := hB
            exact ⟨rfl, rfl⟩
        · exact ⟨rfl, rfl⟩
      rw [hname.1] at hback
      have hres : resolveAccountName accounts BACKEND common node = some none := by
        rw [cloudAccount, truthy_pyOr_jqOr] at ha'
        rw [resolveAccountName, ha', if_neg Bool.false_ne_true, hback, if_neg (by decide)]
      have hb : b = libvirt := by
        rw [getBackend, hres] at hg
        simp only [Option.bind_eq_bind, Option.bind_some, hback] at hg
        exact (Json.text.inj (find_isText_eq hg)).symm
      have hct : accountCloudtype accounts common node = none := by rw [accountCloudtype, if_pos he]
      refine ⟨?_, ?_, ?_, ?_⟩
      · rw [nodeBackendEff, hct, Option.elim_none, pyOr, if_neg (by decide), pyOr, hn',
          if_neg Bool.false_ne_true, hname.2, hb]
      · rw [effectiveBackendName, hres, hb]
        simp only [Option.bind_eq_bind, Option.bind_some, hback]
      · rw [usesLibvirt, hct, isEmpty_named hp hn', hb]
        rfl
      · rw [hdown, hb]
        rfl

/-- Credentials files: none. -/
def noAccounts : Accounts where
  load := fun _ => none
  listed := []
  load_ne := fun h => by cases h

/-- A section that names neither a backend nor an account. -/
def silent : Fields := ⟨none, none⟩

theorem agrees_iff_silent : Agrees noAccounts none silent silent libvirt := by
  refine (agrees_iff ⟨?_, ?_, ?_⟩ (by decide)).mpr (Or.inr (Or.inr ⟨by decide, Or.inl rfl⟩))
  · exact fun h => absurd h (by decide)
  · exact fun h => absurd h (by decide)
  · exact fun h => absurd h (by decide)

/-- With `BACKEND` alone set to a cloud, the node is created on that cloud, and its image is looked for and
downloaded for libvirt. -/
theorem not_agrees_of_config :
    getBackend noAccounts (some "aws".toList) silent silent = some "aws".toList ∧
    nodeBackendEff noAccounts (some "aws".toList) silent silent = .text "aws".toList ∧
    usesLibvirt noAccounts silent silent = true ∧ downloadsImage silent silent = true := by
  refine ⟨by decide, by rfl, by decide, by decide⟩

end LabInABox.Backend
