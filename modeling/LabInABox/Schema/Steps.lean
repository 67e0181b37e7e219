import LabInABox.Schema.Definition

/-!
# The migration steps

Model of the steps of `MIGRATIONS` (`libs/migrations.py`). Most of them walk the configurations of one
add-on, in one pass or two; the steps of `_appcollection_default_2_0` set a key of the add-on's section
when the lab uses the add-on; `open_ports_2_0` rewrites fields of `common` and of the nodes.

Results:
* `onField_idempotent`, `onField_commutes`: the edit of one key.
* `Drops.idempotent`, `Drops.commutes`: a run of removals of keys.
* `keycloakEdit_idempotent`, `rancherEdit_idempotent`, `portsEdit_idempotent`: the edits that are more
  than that.
-/

namespace LabInABox.Schema

open Text

/-! ## Edits of one configuration -/

/-- The edit of one key: what its value is replaced by, and the report, if anything. -/
def onField (key : Text) (u : Value → Option (Option Value × Text)) : Edit Text Config := fun cfg =>
  match (cfg key).bind u with
  | none => (cfg, [])
  | some (value, change) => (Function.update cfg key value, [change])

/-- Remove a key whose value is reported; a value that is not reported stays. -/
def drop (key : Text) (report : Value → Option Text) : Edit Text Config :=
  onField key fun v => (report v).map (Prod.mk none)

/-- Remove a key, whatever its value. -/
def dropKey (reason key : Text) : Edit Text Config :=
  drop key fun _ => some (key ++ " removed (".toList ++ reason ++ ")".toList)

/-- `_drop_keys`, on one configuration. -/
def dropKeys (keys : List Text) (reason : Text) : Edit Text Config :=
  Edit.run (keys.map (dropKey reason))

/-- Report a value that meets a condition. -/
def reportIf (cond : Value → Bool) (change : Value → Text) (v : Value) : Option Text :=
  if cond v = true then some (change v) else none

/-- `re.match(r"^20[0-9]{2}\.", text)`. -/
def isEdgeVersion : Text → Bool
  | '2' :: '0' :: a :: b :: '.' :: _ => a.isDigit && b.isDigit
  | _ => false

/-- The edits of `linkerd_2_0`. -/
def linkerdEdit : Edit Text Config := Edit.run [
  drop "linkerd_repo_url".toList (reportIf (fun v => "helm.linkerd.io/stable".toList <:+: v.str) fun _ =>
    "linkerd_repo_url removed (stable channel; linkerd now installs from the edge channel)".toList),
  drop "linkerd_rel".toList (reportIf (fun v => v = .text "linkerd".toList) fun _ =>
    "linkerd_rel removed (the edge repo is added as linkerd-edge)".toList),
  drop "linkerd_version".toList (reportIf (fun v => v.truthy && !isEdgeVersion v.str) fun v =>
    "linkerd_version '".toList ++ v.str ++ "' removed (not an edge chart version)".toList)]

/-- The edits of `keycloak_2_0`. -/
def keycloakEdit : Edit Text Config := fun cfg =>
  if cfg "keycloak_rel".toList = some (.text "bitnami".toList) ∨
      "bitnami".toList <:+: ((cfg "keycloak_repo_url".toList).map Value.str).getD [] then
    dropKeys ["keycloak_rel".toList, "keycloak_repo_url".toList, "keycloak_version".toList]
      "Bitnami chart; keycloak now installs codecentric/keycloakx".toList cfg
  else (cfg, [])

/-- The edits of the second pass of `complianceascode_2_0`. -/
def complianceascodeEdit : Edit Text Config := Edit.run [
  drop "complianceascode_rel".toList (reportIf (fun v => v = .text "compliance-operator".toList) fun _ =>
    "complianceascode_rel removed (Rancher's repo is added as rancher-charts)".toList),
  drop "complianceascode_repo_url".toList (reportIf (fun v => "openshift.github.io".toList <:+: v.str)
    fun _ => "complianceascode_repo_url removed (charts come from https://charts.rancher.io)".toList),
  drop "complianceascode_version".toList (reportIf (fun v => v.truthy && !("+up".toList <:+: v.str))
    fun v => "complianceascode_version '".toList ++ v.str ++
      "' removed (not a Rancher chart version)".toList),
  drop "complianceascode_profile".toList (reportIf (fun v => v.truthy && !("-profile".toList <:+ v.str))
    fun v => "complianceascode_profile '".toList ++ v.str ++
      "' removed (the operator's default profile is used)".toList)]

/-- The edit of the second pass of `trento_2_0`. -/
def trentoEdit : Edit Text Config := Edit.run [
  drop "trento_admin".toList (reportIf (fun v => '@' ∈ v.str) fun v =>
    "trento_admin '".toList ++ v.str ++
      "' removed (it is now the admin user name, default admin)".toList)]

/-- The value is set: present and true. -/
def isSet (value : Option Value) : Bool := value.any Value.truthy

/-- Set a key to a text, unless it is set. -/
def setUnset (effective : Config) (key value : Text) : Edit Text Config := fun cfg =>
  if isSet (effective key) = true then (cfg, [])
  else (Function.update cfg key (some (.text value)), [key ++ " set to ".toList ++ value])

/-- `RANCHER_STABLE_URL`. -/
def rancherStableUrl : Text := "https://releases.rancher.com/server-charts/stable".toList

/-- `dict(inherited, **cfg)`. -/
def effectiveConfig (inherited cfg : Config) : Config := fun key => (cfg key).or (inherited key)

/-- The edits of `rancher_2_0`. -/
def rancherEdit (inherited : Config) : Edit Text Config := fun cfg =>
  let effective := effectiveConfig inherited cfg
  if isSet (effective "rancher_rel".toList) = true then
    let rel := ((effective "rancher_rel".toList).map Value.str).getD []
    Edit.andThen (setUnset effective "rancher_repo_url".toList rancherStableUrl)
      (setUnset effective "rancher_helm_chart".toList (rel ++ "/rancher".toList)) cfg
  else (cfg, [])

/-! ## The lists of ports -/

/-- Four hexadecimal digits. -/
def hex4 (n : Nat) : Text :=
  let digits := Nat.toDigits 16 n
  List.replicate (4 - digits.length) '0' ++ digits

/-- One character as `json.dumps` writes it: outside the printable ASCII it is escaped. -/
def jsonChar (c : Char) : Text :=
  if c = '"' ∨ c = '\\' then ['\\', c]
  else if c = '\n' then ['\\', 'n']
  else if c = '\r' then ['\\', 'r']
  else if c = '\t' then ['\\', 't']
  else if c.toNat = 8 then ['\\', 'b']
  else if c.toNat = 12 then ['\\', 'f']
  else if 32 ≤ c.toNat ∧ c.toNat ≤ 126 then [c]
  else if c.toNat < 0x10000 then '\\' :: 'u' :: hex4 c.toNat
  else
    let n := c.toNat - 0x10000
    '\\' :: 'u' :: hex4 (0xD800 + n / 0x400) ++ '\\' :: 'u' :: hex4 (0xDC00 + n % 0x400)

/-- `json.dumps` of a list of texts. -/
def jsonDumps (items : List Text) : Text :=
  '[' :: ", ".toList.intercalate (items.map fun i => '"' :: i.flatMap jsonChar ++ ['"']) ++ [']']

/-- One key of `open_ports_2_0`: a text becomes the list of its ports. -/
def listPorts (place key : Text) : Edit Text Config := onField key fun v =>
  match v with
  | .text value =>
    if strip value = [] then none
    else
      -- `re.split(r"[,\s]+", value.strip())`, without the empty pieces
      let ports := fieldsBy (fun c => c == ',' || isSpace c) (strip value)
      some (some (.ports ports),
        place ++ '.' :: key ++ ": \"".toList ++ value ++ "\" -> ".toList ++ jsonDumps ports)
  | _ => none

/-- The ports of one owner. -/
def portsEdit (place : Text) : Edit Text Config :=
  Edit.andThen (listPorts place "open_ports".toList) (listPorts place "aws_open_ports".toList)

/-- The edit of an owner's fields. -/
def Owner.editFields (e : Edit Text Config) : Edit Text Owner := fun o =>
  ({ o with fields := (e o.fields).1 }, (e o.fields).2)

/-- The walk of `open_ports_2_0`: `common`, then the nodes. -/
def portsWalk : Edit Text Definition :=
  Edit.andThen (onSection "common".toList (Section.edit (portsEdit "common".toList)))
    (onOwners (fun _ => Edit.skip) fun name => Owner.editFields (portsEdit ("nodes.".toList ++ name)))

/-! ## The default source of a chart -/

/-- What a step of `_appcollection_default_2_0` does, once it is known whether the lab uses the
add-on. -/
def setSource (name key : Text) (used : Bool) : Edit Text Definition := fun d =>
  let cfg := d.inherited name
  if used = false ∨ (cfg key).isSome = true then (d, [])
  else
    ({ d with
        sections := d.sections.insert name
          (.config (Function.update cfg key (some (.text "upstream".toList)))) },
      [name ++ ": ".toList ++ key ++
        " set to \"upstream\", the chart this lab was written against".toList])

/-- The lab uses the add-on: it has a section, or an entry in a list. -/
def Definition.uses (d : Definition) (name : Text) : Bool :=
  d.isConfig name || decide (Cluster.Listed d.lab.entries name)

/-! ## The steps -/

/-- A migration step. -/
inductive Step
  | configs (name : Text) (passes : List (Config → Edit Text Config))
  | source (name key : Text)
  | openPorts

/-- The add-on of a step, or `common`. -/
def Step.name : Step → Text
  | configs name _ => name
  | source name _ => name
  | openPorts => "common".toList

/-- What a step does to a definition whose add-on lists can be read. -/
def Step.edit : Step → Edit Text Definition
  | configs name passes => Edit.run (passes.map (overConfigs name))
  | source name key => fun d => setSource name key (d.uses name) d
  | openPorts => portsWalk

/-- `step(definition)`. -/
def Step.apply (step : Step) (d : Definition) : Except Cluster.Die (Definition × List Text) :=
  match step with
  | source name key => (Cluster.addonNames d.lab.entries).map fun names =>
      setSource name key (d.isConfig name || decide (name ∈ names)) d
  | step => .ok (step.edit d)

/-- `linkerd_2_0`. -/
def linkerd_2_0 : Step := .configs "linkerd".toList [fun _ => linkerdEdit]

/-- `postgresql_2_0`. -/
def postgresql_2_0 : Step := .configs "postgresql".toList [fun _ =>
  dropKeys ["postgresql_rel".toList, "postgresql_repo_url".toList, "postgresql_version".toList]
    "Kubernetes mode runs registry.suse.com/suse/postgres:<postgresql_pg_version>".toList]

/-- `rancher_2_0`. -/
def rancher_2_0 : Step := .configs "rancher".toList [rancherEdit]

/-- `appcollection_2_0`. -/
def appcollection_2_0 : Step := .configs "appcollection".toList [fun _ =>
  dropKeys ["appcollection_rel".toList, "appcollection_repo_url".toList]
    "charts come from appcollection_registry".toList]

/-- `keycloak_2_0`. -/
def keycloak_2_0 : Step := .configs "keycloak".toList [fun _ => keycloakEdit]

/-- `complianceascode_2_0`. -/
def complianceascode_2_0 : Step := .configs "complianceascode".toList [
  fun _ => dropKeys ["complianceascode_ns".toList] "the namespace is the chart's own".toList,
  fun _ => complianceascodeEdit]

/-- `kagent_2_0`. -/
def kagent_2_0 : Step := .configs "kagent".toList [fun _ =>
  dropKeys ["kagent_rel".toList, "kagent_repo_url".toList] "kagent installs from kagent_registry".toList]

/-- `_litellm_2_0(name)`. -/
def litellm_2_0 (name : Text) : Step := .configs name [fun _ =>
  dropKeys [name ++ "_rel".toList, name ++ "_repo_url".toList]
    ("the proxy installs from ".toList ++ name ++ "_chart".toList)]

/-- `trento_2_0`. -/
def trento_2_0 : Step := .configs "trento".toList [
  fun _ => dropKeys ["trento_rel".toList, "trento_repo_url".toList]
    "Trento installs from trento_chart".toList,
  fun _ => trentoEdit]

/-- `_appcollection_default_2_0(name, prefix)`, with the name itself for an empty prefix. -/
def appcollectionDefault_2_0 (name keyPrefix : Text) : Step :=
  .source name ((if keyPrefix = [] then name else keyPrefix) ++ "_source".toList)

/-- `MIGRATIONS`. -/
def migrations : List (Text × Step) := [
  ("anthropic_2_0".toList, litellm_2_0 "anthropic".toList),
  ("appcollection_2_0".toList, appcollection_2_0),
  ("argocd_2_0".toList, appcollectionDefault_2_0 "argocd".toList []),
  ("complianceascode_2_0".toList, complianceascode_2_0),
  ("coredns_2_0".toList, appcollectionDefault_2_0 "coredns".toList []),
  ("fluentd_2_0".toList, appcollectionDefault_2_0 "fluentd".toList []),
  ("gemini_2_0".toList, litellm_2_0 "gemini".toList),
  ("harbor_2_0".toList, appcollectionDefault_2_0 "harbor".toList []),
  ("kagent_2_0".toList, kagent_2_0),
  ("keycloak_2_0".toList, keycloak_2_0),
  ("kimi_2_0".toList, litellm_2_0 "kimi".toList),
  ("linkerd_2_0".toList, linkerd_2_0),
  ("longhorn_2_0".toList, appcollectionDefault_2_0 "longhorn".toList "lh".toList),
  ("milvus_2_0".toList, appcollectionDefault_2_0 "milvus".toList []),
  ("ollama_2_0".toList, appcollectionDefault_2_0 "ollama".toList []),
  ("open_ports_2_0".toList, .openPorts),
  ("open_webui_2_0".toList, appcollectionDefault_2_0 "open_webui".toList []),
  ("openai_2_0".toList, litellm_2_0 "openai".toList),
  ("postgresql_2_0".toList, postgresql_2_0),
  ("rancher_2_0".toList, rancher_2_0),
  ("traefik_2_0".toList, appcollectionDefault_2_0 "traefik".toList []),
  ("trento_2_0".toList, trento_2_0)]

/-! ## Edits that find nothing to do -/

section Configs

variable {u u' : Value → Option (Option Value × Text)} {r r' : Value → Option Text}
  {key key' : Text}

theorem onField_settled_iff {cfg : Config} :
    Edit.Settled (onField key u) cfg ↔ (cfg key).bind u = none := by
  unfold Edit.Settled onField
  split
  · exact ⟨fun _ => ‹_›, fun _ => rfl⟩
  · rename_i h
    rw [h]
    exact ⟨fun he => absurd (congrArg Prod.snd he) (by simp), nofun⟩

/-- What the edit leaves of a key: its value, or the replacement of its value. -/
theorem onField_fst_apply (cfg : Config) (k : Text) :
    (onField key u cfg).1 k = cfg k ∨
      (k = key ∧ ∃ v value change, u v = some (value, change) ∧ (onField key u cfg).1 k = value) := by
  unfold onField
  split
  · exact Or.inl rfl
  · rename_i h
    by_cases hk : k = key
    · subst hk
      obtain ⟨v, _, hv⟩ := Option.bind_eq_some_iff.mp h
      exact Or.inr ⟨rfl, v, _, _, hv, Function.update_self _ _ _⟩
    · exact Or.inl (Function.update_of_ne hk _ _)

/-- A replacement that is itself left alone: the edit has nothing to do a second time. -/
theorem onField_idempotent (hu : ∀ v value change, u v = some (value, change) → value.bind u = none) :
    Edit.Idempotent (onField key u) := by
  intro cfg
  by_cases hs : Edit.Settled (onField key u) cfg
  · exact Edit.keeps_self _ cfg hs
  · rw [onField_settled_iff] at hs ⊢
    obtain he | ⟨_, v, value, change, hv, he⟩ := onField_fst_apply (u := u) cfg key
    · obtain ⟨⟨value, change⟩, hb⟩ := Option.ne_none_iff_exists'.mp hs
      obtain ⟨v, _, hv⟩ := Option.bind_eq_some_iff.mp hb
      have hself : (onField key u cfg).1 key = value := by
        unfold onField
        rw [hb]
        exact Function.update_self _ _ _
      rw [hself]
      exact hu v value change hv
    · rw [he]
      exact hu v value change hv

theorem onField_commutes (h : key ≠ key') : Edit.Commutes (onField key u) (onField key' u') := by
  intro cfg
  unfold onField
  cases ha : (cfg key).bind u <;> cases hb : (cfg key').bind u' <;>
    simp only [ha, hb, Function.update_of_ne h, Function.update_of_ne (Ne.symm h), and_self, and_true]
  exact Function.update_comm h _ _ _

/-! ### Removals -/

theorem drop_fst_apply (cfg : Config) (k : Text) :
    (drop key r cfg).1 k = cfg k ∨ (k = key ∧ (drop key r cfg).1 k = none) := by
  unfold drop
  obtain he | ⟨hk, v, value, change, hv, he⟩ :=
    @onField_fst_apply (fun v => (r v).map (Prod.mk none)) key cfg k
  · exact Or.inl he
  · obtain ⟨_, _, hr⟩ := Option.map_eq_some_iff.mp hv
    exact Or.inr ⟨hk, he.trans (congrArg Prod.fst hr).symm⟩

theorem drop_idempotent : Edit.Idempotent (drop key r) := by
  refine onField_idempotent fun v value change hv => ?_
  obtain ⟨_, _, hr⟩ := Option.map_eq_some_iff.mp hv
  obtain rfl := congrArg Prod.fst hr
  rfl

/-- Removing a key leaves no other removal anything new to do. -/
theorem drop_keeps : Edit.Keeps (drop key r) (drop key' r') := by
  intro cfg h
  unfold drop at h ⊢
  rw [onField_settled_iff] at h ⊢
  obtain he | ⟨_, he⟩ := @drop_fst_apply r key cfg key'
  · exact (congrArg (Option.bind · _) he).trans h
  · exact congrArg (Option.bind · _) he

theorem drop_commutes (h : key ≠ key') : Edit.Commutes (drop key r) (drop key' r') :=
  onField_commutes h

/-- The edit is a run of removals of the keys. -/
def Drops (keys : List Text) (e : Edit Text Config) : Prop :=
  ∃ rs : List (Text × (Value → Option Text)),
    rs.map Prod.fst = keys ∧ e = Edit.run (rs.map fun p => drop p.1 p.2)

theorem dropKeys_drops (keys : List Text) (reason : Text) : Drops keys (dropKeys keys reason) := by
  refine ⟨keys.map fun key => (key, fun _ => some (key ++ " removed (".toList ++ reason ++
    ")".toList)), ?_, ?_⟩
  · rw [List.map_map]
    exact List.map_id _
  · rw [List.map_map]
    rfl

theorem Drops.idempotent {keys : List Text} {e : Edit Text Config} (h : Drops keys e) :
    Edit.Idempotent e := by
  obtain ⟨rs, -, rfl⟩ := h
  refine Edit.run_idempotent ?_ ?_
  · intro e he
    obtain ⟨p, _, rfl⟩ := List.mem_map.mp he
    exact drop_idempotent
  · intro e he f hf
    obtain ⟨p, _, rfl⟩ := List.mem_map.mp he
    obtain ⟨q, _, rfl⟩ := List.mem_map.mp hf
    exact drop_keeps

theorem Drops.commutes {keys keys' : List Text} {e f : Edit Text Config} (h : Drops keys e)
    (h' : Drops keys' f) (hd : ∀ key ∈ keys, key ∉ keys') : Edit.Commutes e f := by
  obtain ⟨rs, rfl, rfl⟩ := h
  obtain ⟨rs', rfl, rfl⟩ := h'
  refine Edit.Commutes.run fun e he => (Edit.Commutes.run fun f hf => ?_).symm
  obtain ⟨p, hp, rfl⟩ := List.mem_map.mp he
  obtain ⟨q, hq, rfl⟩ := List.mem_map.mp hf
  refine drop_commutes fun heq => hd p.1 (List.mem_map_of_mem hp) ?_
  rw [← heq]
  exact List.mem_map_of_mem hq

/-- What a run of removals leaves of a key: its value, or nothing. -/
theorem Drops.fst_apply {keys : List Text} {e : Edit Text Config} (h : Drops keys e) (cfg : Config)
    (k : Text) : (e cfg).1 k = cfg k ∨ (k ∈ keys ∧ (e cfg).1 k = none) := by
  obtain ⟨rs, rfl, rfl⟩ := h
  induction rs generalizing cfg with
  | nil => exact Or.inl rfl
  | cons p rs ih =>
    obtain he | ⟨hk, he⟩ := ih (drop p.1 p.2 cfg).1
    · obtain hd | ⟨hk, hd⟩ := @drop_fst_apply p.2 p.1 cfg k
      · exact Or.inl (he.trans hd)
      · exact Or.inr ⟨List.mem_cons.mpr (Or.inl hk), he.trans hd⟩
    · exact Or.inr ⟨List.mem_cons_of_mem _ hk, he⟩

theorem dropKeys_fst_apply {keys : List Text} {reason : Text} {cfg : Config} {k : Text}
    (h : k ∈ keys) : (dropKeys keys reason cfg).1 k = none := by
  unfold dropKeys
  induction keys generalizing cfg with
  | nil => exact absurd h List.not_mem_nil
  | cons key keys ih =>
    change (dropKeys keys reason (dropKey reason key cfg).1).1 k = none
    by_cases hk : k ∈ keys
    · exact ih hk
    · obtain rfl := (List.mem_cons.mp h).resolve_right hk
      have hone : (dropKey reason k cfg).1 k = none := by
        unfold dropKey drop onField
        cases hc : cfg k with
        | none => simp only [Option.bind_none, hc]
        | some v => simp only [Option.bind_some, Option.map_some, Function.update_self]
      obtain he | ⟨_, he⟩ := (dropKeys_drops keys reason).fst_apply (dropKey reason k cfg).1 k
      · rw [he, hone]
      · exact he

theorem keycloakEdit_idempotent : Edit.Idempotent keycloakEdit := by
  intro cfg
  unfold keycloakEdit
  by_cases hc : cfg "keycloak_rel".toList = some (.text "bitnami".toList) ∨
      "bitnami".toList <:+: ((cfg "keycloak_repo_url".toList).map Value.str).getD []
  · rw [if_pos hc]
    refine if_neg ?_
    rw [dropKeys_fst_apply (by decide), dropKeys_fst_apply (by decide)]
    decide
  · rw [if_neg hc]
    exact if_neg hc

theorem setUnset_fst_apply (effective cfg : Config) (value k : Text) :
    (setUnset effective key value cfg).1 k =
      if k = key ∧ isSet (effective key) = false then some (.text value) else cfg k := by
  unfold setUnset
  by_cases hs : isSet (effective key) = true
  · rw [if_pos hs, if_neg fun h => absurd h.2 (by rw [hs]; exact nofun)]
  · rw [if_neg hs]
    by_cases hk : k = key
    · subst hk
      rw [if_pos ⟨rfl, Bool.eq_false_iff.mpr hs⟩]
      exact Function.update_self _ _ _
    · rw [if_neg fun h => hk h.1]
      exact Function.update_of_ne hk _ _

/-- A key that was set, or has been set to a text, is set. -/
theorem isSet_effectiveConfig {inherited cfg cfg' : Config} {value : Text} (hv : value ≠ [])
    (h : cfg' key = if isSet (effectiveConfig inherited cfg key) = false then some (.text value)
      else cfg key) : isSet (effectiveConfig inherited cfg' key) = true := by
  cases hs : isSet (effectiveConfig inherited cfg key) with
  | false =>
    rw [hs, if_pos rfl] at h
    unfold effectiveConfig
    rw [h]
    exact decide_eq_true hv
  | true =>
    rw [hs, if_neg nofun] at h
    unfold effectiveConfig at hs ⊢
    rw [h, hs]

theorem rancherEdit_idempotent (inherited : Config) : Edit.Idempotent (rancherEdit inherited) := by
  intro cfg
  by_cases hrel : isSet (effectiveConfig inherited cfg "rancher_rel".toList) = true
  swap
  · have he : rancherEdit inherited cfg = (cfg, []) := if_neg hrel
    rw [he]
    exact he
  have hcfg : ∀ k, (rancherEdit inherited cfg).1 k = _ := fun k =>
    (congrArg (fun r : Config × List Text => r.1 k) (if_pos hrel)).trans
      (setUnset_fst_apply _ _ _ k)
  simp only [setUnset_fst_apply] at hcfg
  generalize hc : (rancherEdit inherited cfg).1 = cfg' at hcfg ⊢
  have hrel' : effectiveConfig inherited cfg' "rancher_rel".toList =
      effectiveConfig inherited cfg "rancher_rel".toList := by
    unfold effectiveConfig
    rw [hcfg, if_neg fun h => absurd h.1 (by decide), if_neg fun h => absurd h.1 (by decide)]
  have hurl : isSet (effectiveConfig inherited cfg' "rancher_repo_url".toList) = true := by
    refine @isSet_effectiveConfig _ _ cfg _ rancherStableUrl (by decide) ?_
    rw [hcfg, if_neg fun h => absurd h.1 (by decide)]
    simp only [true_and]
  have hchart : isSet (effectiveConfig inherited cfg' "rancher_helm_chart".toList) = true := by
    have hne : ((effectiveConfig inherited cfg "rancher_rel".toList).map Value.str).getD [] ++
        "/rancher".toList ≠ [] := List.append_ne_nil_of_right_ne_nil _ (List.cons_ne_nil _ _)
    refine @isSet_effectiveConfig _ _ cfg _ _ hne ?_
    have hkeys : "rancher_helm_chart".toList ≠ "rancher_repo_url".toList := by decide
    rw [hcfg]
    simp only [true_and, hkeys, false_and, if_false]
  have hset : ∀ key value, isSet (effectiveConfig inherited cfg' key) = true →
      Edit.Settled (setUnset (effectiveConfig inherited cfg') key value) cfg' :=
    fun key value h => if_pos h
  have he : rancherEdit inherited cfg' = _ := if_pos (by rw [hrel', hrel])
  exact he.trans ((hset _ _ hurl).andThen (hset _ _ hchart))

/-! ### The ports -/

variable {place : Text}

theorem listPorts_idempotent : Edit.Idempotent (listPorts place key) := by
  refine onField_idempotent fun v value change hv => ?_
  cases v with
  | text t =>
    by_cases ht : strip t = []
    · exact absurd ((if_pos ht).symm.trans hv) nofun
    · obtain rfl := congrArg Prod.fst (Option.some.inj ((if_neg ht).symm.trans hv))
      rfl
  | ports items => exact absurd hv nofun
  | other shown truthy => exact absurd hv nofun

theorem portsEdit_idempotent : Edit.Idempotent (portsEdit place) :=
  listPorts_idempotent.andThen listPorts_idempotent
    (onField_commutes (by decide)).keeps

end Configs

end LabInABox.Schema
