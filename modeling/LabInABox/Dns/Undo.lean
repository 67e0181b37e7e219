import LabInABox.Dns.DelNode
import LabInABox.Ipalloc.Allocate

/-!
# Undoing the records of a node

Model of what creating and destroying a node do to its DNS records: `load_vm_vars`
(`libs/lab_creation.py`), the registrations of `provision_vm` (`scripts/setup_vm.py`) and the removal of
`destroy_vm` (`scripts/destroy_vm.py`).

* `NodeFile` is what both read: the fields of the lab file, the configuration, and what follows from
  them (whether the backend is a cloud, whether the node is of a Harvester cluster). A field that is
  absent, null or false reads as an empty text where its value is used.
* Each of the two learns the rest as it runs: the address, the DNS server of the cloud network, the
  DNS servers of the other sites (`Creation`), and what is still known at the end (`Destruction`).

Results:
* `kept_provisionDns`: creation leaves the records of the node on this host.
* `noneLeft_iff`: when the removal leaves no record of the node on any server that creation wrote to.
-/

namespace LabInABox.Dns

open Text

/-! ## The settings of a node -/

/-- A dictionary of settings. -/
abbrev Vars := Text → Option Text

/-- `vars.get(key, "")`. -/
def Vars.get (v : Vars) (key : Text) : Text := (v key).getD []

/-- `if not vars.get(key): vars[key] = value`. -/
def Vars.fill (v : Vars) (key value : Text) : Vars :=
  if v.get key = [] then Function.update v key (some value) else v

/-- What the automation VM detects of its own network. -/
structure Detected where
  dns : Text
  gateway : Text
  domain : Text
  netmask : Text

/-- `_reverse_ip(ip)`. -/
def reverseIp (ip : Text) : Text :=
  let parts := ip.splitOn '.'
  if parts.length = 4 then ['.'].intercalate parts.dropLast.reverse else []

/-- `load_vm_vars(definition, vm_name)`, of the `common` section and the node. -/
def loadVmVars (detected : Detected) (common node : Vars) : Vars :=
  let vars : Vars := fun key =>
    -- the node's `kcluster` is read as `clu_name`
    if key = "kcluster".toList then common key
    else if key = "clu_name".toList then (node "kcluster".toList).or ((node key).or (common key))
    else (node key).or (common key)
  let vars := vars.fill "mydns".toList detected.dns
  let vars := vars.fill "mygw".toList detected.gateway
  let vars := vars.fill "mydomain".toList detected.domain
  let vars := if vars.get "myip".toList = [] then vars
    else vars.fill "mynet_reverse".toList (reverseIp (vars.get "myip".toList))
  vars.fill "mymask".toList detected.netmask

/-- What the two scripts read of a node: its lab file, and the configuration. -/
structure NodeFile where
  vmName : Text
  /-- `is_existing_node(node_cfg)`. -/
  existing : Bool
  common : Vars
  node : Vars
  config : Vars
  defaults : Vars
  detected : Detected
  /-- `effective_backend_name(..) in CLOUD_BACKEND_NAMES`. -/
  cloud : Bool
  /-- `harvester.cluster_of(definition, vm_name)` is not empty. -/
  harvester : Bool

variable (f : NodeFile)

/-- `env`: the defaults, the configuration, then the variables of the node. -/
def NodeFile.env (node : Vars) : Vars := fun key =>
  (loadVmVars f.detected f.common node key).or ((f.config key).or (f.defaults key))

/-- `env.get("REMOTE_DNS_SERVERS", "").split()`. -/
def remoteDnsServers (env : Vars) : List Text := fields (env.get "REMOTE_DNS_SERVERS".toList)

/-- The node joins the overlay. -/
def overlayEnabled (env : Vars) : Bool :=
  let value := env.get "overlay".toList
  lower (strip (if value = [] then env.get "OVERLAY_ENABLED".toList else value)) ∈
    ["1".toList, "true".toList, "yes".toList]

/-! ## Creation -/

/-- What `provision_vm` learns as it runs. -/
structure Creation where
  /-- The address `check_or_generate_ip` writes into a definition without one: none on a cloud. -/
  allocated : Option Text
  /-- The address `create_vm` returns, if it does. -/
  createdIp : Text
  /-- `ensure_cloud_dns_vm`. -/
  dnsVmIp : Text
  /-- The address of the gateway to the overlay, if there is one. -/
  gatewayLanIp : Text
  /-- `list_dns_servers`, of the other sites. -/
  otherDns : List Text
  reachable : Text → Bool

variable (c : Creation)

/-- The settings of a node whose definition has been given an address. -/
def creationEnv : Vars :=
  f.env <|
    match c.allocated with
    | some ip => f.node.fill "myip".toList ip
    | none => f.node

/-- The address that is registered. -/
def registeredIp : Text :=
  if c.createdIp = [] then (creationEnv f c).get "myip".toList else c.createdIp

/-- The zone it is registered in. -/
def registeredDomain : Text := (creationEnv f c).get "mydomain".toList

/-- The reverse zone, if any. -/
def registeredReverse : Text := (creationEnv f c).get "mynet_reverse".toList

/-- The masters of the first registration. -/
def creationServers : List Text :=
  remoteDnsServers (creationEnv f c) ++ if f.cloud && !f.harvester then [c.dnsVmIp] else []

/-- The masters of the second: those of the other sites, of a node that joins the overlay. -/
def overlayServers : List Text :=
  if !f.harvester && overlayEnabled (creationEnv f c) && c.gatewayLanIp ≠ [] then c.otherDns else []

variable (e : Engines) (loads : Server → Text → Option Text)

/-- The registrations of `provision_vm`. -/
def provisionDns (d : DnsService) : DnsService :=
  if registeredIp f c = [] then d
  else
    let add := fun servers d => d.addToDns e loads c.reachable f.vmName (registeredIp f c)
      (registeredDomain f c) (registeredReverse f c) servers f.cloud
    let d := add (creationServers f c) d
    if overlayServers f c = [] then d else add (overlayServers f c) d

/-! ## Destruction -/

/-- What `destroy_vm` learns as it runs. -/
structure Destruction where
  /-- `get_backend(.., for_existing=True)` returns. -/
  backendFound : Bool
  /-- `backend.get_ip(vm_name) or ""`, unless it raises. -/
  getIp : Option Text
  /-- The address of the DNS server of the cloud network, empty when there is none, unless a lookup
  raises. -/
  dnsVmIp : Option Text
  host : Ipalloc.Host
  reachable : Text → Bool

variable (k : Destruction)

/-- `ipalloc.dns_address(vm_name, mydomain)`, with the zones of this host. -/
def knownAddress (d : DnsService) (mydomain : Text) : Text :=
  Ipalloc.dnsAddress { k.host with zone := fun domain => d.zones (none, forwardFile domain) } f.vmName
    mydomain

/-- The masters `destroy_vm` finds. -/
def destructionServers : List Text :=
  remoteDnsServers (f.env f.node) ++
    if f.cloud && k.dnsVmIp.getD [] ≠ [] then [k.dnsVmIp.getD []] else []

/-- The address and the masters `destroy_vm` comes to, unless it ends before. -/
def destroyTarget (d : DnsService) : Option (Text × List Text) :=
  if f.existing || !k.backendFound then none
  else
    let env := f.env f.node
    let myip := env.get "myip".toList
    if f.cloud then
      match if myip = [] then k.getIp else some myip, k.dnsVmIp with
      | some myip, some _ => some (myip, destructionServers f k)
      | _, _ => none
    else
      some (if myip = [] then knownAddress f k d (env.get "mydomain".toList) else myip,
        destructionServers f k)

/-- The removal of `destroy_vm`. -/
def destroyDns (d : DnsService) : DnsService :=
  match destroyTarget f k d with
  | none => d
  | some (myip, servers) =>
    if myip = [] then d
    else
      let env := f.env f.node
      d.delFromDns k.reachable f.vmName myip (env.get "mydomain".toList)
        (env.get "mynet_reverse".toList) servers

/-! ## What is left -/

variable (services : List Text)

/-- The servers creation writes to: this host, and the masters that answer. -/
def writtenServers : List Server := servers c.reachable (creationServers f c ++ overlayServers f c)

/-- A row of a forward zone that goes with a node: its address, or that of a service at it. -/
def ForwardRow (vmName myip : Text) (ρ : List Text) : Prop :=
  ρ = [shortName vmName, "IN".toList, "A".toList, myip] ∨
    ∃ service ∈ services, ρ = [service, "IN".toList, "A".toList, myip]

/-- The row of a reverse zone that goes with a node. -/
def ReverseRow (vmName myip : Text) (ρ : List Text) : Prop :=
  ρ = [lastOctet myip, "IN".toList, "PTR".toList, vmName ++ ['.']]

/-- **No server that creation wrote to has a record of the node**: its address, the pointer to it, or
the address of a service at it. -/
structure NoneLeft (d : DnsService) : Prop where
  forward : ∀ s ∈ writtenServers f c,
    ∀ ρ ∈ rows (d.zones.text (s, forwardFile (registeredDomain f c))),
      ¬ ForwardRow services f.vmName (registeredIp f c) ρ
  reverse : registeredReverse f c ≠ [] → ∀ s ∈ writtenServers f c,
    ∀ ρ ∈ rows (d.zones.text (s, reverseFile (registeredReverse f c))),
      ¬ ReverseRow f.vmName (registeredIp f c) ρ

/-- This host still has what creation wrote. -/
structure Kept (d : DnsService) : Prop where
  forward : aRecord (shortName f.vmName) (registeredIp f c) ∈
    splitlines (d.zones.text (none, forwardFile (registeredDomain f c)))
  reverse : registeredReverse f c ≠ [] → ptrRecord (lastOctet (registeredIp f c)) f.vmName ∈
    splitlines (d.zones.text (none, reverseFile (registeredReverse f c)))

/-- A server has a record of the node. -/
def HasRecord (d : DnsService) (s : Server) : Prop :=
  (∃ ρ ∈ rows (d.zones.text (s, forwardFile (registeredDomain f c))),
      ForwardRow services f.vmName (registeredIp f c) ρ) ∨
    (registeredReverse f c ≠ [] ∧
      ∃ ρ ∈ rows (d.zones.text (s, reverseFile (registeredReverse f c))),
        ReverseRow f.vmName (registeredIp f c) ρ)

/-- The lines of a file, as the commands of a server take them. -/
def serverLines : Server → Text → List Text
  | none, t => splitlines t
  | some _, t => lines t

/-- The lines of a forward zone that go with a node. -/
def SelectsForward (vmName myip : Text) : Server → Text → Prop
  | none, l => l = aRecord (shortName vmName) myip ∨ DnsService.EndsAsService myip l
  | some _, l =>
    DnsService.Holds (aRecord (shortName vmName) myip) l ∨ DnsService.EndsAsService myip l

/-- The lines of a reverse zone that go with a node. -/
def SelectsReverse (vmName myip : Text) : Server → Text → Prop
  | none, l => l = ptrRecord (lastOctet myip) vmName
  | some _, l => DnsService.Holds (ptrRecord (lastOctet myip) vmName) l

/-- Every line that says what goes is selected. -/
def NoneMissed (selected : Text → Prop) (goes : List Text → Prop) (ls : List Text) : Prop :=
  ∀ l ∈ ls, ∀ ρ ∈ rows l, goes ρ → selected l

instance decidableForwardRow (vmName myip : Text) (ρ : List Text) :
    Decidable (ForwardRow services vmName myip ρ) := inferInstanceAs (Decidable (_ ∨ _))

instance decidableReverseRow (vmName myip : Text) (ρ : List Text) :
    Decidable (ReverseRow vmName myip ρ) := inferInstanceAs (Decidable (_ = _))

instance decidableSelectsForward (vmName myip : Text) :
    (s : Server) → (l : Text) → Decidable (SelectsForward vmName myip s l)
  | none, _ => inferInstanceAs (Decidable (_ ∨ _))
  | some _, _ => inferInstanceAs (Decidable (_ ∨ _))

instance decidableSelectsReverse (vmName myip : Text) :
    (s : Server) → (l : Text) → Decidable (SelectsReverse vmName myip s l)
  | none, _ => inferInstanceAs (Decidable (_ = _))
  | some _, _ => inferInstanceAs (Decidable (DnsService.Holds _ _))

instance decidableNoneMissed (selected : Text → Prop) (goes : List Text → Prop)
    [DecidablePred selected] [DecidablePred goes] (ls : List Text) :
    Decidable (NoneMissed selected goes ls) :=
  inferInstanceAs (Decidable (∀ l ∈ ls, ∀ ρ ∈ rows l, goes ρ → selected l))

/-- The address of the node is still known: from its file, this host's zone or its cloud. -/
inductive AddressKnown (d : DnsService) (ip : Text) : Prop
  | file (hip : (f.env f.node).get "myip".toList = ip)
  | zone (hfile : (f.env f.node).get "myip".toList = []) (hcloud : f.cloud = false)
      (hip : knownAddress f k d ((f.env f.node).get "mydomain".toList) = ip)
  | cloud (hfile : (f.env f.node).get "myip".toList = []) (hcloud : f.cloud = true)
      (hip : k.getIp = some ip)

/-- **When a destruction undoes a creation**: it gets to the removal, with the address that was
registered and the reverse zone of it; it finds every server that has a record of the node; and each
line that says one is written as it is removed. -/
structure Undoes (d : DnsService) : Prop where
  created : f.existing = false
  backend : k.backendFound = true
  address : AddressKnown f k d (registeredIp f c)
  dnsVm : f.cloud = true → k.dnsVmIp ≠ none
  reverse : registeredReverse f c ≠ [] →
    (f.env f.node).get "mynet_reverse".toList = registeredReverse f c
  servers : ∀ s ∈ writtenServers f c, HasRecord f c services d s →
    s ∈ servers k.reachable (destructionServers f k)
  forwardLines : ∀ s ∈ writtenServers f c, NoneMissed (SelectsForward f.vmName (registeredIp f c) s)
    (ForwardRow services f.vmName (registeredIp f c))
    (serverLines s (d.zones.text (s, forwardFile (registeredDomain f c))))
  reverseLines : registeredReverse f c ≠ [] → ∀ s ∈ writtenServers f c,
    NoneMissed (SelectsReverse f.vmName (registeredIp f c) s)
      (ReverseRow f.vmName (registeredIp f c))
      (serverLines s (d.zones.text (s, reverseFile (registeredReverse f c))))

/-! ## The domain -/

section Settings

variable {v v' : Vars} {key key' value : Text}

theorem Vars.fill_of_ne (h : key' ≠ key) : v.fill key value key' = v key' := by
  unfold Vars.fill
  split
  · exact Function.update_of_ne h _ _
  · rfl

theorem Vars.fill_congr (h : v key = v' key) : v.fill key value key = v'.fill key value key := by
  unfold Vars.fill Vars.get
  rw [h]
  split
  · rw [Function.update_self, Function.update_self]
  · exact h

variable {f c}

/-- The domain of a node does not depend on its address. -/
theorem loadVmVars_mydomain {detected : Detected} {common node node' : Vars}
    (h : node "mydomain".toList = node' "mydomain".toList) :
    loadVmVars detected common node "mydomain".toList =
      loadVmVars detected common node' "mydomain".toList := by
  have hrest : ∀ w : Vars, (if w.get "myip".toList = [] then w
      else w.fill "mynet_reverse".toList (reverseIp (w.get "myip".toList))) "mydomain".toList =
      w "mydomain".toList := fun w => by
    split
    · rfl
    · exact Vars.fill_of_ne (by decide)
  unfold loadVmVars
  rw [Vars.fill_of_ne (by decide), Vars.fill_of_ne (by decide), hrest, hrest]
  refine Vars.fill_congr ?_
  rw [Vars.fill_of_ne (by decide), Vars.fill_of_ne (by decide), Vars.fill_of_ne (by decide),
    Vars.fill_of_ne (by decide), if_neg (by decide), if_neg (by decide), if_neg (by decide),
    if_neg (by decide), h]

/-- **Both find the same domain.** -/
theorem env_mydomain : (f.env f.node).get "mydomain".toList = registeredDomain f c := by
  have hnode : f.node "mydomain".toList = (match c.allocated with
      | some ip => f.node.fill "myip".toList ip
      | none => f.node) "mydomain".toList := by
    cases c.allocated with
    | none => rfl
    | some ip => exact (Vars.fill_of_ne (by decide)).symm
  unfold registeredDomain creationEnv Vars.get NodeFile.env
  rw [loadVmVars_mydomain hnode]

end Settings

/-! ## What creation leaves -/

section Creation

variable {f c e loads} {d : DnsService} {vmName myip mydomain mynetReverse : Text} {replace : Bool}
  {z : Zones}

theorem mem_addLocal_forward (hn : IsHostName vmName) (hi : IsIpv4 myip) :
    aRecord (shortName vmName) myip ∈ splitlines
      ((DnsService.addLocal vmName myip mydomain mynetReverse replace z).text
        (none, forwardFile mydomain)) := by
  have hk : ((none, forwardFile mydomain) : ZoneKey) ≠ (none, reverseFile mynetReverse) := fun h =>
    forwardFile_ne_reverseFile _ _ (Prod.mk.inj h).2
  have hline : ∀ t, aRecord (shortName vmName) myip ∈
      splitlines (dnsAddLine (aRecord (shortName vmName) myip) t) := fun t => by
    obtain ⟨_, _, h⟩ := splitlines_dnsAddLine (aRecord (shortName vmName) myip) t
    exact (h (isRecordText_aRecord hn.short hi.word).oneLine).1
  unfold DnsService.addLocal
  dsimp only
  by_cases hrev : mynetReverse = []
  · rw [if_pos hrev, Zones.text_put_self]
    exact hline _
  · rw [if_neg hrev, Zones.text_put_of_ne _ _ hk, Zones.text_put_self]
    exact hline _

theorem mem_addLocal_reverse (hn : IsHostName vmName) (hi : IsIpv4 myip) (hrev : mynetReverse ≠ []) :
    ptrRecord (lastOctet myip) vmName ∈ splitlines
      ((DnsService.addLocal vmName myip mydomain mynetReverse replace z).text
        (none, reverseFile mynetReverse)) := by
  unfold DnsService.addLocal
  dsimp only
  rw [if_neg hrev, Zones.text_put_self]
  obtain ⟨_, _, h⟩ := splitlines_dnsAddLine (ptrRecord (lastOctet myip) vmName) _
  exact (h (isRecordText_ptrRecord hi.octet hn.word).oneLine).1

/-- A registration, where every zone is declared, leaves the records on this host. -/
theorem mem_addToDns (e : Engines) (loads : Server → Text → Option Text) (replace : Bool)
    {reachable : Text → Bool} {ms : List Text} (hn : IsHostName vmName) (hi : IsIpv4 myip) (h : ∀ s ∈ servers reachable ms,
      ∀ w ∈ (DnsService.wanted mydomain mynetReverse).map Prod.fst, d.declared s w = true) :
    let d' := d.addToDns e loads reachable vmName myip mydomain mynetReverse ms replace
    d'.declared = d.declared ∧
      aRecord (shortName vmName) myip ∈ splitlines (d'.zones.text (none, forwardFile mydomain)) ∧
      (mynetReverse ≠ [] → ptrRecord (lastOctet myip) vmName ∈
        splitlines (d'.zones.text (none, reverseFile mynetReverse))) := by
  unfold DnsService.addToDns
  rw [DnsService.ensureZones_of_declared h]
  exact ⟨rfl, mem_addLocal_forward hn hi, mem_addLocal_reverse hn hi⟩

theorem mem_servers {reachable : Text → Bool} {ms : List Text} {s : Server} :
    s ∈ servers reachable ms ↔ s = none ∨ ∃ m ∈ ms, reachable m = true ∧ s = some m := by
  simp only [servers, masters, List.mem_cons, List.mem_map, List.mem_filter, and_assoc, eq_comm]

/-- **Creation leaves the records of the node on this host**, where every zone is declared. -/
theorem kept_provisionDns (hn : IsHostName f.vmName) (hi : IsIpv4 (registeredIp f c))
    (h : ∀ s ∈ writtenServers f c, ∀ w ∈ (DnsService.wanted (registeredDomain f c)
      (registeredReverse f c)).map Prod.fst, d.declared s w = true) :
    Kept f c (provisionDns f c e loads d) := by
  have hsub : ∀ ms, (∀ m ∈ ms, m ∈ creationServers f c ++ overlayServers f c) →
      ∀ s ∈ servers c.reachable ms, s ∈ writtenServers f c := fun ms hms s hs => by
    rcases mem_servers.mp hs with rfl | ⟨m, hm, hr, rfl⟩
    · exact List.mem_cons_self
    · exact mem_servers.mpr (Or.inr ⟨m, hms m hm, hr, rfl⟩)
  unfold provisionDns
  rw [if_neg hi.word.1]
  obtain ⟨hdecl, hforward, hreverse⟩ := mem_addToDns e loads f.cloud hn hi
    fun s hs => h s (hsub _ (fun m => List.mem_append_left _) s hs)
  dsimp only
  split
  · exact ⟨hforward, hreverse⟩
  · obtain ⟨_, hforward, hreverse⟩ := mem_addToDns e loads f.cloud hn hi fun s hs w hw => by
      rw [hdecl]
      exact h s (hsub _ (fun m => List.mem_append_right _) s hs) w hw
    exact ⟨hforward, hreverse⟩

end Creation

/-! ## What destruction takes -/

section Destruction

variable {f c k services} {d : DnsService} {ip vmName myip mydomain mynetReverse : Text}
  {ms : List Text} {z : Zones}

/-- **Where a destruction gets to the removal.** -/
theorem destroyTarget_eq_some_iff {target : Text × List Text} (hip : target.1 ≠ []) :
    destroyTarget f k d = some target ↔ f.existing = false ∧ k.backendFound = true ∧
      AddressKnown f k d target.1 ∧ (f.cloud = true → k.dnsVmIp ≠ none) ∧
      target.2 = destructionServers f k := by
  obtain ⟨ip, ss⟩ := target
  unfold destroyTarget
  by_cases hgate : (f.existing || !k.backendFound) = true
  · rw [if_pos hgate]
    refine iff_of_false (fun h => by cases h) ?_
    rintro ⟨hex, hfound, _⟩
    rw [hex, hfound] at hgate
    cases hgate
  rw [if_neg hgate]
  have hgate' : f.existing = false ∧ k.backendFound = true := by simpa using hgate
  simp only [hgate'.1, hgate'.2, true_and]
  cases hcloud : f.cloud with
  | false =>
    simp only [Bool.false_eq_true, if_false, false_implies, true_and, Option.some.injEq,
      Prod.mk.injEq]
    refine and_congr ?_ eq_comm
    constructor
    · intro h
      split at h
      · exact .zone ‹_› hcloud h
      · exact .file h
    · rintro (h | ⟨hfile, _, h⟩ | ⟨_, h, _⟩)
      · rw [if_neg (by rw [h]; exact hip), h]
      · rw [if_pos hfile, h]
      · cases hcloud.symm.trans h
  | true =>
    simp only [if_true, true_implies]
    have hown : (if (f.env f.node).get "myip".toList = [] then k.getIp
        else some ((f.env f.node).get "myip".toList)) = some ip ↔ AddressKnown f k d ip := by
      constructor
      · intro h
        split at h
        · exact .cloud ‹_› hcloud h
        · exact .file (Option.some.inj h)
      · rintro (h | ⟨_, h, _⟩ | ⟨hfile, _, h⟩)
        · rw [if_neg (by rw [h]; exact hip), h]
        · cases hcloud.symm.trans h
        · rw [if_pos hfile, h]
    rw [← hown]
    cases (if (f.env f.node).get "myip".toList = [] then k.getIp
        else some ((f.env f.node).get "myip".toList)) with
    | none => simp
    | some own =>
      cases k.dnsVmIp with
      | none => simp
      | some a => simp [eq_comm]

theorem delFromDns_zones {reachable : Text → Bool} :
    (d.delFromDns reachable vmName myip mydomain mynetReverse ms).zones =
      DnsService.deleted (masters reachable ms) vmName myip mydomain mynetReverse d.zones := rfl

/-- A server that is not found keeps its files. -/
theorem deleted_text_of_not_mem {s : Server} (hs : s ∉ none :: ms.map some) (fileName : Text) :
    (DnsService.deleted ms vmName myip mydomain mynetReverse z).text (s, fileName) =
      z.text (s, fileName) := by
  cases s with
  | none => exact absurd List.mem_cons_self hs
  | some m =>
    rw [DnsService.deleted, DnsService.delLocal_text_of_some, DnsService.delRemote_foldl_text,
      if_neg fun h => hs (List.mem_cons_of_mem _ h)]

/-- This host keeps the files of other zones. -/
theorem deleted_text_of_ne {fileName : Text} (hf : fileName ≠ forwardFile mydomain)
    (hr : mynetReverse = [] ∨ fileName ≠ reverseFile mynetReverse) :
    (DnsService.deleted ms vmName myip mydomain mynetReverse z).text (none, fileName) =
      z.text (none, fileName) := by
  have hf' : ((none, fileName) : ZoneKey) ≠ (none, forwardFile mydomain) := fun h =>
    hf (Prod.mk.inj h).2
  have hrest : ∀ w : Zones, (if mynetReverse = [] then w
      else w.edit (none, reverseFile mynetReverse)
        (dropMatched (· == ptrRecord (lastOctet myip) vmName))).text (none, fileName) =
      w.text (none, fileName) := fun w => by
    by_cases hrev : mynetReverse = []
    · rw [if_pos hrev]
    · rw [if_neg hrev]
      exact DnsService.edit_text_of_ne _ fun h => (hr.resolve_left hrev) (Prod.mk.inj h).2
  unfold DnsService.deleted DnsService.delLocal
  dsimp only
  split
  · rw [DnsService.edit_text_of_ne _ hf', hrest, DnsService.delRemote_foldl_text_none]
  · rw [DnsService.edit_text_of_ne _ hf', DnsService.edit_text_of_ne _ hf', hrest,
      DnsService.delRemote_foldl_text_none]

/-- The rows of a file are those of its lines. -/
theorem mem_rows_serverLines (s : Server) {t : Text} {ρ : List Text} :
    ρ ∈ rows t ↔ ∃ l ∈ serverLines s t, ρ ∈ rows l := by
  cases s with
  | some m => exact mem_rows_iff_lines
  | none =>
    rw [mem_rows]
    refine exists_congr fun l => and_congr_right fun hl => ?_
    rw [mem_rows]
    by_cases hnil : l = []
    · subst hnil
      exact iff_of_false (fun h => h.1 (h.2.symm.trans rowOf_nil))
        fun ⟨_, h, _⟩ => absurd h List.not_mem_nil
    · rw [splitlines_of_oneLine hnil (oneLine_of_mem_splitlines l hl)]
      simp

/-- Nothing that goes is left iff every line that says it was selected. -/
theorem none_left_iff {s : Server} {t t' : Text} {selected : Text → Prop}
    {goes : List Text → Prop} (h : ∀ ρ, (∃ l ∈ serverLines s t', ρ ∈ rows l) ↔
      ∃ l ∈ serverLines s t, ¬ selected l ∧ ρ ∈ rows l) :
    (∀ ρ ∈ rows t', ¬ goes ρ) ↔ NoneMissed selected goes (serverLines s t) := by
  constructor
  · intro hnone l hl ρ hρ hg
    by_contra hsel
    exact hnone ρ ((mem_rows_serverLines s).mpr ((h ρ).mpr ⟨l, hl, hsel, hρ⟩)) hg
  · intro hmissed ρ hρ hg
    obtain ⟨l, hl, hsel, hρ⟩ := (h ρ).mp ((mem_rows_serverLines s).mp hρ)
    exact hsel (hmissed l hl ρ hρ hg)

/-- **What goes from a forward zone** is what is selected. -/
theorem forward_gone_iff (hn : IsHostName vmName) (hi : IsIpv4 myip) {s : Server}
    (hs : s ∈ none :: ms.map some) {goes : List Text → Prop} :
    (∀ ρ ∈ rows ((DnsService.deleted ms vmName myip mydomain mynetReverse z).text
      (s, forwardFile mydomain)), ¬ goes ρ) ↔ NoneMissed (SelectsForward vmName myip s) goes
        (serverLines s (z.text (s, forwardFile mydomain))) := by
  refine none_left_iff fun ρ => ?_
  rcases List.mem_cons.mp hs with rfl | hs
  · exact DnsService.exists_deleted_local_forward (q := fun l => ρ ∈ rows l) List.not_mem_nil hi.word.1
  · obtain ⟨m, hm, rfl⟩ := List.mem_map.mp hs
    simp only [serverLines, DnsService.mem_lines_deleted_master_forward hn hi hm, and_assoc,
      SelectsForward]

/-- **What goes from a reverse zone** is what is selected. -/
theorem reverse_gone_iff (hn : IsHostName vmName) (hi : IsIpv4 myip) (hrev : mynetReverse ≠ [])
    {s : Server} (hs : s ∈ none :: ms.map some) {goes : List Text → Prop} :
    (∀ ρ ∈ rows ((DnsService.deleted ms vmName myip mydomain mynetReverse z).text
      (s, reverseFile mynetReverse)), ¬ goes ρ) ↔ NoneMissed (SelectsReverse vmName myip s) goes
        (serverLines s (z.text (s, reverseFile mynetReverse))) := by
  refine none_left_iff fun ρ => ?_
  rcases List.mem_cons.mp hs with rfl | hs
  · exact DnsService.exists_deleted_local_reverse (q := fun l => ρ ∈ rows l) List.not_mem_nil
      hi.word.1 hrev
  · obtain ⟨m, hm, rfl⟩ := List.mem_map.mp hs
    simp only [serverLines, DnsService.mem_lines_deleted_master_reverse hn hi hrev hm, and_assoc,
      SelectsReverse]

/-- The record of a node goes from this host only with its own address. -/
theorem ip_eq_of_gone (hn : IsHostName vmName) (hi : IsIpv4 ip) (hip : myip ≠ [])
    (hkept : aRecord (shortName vmName) ip ∈ splitlines (z.text (none, forwardFile mydomain)))
    (hgone : ∀ ρ ∈ rows ((DnsService.deleted ms vmName myip mydomain mynetReverse z).text
      (none, forwardFile mydomain)), ¬ ForwardRow services vmName ip ρ) : myip = ip := by
  have hrow := rowOf_aRecord hn.short hi.word
  let reads : Text → Prop := fun l => rowOf l = [shortName vmName, "IN".toList, "A".toList, ip]
  have hsel : aRecord (shortName vmName) ip = aRecord (shortName vmName) myip ∨
      DnsService.EndsAsService myip (aRecord (shortName vmName) ip) := by
    by_contra hsel
    obtain ⟨l, hl, h⟩ := (DnsService.exists_deleted_local_forward (q := reads)
      (fun h => by cases h) hip).mpr ⟨_, hkept, hsel, hrow⟩
    exact hgone _ (mem_rows.mpr ⟨l, hl, List.cons_ne_nil _ _, h⟩) (Or.inl rfl)
  rcases hsel with h | h
  · have h := (List.cons.inj (List.append_cancel_left h)).2
    exact (List.cons.inj (List.append_cancel_left h)).2.symm
  · -- the record has no tab, which that of a service begins with
    exfalso
    have htab : '\t' ∈ aRecord (shortName vmName) ip := h.subset List.mem_cons_self
    rw [aRecord, List.mem_append, List.mem_cons, List.mem_append, List.mem_cons] at htab
    rcases htab with htab | htab | htab | htab | htab
    · exact absurd (hn.short.2 _ htab) (by decide)
    · exact absurd htab (by decide)
    · exact absurd htab (by decide)
    · exact absurd htab (by decide)
    · exact absurd (hi.word.2 _ htab) (by decide)

theorem reverseFile_injective {mynetReverse mynetReverse' : Text}
    (h : reverseFile mynetReverse = reverseFile mynetReverse') : mynetReverse = mynetReverse' :=
  List.append_cancel_right h

/-- A destruction that ends before the removal leaves the record of the node. -/
theorem not_noneLeft_of_kept (hn : IsHostName f.vmName) (hi : IsIpv4 (registeredIp f c))
    (hkept : Kept f c d) : ¬ NoneLeft f c services d := fun h =>
  h.forward none List.mem_cons_self _ (mem_rows.mpr ⟨_, hkept.forward, List.cons_ne_nil _ _,
    rowOf_aRecord hn.short hi.word⟩) (Or.inl rfl)

/-- **The removal**, with the address that was registered. -/
theorem destroyDns_of_target (hi : IsIpv4 ip) (h : destroyTarget f k d = some (ip, ms)) :
    (destroyDns f k d).zones = DnsService.deleted (masters k.reachable ms) f.vmName ip
      (registeredDomain f c) ((f.env f.node).get "mynet_reverse".toList) d.zones := by
  unfold destroyDns
  rw [h]
  dsimp only
  rw [if_neg hi.word.1, env_mydomain]
  rfl

/-- **When a removal leaves nothing**: the reverse zone is the one that was registered, the servers that
have a record are found, and the lines are written as they are removed. -/
theorem noneLeft_deleted_iff {mynetReverse : Text} (hn : IsHostName f.vmName)
    (hi : IsIpv4 (registeredIp f c)) (hkept : Kept f c d)
    (hz : (destroyDns f k d).zones = DnsService.deleted (masters k.reachable ms) f.vmName
      (registeredIp f c) (registeredDomain f c) mynetReverse d.zones) :
    NoneLeft f c services (destroyDns f k d) ↔
      (registeredReverse f c ≠ [] → mynetReverse = registeredReverse f c) ∧
      (∀ s ∈ writtenServers f c, HasRecord f c services d s → s ∈ servers k.reachable ms) ∧
      (∀ s ∈ writtenServers f c, NoneMissed (SelectsForward f.vmName (registeredIp f c) s)
        (ForwardRow services f.vmName (registeredIp f c))
        (serverLines s (d.zones.text (s, forwardFile (registeredDomain f c))))) ∧
      (registeredReverse f c ≠ [] → ∀ s ∈ writtenServers f c,
        NoneMissed (SelectsReverse f.vmName (registeredIp f c) s)
          (ReverseRow f.vmName (registeredIp f c))
          (serverLines s (d.zones.text (s, reverseFile (registeredReverse f c))))) := by
  have hmissed : ∀ {s : Server} {t : Text} {selected : Text → Prop} {goes : List Text → Prop},
      (∀ ρ ∈ rows t, ¬ goes ρ) → NoneMissed selected goes (serverLines s t) :=
    fun {s _ _ _} h l hl ρ hρ hg => absurd hg (h ρ ((mem_rows_serverLines s).mpr ⟨l, hl, hρ⟩))
  constructor
  · intro h
    have hrev : registeredReverse f c ≠ [] → mynetReverse = registeredReverse f c := fun hne => by
      by_contra hdiff
      refine h.reverse hne none List.mem_cons_self _ ?_ rfl
      rw [hz, deleted_text_of_ne (forwardFile_ne_reverseFile _ _).symm
        (Or.inr fun he => hdiff (reverseFile_injective he).symm)]
      exact mem_rows.mpr ⟨_, hkept.reverse hne, List.cons_ne_nil _ _,
        rowOf_ptrRecord hi.octet hn.word⟩
    have hfound : ∀ s ∈ writtenServers f c, HasRecord f c services d s →
        s ∈ servers k.reachable ms := fun s hs hrec => by
      by_contra hnot
      rcases hrec with ⟨ρ, hρ, hg⟩ | ⟨hne, ρ, hρ, hg⟩
      · refine h.forward s hs ρ ?_ hg
        rwa [hz, deleted_text_of_not_mem hnot]
      · refine h.reverse hne s hs ρ ?_ hg
        rwa [hz, deleted_text_of_not_mem hnot]
    refine ⟨hrev, hfound, fun s hs => ?_, fun hne s hs => ?_⟩
    · by_cases hin : s ∈ servers k.reachable ms
      · have hgone := h.forward s hs
        rw [hz] at hgone
        exact (forward_gone_iff hn hi hin).mp hgone
      · exact hmissed fun ρ hρ hg => hin (hfound s hs (Or.inl ⟨ρ, hρ, hg⟩))
    · by_cases hin : s ∈ servers k.reachable ms
      · have hgone := h.reverse hne s hs
        rw [hz, hrev hne] at hgone
        exact (reverse_gone_iff hn hi hne hin).mp hgone
      · exact hmissed fun ρ hρ hg => hin (hfound s hs (Or.inr ⟨hne, ρ, hρ, hg⟩))
  · rintro ⟨hrev, hfound, hforward, hreverse⟩
    refine ⟨fun s hs => ?_, fun hne s hs => ?_⟩
    · by_cases hin : s ∈ servers k.reachable ms
      · rw [hz]
        exact (forward_gone_iff hn hi hin).mpr (hforward s hs)
      · rw [hz, deleted_text_of_not_mem hin]
        exact fun ρ hρ hg => hin (hfound s hs (Or.inl ⟨ρ, hρ, hg⟩))
    · by_cases hin : s ∈ servers k.reachable ms
      · rw [hz, hrev hne]
        exact (reverse_gone_iff hn hi hne hin).mpr (hreverse hne s hs)
      · rw [hz, deleted_text_of_not_mem hin]
        exact fun ρ hρ hg => hin (hfound s hs (Or.inr ⟨hne, ρ, hρ, hg⟩))

end Destruction

/-- **Destroying a node undoes the records that creating it wrote**, after any calls in between that
left them on this host, exactly when it still knows what was registered and where. -/
theorem noneLeft_iff (calls : List DnsService.Call) (d₀ : DnsService) (hn : IsHostName f.vmName)
    (hi : IsIpv4 (registeredIp f c))
    (hkept : Kept f c (DnsService.run e loads calls (provisionDns f c e loads d₀))) :
    let d := DnsService.run e loads calls (provisionDns f c e loads d₀)
    let services := DnsService.serviceNames (registeredDomain f c) calls
    NoneLeft f c services (destroyDns f k d) ↔ Undoes f c k services d := by
  intro d services
  constructor
  · intro h
    cases htarget : destroyTarget f k d with
    | none =>
      unfold destroyDns at h
      rw [htarget] at h
      exact absurd h (not_noneLeft_of_kept hn hi hkept)
    | some target =>
      obtain ⟨ip, ms⟩ := target
      have hip : ip ≠ [] := fun hnil => by
        unfold destroyDns at h
        rw [htarget] at h
        dsimp only at h
        rw [if_pos hnil] at h
        exact not_noneLeft_of_kept hn hi hkept h
      have hown : ip = registeredIp f c := by
        have hgone := h.forward none List.mem_cons_self
        unfold destroyDns at hgone
        rw [htarget] at hgone
        dsimp only at hgone
        rw [if_neg hip, env_mydomain, delFromDns_zones] at hgone
        exact ip_eq_of_gone hn hi hip hkept.forward hgone
      subst hown
      obtain ⟨hex, hfound, haddr, hdns, rfl⟩ := (destroyTarget_eq_some_iff hip).mp htarget
      obtain ⟨hrev, hservers, hforward, hreverse⟩ :=
        (noneLeft_deleted_iff hn hi hkept (destroyDns_of_target hi htarget)).mp h
      exact ⟨hex, hfound, haddr, hdns, hrev, hservers, hforward, hreverse⟩
  · intro h
    have hip : (registeredIp f c, destructionServers f k).1 ≠ [] := hi.word.1
    have htarget := (destroyTarget_eq_some_iff hip).mpr
      ⟨h.created, h.backend, h.address, h.dnsVm, rfl⟩
    exact (noneLeft_deleted_iff hn hi hkept (destroyDns_of_target hi htarget)).mpr
      ⟨h.reverse, h.servers, h.forwardLines, h.reverseLines⟩

/-- A node of a lab with one more master, that has this field. -/
def labNode (key value : Text) : NodeFile where
  vmName := "a.lab".toList
  existing := false
  common := fun k => if k = "mydomain".toList then some "lab".toList else none
  node := fun k => if k = key then some value else none
  config := fun k => if k = "REMOTE_DNS_SERVERS".toList then some "m1".toList else none
  defaults := fun _ => none
  detected := ⟨[], [], [], []⟩
  cloud := false
  harvester := false

/-- Its creation, with the DNS servers of other sites. -/
def labCreation (gatewayLanIp : Text) (otherDns : List Text) : Creation where
  allocated := some "10.0.0.5".toList
  createdIp := []
  dnsVmIp := []
  gatewayLanIp := gatewayLanIp
  otherDns := otherDns
  reachable := fun _ => true

/-- Its destruction, from a host that resolves nothing. -/
def labDestruction : Destruction where
  backendFound := true
  getIp := none
  dnsVmIp := none
  host := ⟨fun _ => none, fun _ => none, [], fun t => t.length, fun _ => false, Char.isAlphanum⟩
  reachable := fun _ => true

/-- The records of a node whose lab gives its address, once it is created. -/
def createdDns : DnsService :=
  DnsService.run plainEngines (fun _ _ => none) []
    (provisionDns (labNode "myip".toList "10.0.0.5".toList) (labCreation [] []) plainEngines
      (fun _ _ => none) DnsService.fresh)

theorem noneLeft_iff_myip : NoneLeft (labNode "myip".toList "10.0.0.5".toList) (labCreation [] [])
    (DnsService.serviceNames (registeredDomain (labNode "myip".toList "10.0.0.5".toList)
      (labCreation [] [])) [])
    (destroyDns (labNode "myip".toList "10.0.0.5".toList) labDestruction createdDns) := by
  have hsame : servers labDestruction.reachable
      (destructionServers (labNode "myip".toList "10.0.0.5".toList) labDestruction) =
      writtenServers (labNode "myip".toList "10.0.0.5".toList) (labCreation [] []) := by
    decide
  have hkept : Kept (labNode "myip".toList "10.0.0.5".toList) (labCreation [] []) createdDns :=
    ⟨by decide +kernel, fun _ => by decide +kernel⟩
  exact (noneLeft_iff _ _ _ _ labDestruction [] _ (by decide) (by decide) hkept).mpr
    { created := rfl
      backend := rfl
      address := .file (by decide)
      dnsVm := fun h => absurd h Bool.false_ne_true
      reverse := fun _ => by decide
      servers := fun s hs _ => by rwa [hsame]
      forwardLines := by decide +kernel
      reverseLines := fun _ => by decide +kernel }

/-- **A node whose lab leaves its address out keeps its pointer; one of the overlay keeps its address on
the DNS server of another site.** -/
theorem not_noneLeft :
    (let f := labNode "config_method".toList "cloud-init".toList
     let c := labCreation [] []
     ¬ NoneLeft f c [] (destroyDns f labDestruction
      (provisionDns f c plainEngines (fun _ _ => none) DnsService.fresh))) ∧
    (let f := { labNode "myip".toList "10.0.0.5".toList with
       defaults := fun k => if k = "overlay".toList then some "true".toList else none }
     let c := labCreation "10.0.0.2".toList ["m2".toList]
     ¬ NoneLeft f c [] (destroyDns f labDestruction
      (provisionDns f c plainEngines (fun _ _ => none) DnsService.fresh))) := by
  constructor
  · intro f c h
    exact h.reverse (by decide) none (by decide)
      ["5".toList, "IN".toList, "PTR".toList, "a.lab.".toList] (by decide +kernel) (by decide +kernel)
  · intro f c h
    exact h.forward (some "m2".toList) (by decide)
      ["a".toList, "IN".toList, "A".toList, "10.0.0.5".toList] (by decide +kernel)
      (by decide)

end LabInABox.Dns
