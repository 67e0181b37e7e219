import LabInABox.Ipv4
import LabInABox.Run
import LabInABox.Text.Table

/-!
# The registries of the overlay hub

Model of the registries in `libs/overlay.py` (`site_name_for`, `_allocate_overlay_ip`,
`_register_site`, `list_other_sites`, `register_node`, `list_nodes`, `forget_node`,
`register_dns_server`, `list_dns_servers`, and what `retire_site` does to the four files).

* `Hub` holds the text of the four files; a file that is not there yet is empty, which is what the
  `touch` before every read makes of it.
* Each writer is the text it leaves for the text it read (`registerSite`, `registerNode`,
  `registerDnsServer`), or the address it hands out (`allocateOverlayIp`), so that the same function
  serves a call on its own and a call whose read and write other calls come between.
* `Maps` is what the registries are for: a finite map each. `Maps.apply` says what a call means for
  them.
* The peer, the kernel route and the nodes' routes that `retire_site` also removes are not in these
  files; the messages it logs are left out.

Results:
* `Good`: each file holds its map, one entry a line. `good_step`: every call that meets `CallOk`
  keeps it.
* `registries_refine_maps`: in every state such calls reach, the lists are the maps.
* `callOk_forgetNode`: removing a node meets its condition whatever its name or address; the dots are
  escaped. `callOk_retireSite`: retiring a site does when the name has no special character, and
  `retire_removes_other_site` shows what a dot does.
-/

namespace LabInABox.Overlay

open Text Ipv4

/-! ## The files -/

/-- The registry files on the hub. -/
inductive File
  | sites
  | allocations
  | nodes
  | dns
  deriving DecidableEq

instance (p : File → Prop) [DecidablePred p] : Decidable (∀ f, p f) :=
  decidable_of_iff (p .sites ∧ p .allocations ∧ p .nodes ∧ p .dns)
    ⟨fun ⟨h₁, h₂, h₃, h₄⟩ f => by cases f <;> assumption, fun h => ⟨h _, h _, h _, h _⟩⟩

/-- The text of each registry. -/
abbrev Hub := File → Text

/-- `site_name_for(backend_name, account)`. -/
def siteNameFor (backendName account : Text) : Text :=
  if backendName ∈ ["libvirt".toList, "harvester".toList, []] then "home".toList
  else backendName ++ '-' :: (if account = [] then "default".toList else account)

/-! ## Reading -/

/-- The lines of two fields, as pairs. -/
def pairRows (text : Text) : List (Text × Text) :=
  (readLines text).filterMap fun line =>
    match fields line with
    | [a, b] => some (a, b)
    | _ => none

/-- `list_other_sites(hub_host, exclude_site_name)`. -/
def listOtherSites (hub : Hub) (excludeSiteName : Option Text) : List (Text × Text) :=
  (pairRows (hub .sites)).filter fun p => some p.1 ≠ excludeSiteName

/-- `list_nodes(hub_host, site_name)`: the site, the host and the gateway of each node. -/
def listNodes (hub : Hub) (siteName : Option Text) : List (Text × Text × Text) :=
  (readLines (hub .nodes)).filterMap fun line =>
    match fields line with
    | [site, host, gateway] =>
      if siteName = none ∨ siteName = some site then some (site, host, gateway) else none
    | _ => none

/-- `list_dns_servers(hub_host, exclude_site, mydomain)`. -/
def listDnsServers (hub : Hub) (excludeSite : Option Text) (mydomain : Text) : List (Text × Text) :=
  (readLines (hub .dns)).filterMap fun line =>
    match fields line with
    | site :: dnsIp :: rest =>
      let domain := rest.headD []
      if some site = excludeSite then none
      else if domain ≠ [] ∧ mydomain ≠ [] ∧ domain ≠ mydomain then none
      else some (site, dnsIp)
    | _ => none

/-! ## Writing -/

/-- `_register_site(hub_host, site_name, site_cidr)` on the text it read. -/
def registerSite (siteName siteCidr existing : Text) : Text :=
  rewriteFile (fun line => (fields line).take 1 != [siteName]) (join [siteName, siteCidr]) existing

/-- `register_node(hub_host, site_name, node_host, gateway_lan_ip)` on the text it read. -/
def registerNode (siteName nodeHost gatewayLanIp existing : Text) : Text :=
  rewriteFile (fun line => ((fields line).drop 1).take 1 != [nodeHost] && strip line != [])
    (join [siteName, nodeHost, gatewayLanIp]) existing

/-- `register_dns_server(hub_host, site_name, dns_ip, mydomain)` on the text it read. -/
def registerDnsServer (siteName dnsIp mydomain existing : Text) : Text :=
  rewriteFile (fun line => (fields line).take 1 != [siteName] && strip line != [])
    (join ([siteName, dnsIp, mydomain].filter (· != []))) existing

/-- `_allocate_overlay_ip(hub_host, name, overlay_cidr)` on the text it read: the address it returns,
and whether it appends a line for it. `none` is an exception, or the end of the run when the network
is exhausted. -/
def allocateOverlayIp (name overlayCidr existing : Text) : Option (Text × Bool) := do
  let net ← ipNetwork true overlayCidr
  let hubIp ← net.second
  let rows := pairRows existing
  let used ← rows.mapM fun r => parse r.2
  match dictGet rows name with
  | some ip => some (ip, false)
  | none => do
    let candidate ← net.hosts.find? fun a => a ≠ hubIp ∧ a ∉ used
    some (render candidate, true)

/-- The line `_allocate_overlay_ip` appends. -/
def allocationLine (name ip : Text) : Text := join [name, ip] ++ ['\n']

/-- The expression `retire_site` deletes lines by. -/
def sitePattern (siteName : Text) : Text := '^' :: (siteName ++ [' '])

/-- The expression `forget_node` deletes lines by. -/
def nodePattern (nodeHost : Text) : Text := spaceClass ++ (escapeDots nodeHost ++ spaceClass)

/-- `forget_node(hub_host, node_host)`. -/
def forgetNode (hub : Hub) (nodeHost : Text) : Hub :=
  Function.update hub .nodes (sedDelete (nodePattern nodeHost) (hub .nodes))

/-- `sites.get(site_name, "")` in `retire_site`. -/
def siteCidr (hub : Hub) (siteName : Text) : Text :=
  (dictGet (listOtherSites hub none) siteName).getD []

/-- `retire_site(hub_host, site_name)`: what it returns and the registries after it. -/
def retireSite (hub : Hub) (siteName : Text) : Text × Hub :=
  if siteCidr hub siteName = [] then ([], hub)
  else (siteCidr hub siteName, fun f => sedDelete (sitePattern siteName) (hub f))

/-! ## Calls -/

/-- A call that changes the registries. -/
inductive Call
  | registerSite (siteName siteCidr : Text)
  | allocateOverlayIp (name overlayCidr : Text)
  | registerNode (siteName nodeHost gatewayLanIp : Text)
  | forgetNode (nodeHost : Text)
  | registerDnsServer (siteName dnsIp mydomain : Text)
  | retireSite (siteName : Text)

/-- The address an allocation returns. -/
def Call.returned (hub : Hub) : Call → Option Text
  | .allocateOverlayIp name cidr => (Overlay.allocateOverlayIp name cidr (hub .allocations)).map (·.1)
  | _ => none

/-- The registries after a call. -/
def Call.run (hub : Hub) : Call → Hub
  | .registerSite s c => Function.update hub .sites (Overlay.registerSite s c (hub .sites))
  | .allocateOverlayIp name cidr =>
    match Overlay.allocateOverlayIp name cidr (hub .allocations) with
    | some (ip, true) =>
      Function.update hub .allocations (hub .allocations ++ allocationLine name ip)
    | _ => hub
  | .registerNode s h g => Function.update hub .nodes (Overlay.registerNode s h g (hub .nodes))
  | .forgetNode h => Overlay.forgetNode hub h
  | .registerDnsServer s ip d => Function.update hub .dns (Overlay.registerDnsServer s ip d (hub .dns))
  | .retireSite s => (Overlay.retireSite hub s).2

/-! ## What the registries are for -/

/-- The registries as finite maps. -/
structure Maps where
  /-- The subnet of a site. -/
  sites : Text → Option Text
  /-- The overlay address last handed out to a site. -/
  allocations : Text → Option Text
  /-- The site and the gateway of a node. -/
  nodes : Text → Option (Text × Text)
  /-- The DNS server of a site and the domain it serves, empty when not stated. -/
  dns : Text → Option (Text × Text)

/-- Nothing registered. -/
def Maps.empty : Maps := ⟨fun _ => none, fun _ => none, fun _ => none, fun _ => none⟩

/-- What a call means: registering sets the key, forgetting and retiring clear it. -/
def Maps.apply (m : Maps) (returned : Option Text) : Call → Maps
  | .registerSite s c => { m with sites := Function.update m.sites s (some c) }
  | .allocateOverlayIp s _ =>
    match returned with
    | some ip => { m with allocations := Function.update m.allocations s (some ip) }
    | none => m
  | .registerNode s h g => { m with nodes := Function.update m.nodes h (some (s, g)) }
  | .forgetNode h => { m with nodes := Function.update m.nodes h none }
  | .registerDnsServer s ip d => { m with dns := Function.update m.dns s (some (ip, d)) }
  | .retireSite s =>
    { sites := Function.update m.sites s none
      allocations := Function.update m.allocations s none
      nodes := fun h => (m.nodes h).filter fun v => v.1 ≠ s
      dns := Function.update m.dns s none }

/-- A call on the hub, next to what it means. -/
def step (st : Hub × Maps) (c : Call) : Hub × Maps := (c.run st.1, st.2.apply (c.returned st.1) c)

/-- A hub with no registry yet. -/
def initial : Hub × Maps := (fun _ => [], Maps.empty)

/-- The lists are the maps, restricted as the arguments say. -/
structure Listed (hub : Hub) (m : Maps) : Prop where
  sites : ∀ exclude, Represents (listOtherSites hub exclude) fun s =>
    (m.sites s).filter fun _ => some s ≠ exclude
  allocations : Represents (pairRows (hub .allocations)) m.allocations
  nodes : ∀ site, Represents ((listNodes hub site).map fun n => (n.2.1, (n.1, n.2.2))) fun h =>
    (m.nodes h).filter fun v => site = none ∨ site = some v.1
  dns : ∀ exclude mydomain, Represents (listDnsServers hub exclude mydomain) fun s =>
    (m.dns s).bind fun v =>
      if some s = exclude ∨ (v.2 ≠ [] ∧ mydomain ≠ [] ∧ v.2 ≠ mydomain) then none else some v.1

/-! ## The condition of a call -/

/-- What a call has to meet: the names and values are single words, and the expression of a removal
selects exactly the lines of the name it is about. A site that the hub does not have is not retired,
so it must not have left lines either. -/
def CallOk (hub : Hub) : Call → Prop
  | .registerSite s c => IsField isSpace s ∧ IsField isSpace c
  | .allocateOverlayIp s _ => IsField isSpace s
  | .registerNode s h g => IsField isSpace s ∧ IsField isSpace h ∧ IsField isSpace g
  | .forgetNode h => sedSelects (nodePattern h) (hub .nodes) (fun fs => fs[1]? == some h) = true
  | .registerDnsServer s ip d =>
    IsField isSpace s ∧ IsField isSpace ip ∧ (d = [] ∨ IsField isSpace d)
  | .retireSite s =>
    (siteCidr hub s = [] ∧ ∀ f, ∀ l ∈ lines (hub f), (fields l).head? ≠ some s) ∨
      (siteCidr hub s ≠ [] ∧
        ∀ f, sedSelects (sitePattern s) (hub f) (fun fs => fs.head? == some s) = true)

instance (hub : Hub) : (c : Call) → Decidable (CallOk hub c)
  | .registerSite s c => inferInstanceAs (Decidable (IsField isSpace s ∧ IsField isSpace c))
  | .allocateOverlayIp s _ => inferInstanceAs (Decidable (IsField isSpace s))
  | .registerNode s h g =>
    inferInstanceAs (Decidable (IsField isSpace s ∧ IsField isSpace h ∧ IsField isSpace g))
  | .forgetNode _ => inferInstanceAs (Decidable (sedSelects _ _ _ = true))
  | .registerDnsServer s ip d => inferInstanceAs (Decidable
      (IsField isSpace s ∧ IsField isSpace ip ∧ (d = [] ∨ IsField isSpace d)))
  | .retireSite s => inferInstanceAs (Decidable
      ((siteCidr hub s = [] ∧ ∀ f, ∀ l ∈ lines (hub f), (fields l).head? ≠ some s) ∨
        (siteCidr hub s ≠ [] ∧ ∀ f, sedSelects (sitePattern s) (hub f) _ = true)))

/-! ## The files hold the maps -/

/-- The fields of a line of two. -/
def pairRow (e : Text × Text) : List Text := [e.1, e.2]

/-- The fields of a node's line, keyed by the node. -/
def nodeRow (e : Text × Text × Text) : List Text := [e.2.1, e.1, e.2.2]

/-- The fields of a DNS server's line: the domain only when it is stated. -/
def dnsRow (e : Text × Text × Text) : List Text :=
  [e.1, e.2.1] ++ if e.2.2 = [] then [] else [e.2.2]

/-- The file holds the map. -/
def Holds {β : Type} (row : Text × β → List Text) (file : Text) (m : Text → Option β) : Prop :=
  ∃ es, IsTable row file es ∧ Represents es m

/-- The invariant: each file holds its map. -/
structure Good (st : Hub × Maps) : Prop where
  sites : Holds pairRow (st.1 .sites) st.2.sites
  allocations : Holds pairRow (st.1 .allocations) st.2.allocations
  nodes : Holds nodeRow (st.1 .nodes) st.2.nodes
  dns : Holds dnsRow (st.1 .dns) st.2.dns

section Holds

variable {β : Type} {row : Text × β → List Text} {file : Text} {m : Text → Option β}

theorem Holds.empty (row : Text × β → List Text) : Holds row [] fun _ => none :=
  ⟨[], IsTable.nil row, Represents.nil⟩

/-- A rewrite that drops the lines of a key and adds one replaces its entry. -/
theorem Holds.upsert (h : Holds row file m) {keep : Text → Bool} {k : Text} {v : β}
    (hkeep : ∀ e : Text × β, (∀ f ∈ row e, IsField isSpace f) → row e ≠ [] →
      keep (join (row e)) = decide (e.1 ≠ k))
    (hne : row (k, v) ≠ []) (hf : ∀ f ∈ row (k, v), IsField isSpace f) :
    Holds row (rewriteFile keep (join (row (k, v))) file) (Function.update m k (some v)) := by
  obtain ⟨es, ht, hr⟩ := h
  exact ⟨_, ht.rewriteFile (fun e he => hkeep e (ht.isField e he) (ht.ne_nil e he)) hne hf,
    hr.upsert k v⟩

/-- Deleting by a pattern that selects the entries of `q` drops them from the map. -/
theorem Holds.sedDelete (h : Holds row file m) {pattern : Text} {q : List Text → Bool}
    (hsel : sedSelects pattern file q = true) :
    Holds row (Text.sedDelete pattern file) fun k => (m k).filter fun v => !q (row (k, v)) := by
  obtain ⟨es, ht, hr⟩ := h
  exact ⟨_, ht.sedDelete hsel (p := fun e => !q (row e)) fun _ _ => rfl, hr.filter _⟩

/-- A key with no line is not in the map. -/
theorem Holds.filter_eq_self (h : Holds row file m) {q : List Text → Bool}
    (hq : ∀ l ∈ lines file, q (fields l) = false) :
    (fun k => (m k).filter fun v => !q (row (k, v))) = m := by
  obtain ⟨es, ht, hr⟩ := h
  funext k
  cases hm : m k with
  | none => rfl
  | some v =>
    have he := (hr.mem_iff k v).mpr hm
    have hl : join (row (k, v)) ∈ lines file := by
      rw [ht.lines_eq]
      exact List.mem_map_of_mem he
    have := hq _ hl
    rw [ht.fields_line he] at this
    simp [this]

end Holds

/-! ## One call -/

theorem keep_pairRow {k : Text} (e : Text × Text) (hf : ∀ f ∈ pairRow e, IsField isSpace f) :
    ((fields (join (pairRow e))).take 1 != [k]) = decide (e.1 ≠ k) := by
  rw [fields_join hf, Bool.eq_iff_iff]
  simp [pairRow]

theorem strip_ne_nil_of_isEntry {l : Text} (h : IsEntry l) : (strip l != []) = true := by
  rw [strip_eq_self h.head h.last]
  simpa using h.ne_nil

theorem keep_nodeRow {k : Text} (e : Text × Text × Text) (hf : ∀ f ∈ nodeRow e, IsField isSpace f) :
    (((fields (join (nodeRow e))).drop 1).take 1 != [k] && strip (join (nodeRow e)) != []) =
      decide (e.1 ≠ k) := by
  have hentry : IsEntry (join (nodeRow e)) := isEntry_join (by simp [nodeRow]) hf
  rw [fields_join hf, strip_ne_nil_of_isEntry hentry, Bool.and_true, Bool.eq_iff_iff]
  simp [nodeRow]

theorem keep_dnsRow {k : Text} (e : Text × Text × Text) (hf : ∀ f ∈ dnsRow e, IsField isSpace f) :
    ((fields (join (dnsRow e))).take 1 != [k] && strip (join (dnsRow e)) != []) =
      decide (e.1 ≠ k) := by
  have hentry : IsEntry (join (dnsRow e)) := isEntry_join (by simp [dnsRow]) hf
  rw [fields_join hf, strip_ne_nil_of_isEntry hentry, Bool.and_true, Bool.eq_iff_iff]
  simp [dnsRow]

theorem dnsRow_eq_filter {s ip d : Text} (hs : IsField isSpace s) (hip : IsField isSpace ip) :
    [s, ip, d].filter (· != []) = dnsRow (s, (ip, d)) := by
  by_cases hd : d = []
  · simp [dnsRow, hd, hs.1, hip.1]
  · simp [dnsRow, hd, hs.1, hip.1]

theorem Holds.pairRows {file : Text} {m : Text → Option Text} (h : Holds pairRow file m) :
    Represents (Overlay.pairRows file) m := by
  obtain ⟨es, ht, hr⟩ := h
  have he : Overlay.pairRows file = es := by
    rw [Overlay.pairRows, ht.read, List.filterMap_map]
    have hid : ∀ e ∈ es, ((fun line => match fields line with
        | [a, b] => some (a, b)
        | _ => none) ∘ fun e => join (pairRow e)) e = some e := fun e he => by
      simp only [Function.comp_apply, ht.fields_line he]
      rfl
    rw [List.filterMap_congr hid, List.filterMap_some]
  rwa [he]

variable {st : Hub × Maps}

theorem Good.siteCidr_eq (h : Good st) (s : Text) : siteCidr st.1 s = (st.2.sites s).getD [] := by
  have hall : listOtherSites st.1 none = pairRows (st.1 .sites) := by
    rw [listOtherSites, List.filter_eq_self]
    simp
  rw [siteCidr, hall, h.sites.pairRows.dictGet_eq]

/-- Dropping the entries of one key is clearing it. -/
theorem filter_key_eq_update {β : Type} (m : Text → Option β) (row : Text × β → List Text) (s : Text)
    (hrow : ∀ e, (row e).head? = some e.1) :
    (fun k => (m k).filter fun v => !((row (k, v)).head? == some s)) = Function.update m s none := by
  funext k
  by_cases hk : k = s
  · subst hk
    rw [Function.update_self]
    cases m k <;> simp [hrow]
  · rw [Function.update_of_ne hk]
    cases m k <;> simp [hrow, hk]

theorem Good.retire (h : Good st) {s : Text}
    (hok : CallOk st.1 (.retireSite s)) : Good (step st (.retireSite s)) := by
  have hfield : ∀ {β : Type} {row : Text × β → List Text} {f : File} {m : Text → Option β},
      Holds row (st.1 f) m → Holds row ((retireSite st.1 s).2 f)
        fun k => (m k).filter fun v => !((row (k, v)).head? == some s) := by
    intro β row f m hh
    rcases hok with ⟨hc, hno⟩ | ⟨hc, hsel⟩
    · rw [retireSite, if_pos hc,
        hh.filter_eq_self (q := fun fs => fs.head? == some s) fun l hl => by simpa using hno f l hl]
      exact hh
    · rw [retireSite, if_neg hc]
      exact hh.sedDelete (hsel f)
  have hnodes : (fun k => (st.2.nodes k).filter fun v => !((nodeRow (k, v)).head? == some s)) =
      fun k => (st.2.nodes k).filter fun v => decide (v.1 ≠ s) := by
    funext k
    congr 1
    funext v
    rw [Bool.eq_iff_iff]
    simp [nodeRow]
  refine ⟨?_, ?_, ?_, ?_⟩
  · have := hfield h.sites
    rwa [filter_key_eq_update _ _ _ fun _ => rfl] at this
  · have := hfield h.allocations
    rwa [filter_key_eq_update _ _ _ fun _ => rfl] at this
  · have := hfield h.nodes
    rwa [hnodes] at this
  · have := hfield h.dns
    rwa [filter_key_eq_update _ _ _ fun _ => rfl] at this

/-- An allocation adds the line of the address it returns, unless it is there. -/
theorem Holds.allocate {hub : Hub} {m : Text → Option Text} (h : Holds pairRow (hub .allocations) m)
    {s cidr : Text} (hs : IsField isSpace s) :
    Holds pairRow ((Call.allocateOverlayIp s cidr).run hub .allocations)
      (match (Call.allocateOverlayIp s cidr).returned hub with
        | some ip => Function.update m s (some ip)
        | none => m) := by
  have hrep := h.pairRows
  simp only [Call.run, Call.returned]
  cases ha : allocateOverlayIp s cidr (hub .allocations) with
  | none => exact h
  | some r =>
    obtain ⟨ip, isNew⟩ := r
    simp only [allocateOverlayIp, Option.bind_eq_bind, Option.bind_eq_some_iff] at ha
    obtain ⟨net, _, hubIp, _, used, _, ha⟩ := ha
    rw [hrep.dictGet_eq] at ha
    split at ha
    · -- the site has an address already, and the map has it
      rename_i ip' hip
      obtain ⟨rfl, rfl⟩ := Prod.mk.inj (Option.some.inj ha)
      have hsame : Function.update m s (some ip') = m := by
        rw [← hip, Function.update_eq_self]
      simp only [Option.map_some, hsame]
      exact h
    · rename_i hnone
      obtain ⟨a, _, ha⟩ := Option.bind_eq_some_iff.mp ha
      obtain ⟨rfl, rfl⟩ := Prod.mk.inj (Option.some.inj ha)
      simp only [Option.map_some]
      obtain ⟨es, ht, hr⟩ := h
      have ht' := ht.append (e := (s, render a)) (by simp [pairRow]) fun f hf => by
        simp only [pairRow, List.mem_cons, List.not_mem_nil, or_false] at hf
        rcases hf with rfl | rfl
        · exact hs
        · exact isField_render a
      refine ⟨es ++ [(s, render a)], ?_, hr.insert hnone _⟩
      simpa [allocationLine, pairRow] using ht'

theorem run_allocate_of_ne (hub : Hub) (s cidr : Text) {f : File} (hf : f ≠ .allocations) :
    (Call.allocateOverlayIp s cidr).run hub f = hub f := by
  simp only [Call.run]
  cases allocateOverlayIp s cidr (hub .allocations) with
  | none => rfl
  | some r =>
    obtain ⟨ip, isNew⟩ := r
    cases isNew with
    | true => exact Function.update_of_ne hf _ _
    | false => rfl

theorem Good.allocate (h : Good st) {s cidr : Text} (hs : IsField isSpace s) :
    Good (step st (.allocateOverlayIp s cidr)) := by
  have hall : Holds pairRow ((Call.allocateOverlayIp s cidr).run st.1 .allocations) _ :=
    h.allocations.allocate hs
  have hkeep {f : File} (hf : f ≠ .allocations) : (step st (.allocateOverlayIp s cidr)).1 f = st.1 f :=
    run_allocate_of_ne st.1 s cidr hf
  have hmap : (step st (.allocateOverlayIp s cidr)).2 = { st.2 with
      allocations := match (Call.allocateOverlayIp s cidr).returned st.1 with
        | some ip => Function.update st.2.allocations s (some ip)
        | none => st.2.allocations } := by
    simp only [step, Maps.apply]
    split <;> rfl
  refine ⟨?_, ?_, ?_, ?_⟩
  · rw [hkeep (by decide), hmap]
    exact h.sites
  · rw [hmap]
    exact hall
  · rw [hkeep (by decide), hmap]
    exact h.nodes
  · rw [hkeep (by decide), hmap]
    exact h.dns

/-- **One call**: the files still hold the maps. -/
theorem good_step (h : Good st) {c : Call} (hok : CallOk st.1 c) : Good (step st c) := by
  cases c with
  | registerSite s c =>
    obtain ⟨hs, hc⟩ := hok
    have hu : Holds pairRow (registerSite s c (st.1 .sites))
        (Function.update st.2.sites s (some c)) :=
      h.sites.upsert (fun e hf _ => keep_pairRow e hf) (by simp [pairRow]) (by simp [pairRow, hs, hc])
    exact ⟨hu, h.allocations, h.nodes, h.dns⟩
  | allocateOverlayIp s cidr => exact h.allocate hok
  | registerNode s n g =>
    obtain ⟨hs, hn, hg⟩ := hok
    have hu : Holds nodeRow (registerNode s n g (st.1 .nodes))
        (Function.update st.2.nodes n (some (s, g))) :=
      h.nodes.upsert (v := (s, g)) (fun e hf _ => keep_nodeRow e hf) (by simp [nodeRow])
        (by simp [nodeRow, hs, hn, hg])
    exact ⟨h.sites, h.allocations, hu, h.dns⟩
  | forgetNode n =>
    have hd := h.nodes.sedDelete hok
    have hm : (fun k => (st.2.nodes k).filter fun v => !((nodeRow (k, v))[1]? == some n)) =
        Function.update st.2.nodes n none := by
      funext k
      by_cases hk : k = n
      · subst hk
        rw [Function.update_self]
        cases st.2.nodes k <;> simp [nodeRow]
      · rw [Function.update_of_ne hk]
        cases st.2.nodes k <;> simp [nodeRow, hk]
    rw [hm] at hd
    exact ⟨h.sites, h.allocations, hd, h.dns⟩
  | registerDnsServer s ip d =>
    obtain ⟨hs, hip, hd⟩ := hok
    have hrow : ∀ f ∈ dnsRow (s, (ip, d)), IsField isSpace f := fun f hf => by
      rw [← dnsRow_eq_filter hs hip] at hf
      obtain ⟨hf, hne⟩ := List.mem_filter.mp hf
      simp only [List.mem_cons, List.not_mem_nil, or_false] at hf
      rcases hf with rfl | rfl | rfl
      · exact hs
      · exact hip
      · exact hd.resolve_left (by simpa using hne)
    have hu : Holds dnsRow (registerDnsServer s ip d (st.1 .dns))
        (Function.update st.2.dns s (some (ip, d))) := by
      rw [registerDnsServer, dnsRow_eq_filter hs hip]
      exact h.dns.upsert (v := (ip, d)) (fun e hf _ => keep_dnsRow e hf) (by simp [dnsRow]) hrow
    exact ⟨h.sites, h.allocations, h.nodes, hu⟩
  | retireSite s => exact h.retire hok

/-! ## The lists are the maps -/

theorem Good.listed (h : Good st) : Listed st.1 st.2 := by
  refine ⟨fun exclude => ?_, h.allocations.pairRows, fun site => ?_, fun exclude mydomain => ?_⟩
  · exact h.sites.pairRows.filter fun p => decide (some p.1 ≠ exclude)
  · obtain ⟨es, ht, hr⟩ := h.nodes
    have he : (listNodes st.1 site).map (fun n => (n.2.1, (n.1, n.2.2))) =
        es.filter fun e => decide (site = none ∨ site = some e.2.1) := by
      rw [listNodes, ht.read, List.filterMap_map, List.map_filterMap, ← List.filterMap_eq_filter]
      refine List.filterMap_congr fun e he => ?_
      simp only [Function.comp_apply, ht.fields_line he]
      simp only [nodeRow, Option.guard]
      by_cases hc : site = none ∨ site = some e.2.1
      · simp [hc]
      · simp [hc]
    rw [he]
    exact hr.filter _
  · obtain ⟨es, ht, hr⟩ := h.dns
    have he : listDnsServers st.1 exclude mydomain = es.filterMap fun e =>
        (if some e.1 = exclude ∨ (e.2.2 ≠ [] ∧ mydomain ≠ [] ∧ e.2.2 ≠ mydomain) then none
          else some e.2.1).map (Prod.mk e.1) := by
      rw [listDnsServers, ht.read, List.filterMap_map]
      refine List.filterMap_congr fun e he => ?_
      have hdom : (if e.2.2 = [] then [] else [e.2.2]).headD [] = e.2.2 := by
        split
        · rename_i hd
          rw [hd]
          rfl
        · rfl
      simp only [Function.comp_apply, ht.fields_line he]
      simp only [dnsRow, List.cons_append, List.nil_append, hdom]
      by_cases hx : some e.1 = exclude
      · simp [hx]
      · by_cases hd : e.2.2 ≠ [] ∧ mydomain ≠ [] ∧ e.2.2 ≠ mydomain
        · simp [hx, hd]
        · simp [hx, hd]
    rw [he]
    exact hr.filterMap fun s v =>
      if some s = exclude ∨ (v.2 ≠ [] ∧ mydomain ≠ [] ∧ v.2 ≠ mydomain) then none else some v.1

theorem good_initial : Good initial :=
  ⟨Holds.empty _, Holds.empty _, Holds.empty _, Holds.empty _⟩

/-- The states that calls meeting their condition reach. -/
abbrev Reachable : Hub × Maps → Prop := Reached (fun st c => CallOk st.1 c) step initial

theorem good_of_reachable (h : Reachable st) : Good st :=
  h.invariant good_initial fun _ _ hg hok => good_step hg hok

/-- **The registries refine finite maps** in every state that calls meeting their condition reach. -/
theorem registries_refine_maps (st : Hub × Maps) (h : Reachable st) : Listed st.1 st.2 :=
  (good_of_reachable h).listed

/-- Two sites and a node, and the first site retired. -/
theorem registries_refine_maps_retired :
    let calls : List Call := [.registerSite "aws-a".toList "10.1.0.0/24".toList,
      .registerSite "aws-b".toList "10.2.0.0/24".toList,
      .registerNode "aws-a".toList "n1".toList "10.1.0.2".toList,
      .allocateOverlayIp "aws-b".toList "10.99.0.0/30".toList, .retireSite "aws-a".toList]
    Listed (calls.foldl step initial).1 (calls.foldl step initial).2 :=
  registries_refine_maps _ (Reached.start.run (by decide))

/-- **A dot in an account's name retires other sites too**: `sed` reads it as any character, so with
`aws-a.b` the lines of `aws-axb` go. -/
theorem retire_removes_other_site :
    let calls : List Call :=
      [.registerSite (siteNameFor "aws".toList "a.b".toList) "10.1.0.0/24".toList,
      .registerSite (siteNameFor "aws".toList "axb".toList) "10.2.0.0/24".toList,
      .retireSite (siteNameFor "aws".toList "a.b".toList)]
    ¬ Listed (calls.foldl step initial).1 (calls.foldl step initial).2 := by
  intro calls h
  have := ((h.sites none).mem_iff "aws-axb".toList "10.2.0.0/24".toList).mpr (by decide)
  exact absurd this (by decide)

/-! ## When a removal meets its condition -/

theorem fields_ne_nil_of_head {c : Char} {cs : Text} (h : isSpace c = false) : fields (c :: cs) ≠ [] :=
  fun e => by
    have := fieldsBy_eq_nil_iff.mp e c List.mem_cons_self
    rw [h] at this
    exact absurd this Bool.false_ne_true

/-- In a line of three fields, the middle one is the only word with a blank on both sides. -/
theorem spaced_iff_middle {a b d w : Text} (ha : IsField isSpace a) (hb : IsField isSpace b)
    (hd : IsField isSpace d) (hw : IsField isSpace w) :
    (∃ u x y v, join [a, b, d] = u ++ x :: (w ++ y :: v) ∧ posixSpace x = true ∧
      posixSpace y = true) ↔ b = w := by
  have hall : ∀ f ∈ [a, b, d], IsField isSpace f := by simp [ha, hb, hd]
  have hentry : IsEntry (join [a, b, d]) := isEntry_join (by simp) hall
  constructor
  · rintro ⟨u, x, y, v, he, hx, hy⟩
    have hx' := isSpace_of_posixSpace hx
    have hy' := isSpace_of_posixSpace hy
    have hf := fields_join hall
    rw [he, fields, fieldsBy_append_cons_sep hx', fieldsBy_append_sep hw hy'] at hf
    -- neither side of the word is empty, so it is the middle field
    have hu : fieldsBy isSpace u ≠ [] := by
      cases u with
      | nil =>
        have := hentry.head x (by rw [he]; rfl)
        rw [hx'] at this
        exact absurd this (by simp)
      | cons c cs => exact fields_ne_nil_of_head (hentry.head c (by rw [he]; rfl))
    have hv : fieldsBy isSpace v ≠ [] := by
      intro hv
      have hblank := fieldsBy_eq_nil_iff.mp hv
      have hlast : (join [a, b, d]).getLast? = some ((y :: v).getLast (List.cons_ne_nil _ _)) := by
        rw [he, ← List.cons_append, ← List.append_assoc,
          List.getLast?_append_of_ne_nil _ (List.cons_ne_nil _ _),
          List.getLast?_eq_some_getLast (List.cons_ne_nil _ _)]
      have hsp : isSpace ((y :: v).getLast (List.cons_ne_nil _ _)) = true := by
        rcases List.mem_cons.mp (List.getLast_mem (List.cons_ne_nil y v)) with hy'' | hm
        · rw [hy'']
          exact hy'
        · exact hblank _ hm
      rw [hentry.last _ hlast] at hsp
      exact absurd hsp Bool.false_ne_true
    obtain ⟨p, ps, hp⟩ := List.exists_cons_of_ne_nil hu
    obtain ⟨q, qs, hq⟩ := List.exists_cons_of_ne_nil hv
    rw [hp, hq] at hf
    have hlen := congrArg List.length hf
    simp only [List.length_append, List.length_cons, List.length_nil] at hlen
    obtain rfl : ps = [] := List.eq_nil_of_length_eq_zero (by omega)
    simp only [List.cons_append, List.nil_append, List.cons.injEq] at hf
    exact hf.2.1.symm
  · rintro rfl
    exact ⟨a, ' ', ' ', d, by simp [join_cons_cons], by decide, by decide⟩

/-- **`forget_node` removes only its node**, whatever the name or address: its dots are escaped, and a
node's name is the only word of its line with a blank on both sides. -/
theorem callOk_forgetNode (h : Good st) {n : Text} (hn : IsField isSpace n)
    (hplain : ∀ c ∈ n, Plain c ∨ c = '.') : CallOk st.1 (.forgetNode n) := by
  obtain ⟨es, ht, _⟩ := h.nodes
  rw [CallOk, sedSelects, nodePattern, parseBre_spaced hplain, ht.lines_eq]
  refine List.all_eq_true.mpr fun l hl => ?_
  obtain ⟨e, he, rfl⟩ := List.mem_map.mp hl
  have hf := ht.isField e he
  simp only [nodeRow, List.mem_cons, List.not_mem_nil, or_false, forall_eq_or_imp, forall_eq] at hf
  have hmid := spaced_iff_middle hf.1 hf.2.1 hf.2.2 hn
  rw [ht.fields_line he, beq_iff_eq, Bool.eq_iff_iff, search_spaced_iff]
  simpa [nodeRow] using hmid

/-- The expression of a site with no special character selects the lines of that site. -/
theorem sedSelects_sitePattern {ε : Type} {row : ε → List Text} {file : Text} {es : List ε}
    (ht : IsTable row file es) (hlen : ∀ e, 2 ≤ (row e).length) {s : Text} (hs : IsField isSpace s)
    (hplain : ∀ c ∈ s, Plain c) :
    sedSelects (sitePattern s) file (fun fs => fs.head? == some s) = true := by
  have hpat : ∀ c ∈ s ++ [' '], Plain c := fun c hc => by
    rcases List.mem_append.mp hc with hc | hc
    · exact hplain c hc
    · rw [List.mem_singleton.mp hc]
      decide
  rw [sedSelects, sitePattern, parseBre_plain hpat, ht.lines_eq]
  refine List.all_eq_true.mpr fun l hl => ?_
  obtain ⟨e, he, rfl⟩ := List.mem_map.mp hl
  have hlen' := hlen e
  have hf := ht.isField e he
  rw [ht.fields_line he, beq_iff_eq, Bool.eq_iff_iff, search_plain_iff]
  rcases hrow : row e with _ | ⟨a, _ | ⟨b, rest⟩⟩
  · rw [hrow] at hlen'
    exact absurd hlen' (by simp)
  · rw [hrow] at hlen'
    exact absurd hlen' (by simp)
  · rw [hrow] at hf
    have ha := hf a List.mem_cons_self
    rw [join_cons_cons, List.head?_cons, beq_iff_eq, Option.some.injEq]
    constructor
    · rintro ⟨v, hv⟩
      have hl : fields (s ++ ' ' :: v) = s :: fields v := fieldsBy_append_sep hs isSpace_space v
      have hr : fields (a ++ ' ' :: join (b :: rest)) = a :: fields (join (b :: rest)) :=
        fieldsBy_append_sep ha isSpace_space _
      rw [← hv, List.append_assoc, List.singleton_append, hl] at hr
      exact (List.cons.inj hr).1.symm
    · rintro rfl
      exact ⟨join (b :: rest), by simp⟩

/-- A site name with no special character is retired exactly. -/
theorem callOk_retireSite (h : Good st) {s : Text} (hs : IsField isSpace s)
    (hplain : ∀ c ∈ s, Plain c) (hreg : siteCidr st.1 s ≠ []) : CallOk st.1 (.retireSite s) := by
  refine Or.inr ⟨hreg, fun f => ?_⟩
  obtain ⟨es₁, ht₁, _⟩ := h.sites
  obtain ⟨es₂, ht₂, _⟩ := h.allocations
  obtain ⟨es₃, ht₃, _⟩ := h.nodes
  obtain ⟨es₄, ht₄, _⟩ := h.dns
  cases f with
  | sites => exact sedSelects_sitePattern ht₁ (fun _ => by simp [pairRow]) hs hplain
  | allocations => exact sedSelects_sitePattern ht₂ (fun _ => by simp [pairRow]) hs hplain
  | nodes => exact sedSelects_sitePattern ht₃ (fun _ => by simp [nodeRow]) hs hplain
  | dns => exact sedSelects_sitePattern ht₄ (fun _ => by simp [dnsRow]) hs hplain

end LabInABox.Overlay
