import LabInABox.Dns.Header
import LabInABox.Dns.Prune

/-!
# The DNS service

Model of the record management of `DNSService` (`libs/services.py`): `ensure_zone`, `add_to_dns`,
`del_from_dns`, `add_service_dns` and `add_dns_to_named_rr`, over the zone files of this host and of
the masters that answer.

* `DnsService` is what the operations read and write: the zone files, and the zones each server
  declares in its `named.conf`. The hosts file and the restarts of `named` are left out: no zone
  file depends on them.
* The commands on a master are modelled by what they do to a file: `sedDrop` and `sedFilter`
  (`sed '/../d' -i`), `guardAdd` (`grep -qF .. || echo .. >>`), `appendLine` (`echo -e .. >>`). A
  `sed` on a file that is not there does nothing.
* The `sed -E` script of `replace` is an expression the repository does not read itself, as in
  `Engines`.

Results:
* `foldl_masters_text`: a run over the masters makes the same edit on the files of each.
* `rows_ensureZones`: a zone that is created keeps the rows a file had.
* `rows_syncZone`: the synchronisation that follows adds rows of the other masters only.
-/

namespace LabInABox.Dns

open Text

namespace Zones

/-- The file system after an edit of a file, if there is one. -/
def edit (z : Zones) (k : ZoneKey) (f : Text → Text) : Zones :=
  match z k with
  | none => z
  | some t => z.put k (f t)

end Zones

/-- The zone files, and the zones each server declares. -/
structure DnsService where
  zones : Zones
  declared : Server → Text → Bool

/-- `cfg` of a node: its fields that are texts. -/
abbrev NodeConfig := Text → Option Text

namespace DnsService

/-! ## Zones that are created -/

/-- The zones `ensure_zone` wants: the name, the file and the header of each. -/
def wanted (mydomain mynetReverse : Text) : List (Text × Text × Header) :=
  (mydomain, forwardFile mydomain, .forward mydomain 86400) ::
    if mynetReverse = [] then []
    else [(reverseZone mynetReverse, reverseFile mynetReverse, .reverse mydomain mynetReverse 86400)]

/-- `_create_local_zone` and `_create_remote_zone`: the header, unless the file holds something, and
the declaration. -/
def createZone (d : DnsService) (server : Server) (zone fileName : Text) (header : List Text) :
    DnsService where
  zones :=
    match server with
    | none =>
      if strip (d.zones.text (none, fileName)) = [] then
        d.zones.put (none, fileName) (['\n'].intercalate header ++ ['\n'])
      else d.zones
    | some name =>
      if d.zones.text (some name, fileName) = [] then
        d.zones.put (some name, fileName) (unlines header)
      else d.zones
  declared := fun s z => d.declared s z || (s == server && z == zone)

/-- `ensure_zone(server, mydomain, mynet_reverse)`: whether a zone had to be created. -/
def ensureZone (d : DnsService) (server : Server) (mydomain mynetReverse : Text) : Bool × DnsService :=
  (wanted mydomain mynetReverse).foldl (fun st w =>
    if st.2.declared server w.1 then st
    else (true, st.2.createZone server w.1 w.2.1 w.2.2.lines)) (false, d)

/-- `resync = self.ensure_zone(..) or resync`, for this host and the masters in turn. -/
def ensureZones (d : DnsService) (servers : List Server) (mydomain mynetReverse : Text) :
    Bool × DnsService :=
  servers.foldl (fun st server =>
    let r := st.2.ensureZone server mydomain mynetReverse
    (r.1 || st.1, r.2)) (false, d)

/-- The end of an operation: `sync_zone` when a zone had to be created. -/
def finish (d : DnsService) (resync : Bool) (loads : Server → Text → Option Text)
    (reachable : Text → Bool) (mydomain mynetReverse : Text) (remoteDnsServers : List Text)
    (z : Zones) : DnsService :=
  { d with zones :=
      if resync then (syncZone z loads reachable mydomain mynetReverse remoteDnsServers).2 else z }

/-! ## A node -/

/-- The `sed -Ei` script of `_remote_dns_remove_other_a`. -/
def otherAScript (short keepIp : Text) : Text :=
  let name := (pattern short).take ((pattern short).length - "[[:space:]]*$".toList.length)
  "\\|".toList ++ name ++ "[[:space:]]+IN[[:space:]]+A[[:space:]]+|\x7b\\|[[:space:]]".toList ++
    escapeDots keepIp ++ "[[:space:]]*$|!d\x7d".toList

/-- `l.split()[:1] == [last_octet]`. -/
def isOctetLine (lastOctet l : Text) : Bool := (fields l).take 1 == [lastOctet]

/-- `_remote_dns_remove_ptr_for_octet`: `sed -i '/^octet[[:space:]]/d'`. -/
def dropOctet (lastOctet text : Text) : Text := sedDrop ('^' :: (lastOctet ++ spaceClass)) text

/-- The writes of `add_to_dns` on one master. -/
def addRemote (e : Engines) (vmName myip mydomain mynetReverse : Text) (replace : Bool) (z : Zones)
    (server : Text) : Zones :=
  let lan := forwardFile mydomain
  let rev := reverseFile mynetReverse
  let z := if mynetReverse = [] then z else z.edit (some server, rev) (dropOctet (lastOctet myip))
  let z := if replace then z.edit (some server, lan) (e.sed (otherAScript (shortName vmName) myip))
    else z
  let z := remoteDnsAdd z server lan (aRecord (shortName vmName) myip)
  if mynetReverse = [] then z else remoteDnsAdd z server rev (ptrRecord (lastOctet myip) vmName)

/-- The writes of `add_to_dns` on this host. -/
def addLocal (vmName myip mydomain mynetReverse : Text) (replace : Bool) (z : Zones) : Zones :=
  let lan := (none, forwardFile mydomain)
  let rev := (none, reverseFile mynetReverse)
  let z := if mynetReverse = [] then z else z.edit rev (dropMatched (isOctetLine (lastOctet myip)))
  let z := if replace then z.edit lan (dnsRemoveOtherA (shortName vmName) myip) else z
  let z := z.put lan (dnsAddLine (aRecord (shortName vmName) myip) (z.text lan))
  if mynetReverse = [] then z
  else z.put rev (dnsAddLine (ptrRecord (lastOctet myip) vmName) (z.text rev))

/-- `add_to_dns(vm_name, myip, mydomain, mynet_reverse, remote_dns_servers, replace)`. -/
def addToDns (e : Engines) (loads : Server → Text → Option Text) (reachable : Text → Bool)
    (vmName myip mydomain mynetReverse : Text) (remoteDnsServers : List Text) (replace : Bool)
    (d : DnsService) : DnsService :=
  let r := d.ensureZones (servers reachable remoteDnsServers) mydomain mynetReverse
  let z := (masters reachable remoteDnsServers).foldl
    (addRemote e vmName myip mydomain mynetReverse replace) r.2.zones
  r.2.finish r.1 loads reachable mydomain mynetReverse remoteDnsServers
    (addLocal vmName myip mydomain mynetReverse replace z)

/-- `\t` in a `sed` script is a tab. -/
def gnuTabs : Text → Text
  | [] => []
  | '\\' :: 't' :: cs => '\t' :: gnuTabs cs
  | '\\' :: c :: cs => '\\' :: c :: gnuTabs cs
  | c :: cs => c :: gnuTabs cs

/-- The pattern of the service records of an address: `\tIN A  ip$`. -/
def servicePattern (myip : Text) : Text :=
  gnuTabs ('\\' :: 't' :: ("IN A ".toList ++ ' ' :: (escapeDots myip ++ ['$'])))

/-- The removals of `del_from_dns` on one master. -/
def delRemote (vmName myip mydomain mynetReverse : Text) (z : Zones) (server : Text) : Zones :=
  let lan := (some server, forwardFile mydomain)
  let rev := (some server, reverseFile mynetReverse)
  let z := if mynetReverse = [] then z
    else z.edit rev (sedDrop (ptrRecord (lastOctet myip) vmName))
  let z := z.edit lan (sedDrop (aRecord (shortName vmName) myip))
  z.edit lan (sedDrop (servicePattern myip))

/-- `l.endswith("\tIN A  {}".format(ip))`. -/
def isServiceLine (ip l : Text) : Bool := (serviceRecord [] ip).isSuffixOf l

/-- The removals of `del_from_dns` on this host. -/
def delLocal (vmName myip mydomain mynetReverse : Text) (z : Zones) : Zones :=
  let lan := (none, forwardFile mydomain)
  let rev := (none, reverseFile mynetReverse)
  let z := if mynetReverse = [] then z
    else z.edit rev (dropMatched (· == ptrRecord (lastOctet myip) vmName))
  let z := z.edit lan (dropMatched (· == aRecord (shortName vmName) myip))
  if myip = [] then z else z.edit lan (dropMatched (isServiceLine myip))

/-- `del_from_dns(vm_name, myip, mydomain, mynet_reverse, remote_dns_servers)`. -/
def delFromDns (reachable : Text → Bool) (vmName myip mydomain mynetReverse : Text)
    (remoteDnsServers : List Text) (d : DnsService) : DnsService :=
  let z := (masters reachable remoteDnsServers).foldl
    (delRemote vmName myip mydomain mynetReverse) d.zones
  { d with zones := delLocal vmName myip mydomain mynetReverse z }

/-! ## A service -/

/-- `clu_type.upper()`, for ASCII. -/
def upper (t : Text) : Text := t.map Char.toUpper

/-- The nodes of a cluster that have an address, and pass a test. -/
def addressed (nodes : List (Text × NodeConfig)) (cluName : Text) (p : NodeConfig → Bool) :
    List (Text × Text) :=
  nodes.filterMap fun n =>
    if p n.2 ∧ n.2 "kcluster".toList = some cluName then (n.2 "myip".toList).map fun ip => (n.1, ip)
    else none

/-- The nodes `add_service_dns` points an entry at: the agents of the cluster, or all its nodes. -/
def recordTargets (nodes : List (Text × NodeConfig)) (cluName cluType : Text) : List (Text × Text) :=
  let agents := addressed nodes cluName fun cfg =>
    cfg ("INSTALL_".toList ++ upper cluType ++ "_TYPE".toList) == some "agent".toList
  if agents = [] then addressed nodes cluName fun _ => true else agents

/-- The write of one record of a service on one master. -/
def serviceRemote (dnsEntry mydomain ip : Text) (z : Zones) (server : Text) : Zones :=
  let lan := (some server, forwardFile mydomain)
  let z := z.edit lan (sedDrop (serviceRecord dnsEntry ip))
  z.put lan (appendLine (z.text lan) (serviceRecord dnsEntry ip))

/-- The write of one record of a service on this host. -/
def serviceLocal (dnsEntry mydomain ip : Text) (z : Zones) : Zones :=
  let lan := (none, forwardFile mydomain)
  dnsAppendLine (z.edit lan (dropMatched (· == serviceRecord dnsEntry ip))) (forwardFile mydomain)
    (serviceRecord dnsEntry ip)

/-- The writes for one target. -/
def serviceTarget (masters : List Text) (dnsEntry mydomain : Text) (z : Zones) (ip : Text) : Zones :=
  serviceLocal dnsEntry mydomain ip (masters.foldl (serviceRemote dnsEntry mydomain ip) z)

/-- `add_service_dns(definition, clu_name, clu_type, dns_entry, mydomain, remote_dns_servers)`. -/
def addServiceDns (loads : Server → Text → Option Text) (reachable : Text → Bool)
    (nodes : List (Text × NodeConfig)) (cluName cluType dnsEntry mydomain : Text)
    (remoteDnsServers : List Text) (d : DnsService) : DnsService :=
  let targets := recordTargets nodes cluName cluType
  if targets = [] then d
  else
    let r := d.ensureZones (servers reachable remoteDnsServers) mydomain []
    r.2.finish r.1 loads reachable mydomain [] remoteDnsServers
      ((targets.map Prod.snd).foldl
        (serviceTarget (masters reachable remoteDnsServers) dnsEntry mydomain) r.2.zones)

/-- `add_dns_to_named_rr(definition, dns_entry, node_name, mydomain, remote_dns_servers)`. -/
def addDnsToNamedRr (loads : Server → Text → Option Text) (reachable : Text → Bool)
    (nodes : List (Text × NodeConfig)) (dnsEntry nodeName mydomain : Text)
    (remoteDnsServers : List Text) (d : DnsService) : DnsService :=
  let myip := ((nodes.lookup nodeName).bind fun cfg => cfg "myip".toList).getD []
  let record := serviceRecord dnsEntry myip
  let lan := forwardFile mydomain
  let r := d.ensureZones (servers reachable remoteDnsServers) mydomain []
  if record ∈ splitlines (r.2.zones.text (none, lan)) ∧ r.1 = false then r.2
  else
    let z := (masters reachable remoteDnsServers).foldl
      (fun z server => remoteDnsAdd z server lan record) r.2.zones
    r.2.finish r.1 loads reachable mydomain [] remoteDnsServers
      (z.put (none, lan) (dnsAddLine record (z.text (none, lan))))

/-! ## One edit, one file -/

theorem edit_text {z : Zones} {k : ZoneKey} {f : Text → Text} (hf : f [] = []) (k' : ZoneKey) :
    (z.edit k f).text k' = if k' = k then f (z.text k') else z.text k' := by
  unfold Zones.edit
  by_cases hk : k' = k
  · subst hk
    rw [if_pos rfl]
    cases hz : z k' with
    | none =>
      have ht : z.text k' = [] := by rw [Zones.text, hz]; rfl
      rw [ht, hf]
    | some t =>
      have ht : z.text k' = t := by rw [Zones.text, hz]; rfl
      rw [ht, Zones.text_put_self]
  · rw [if_neg hk]
    cases z k with
    | none => rfl
    | some t => exact Zones.text_put_of_ne z _ hk

theorem edit_text_of_ne {z : Zones} {k k' : ZoneKey} (f : Text → Text) (h : k' ≠ k) :
    (z.edit k f).text k' = z.text k' := by
  unfold Zones.edit
  cases z k with
  | none => rfl
  | some t => exact Zones.text_put_of_ne z _ h

/-- The lines a rewrite of this host leaves of a file, but for an empty one. -/
theorem exists_splitlines_edit_dropMatched {z : Zones} {k : ZoneKey} {matcher : Text → Bool}
    {q : Text → Prop} (hq : ¬ q []) :
    (∃ l ∈ splitlines ((z.edit k (dropMatched matcher)).text k), q l) ↔
      ∃ l ∈ splitlines (z.text k), matcher l = false ∧ q l := by
  unfold Zones.edit
  cases hz : z k with
  | none =>
    have ht : z.text k = [] := by rw [Zones.text, hz]; rfl
    rw [ht]
    constructor
    · rintro ⟨_, h, _⟩
      exact absurd h List.not_mem_nil
    · rintro ⟨_, h, _⟩
      exact absurd h List.not_mem_nil
  | some t =>
    have ht : z.text k = t := by rw [Zones.text, hz]; rfl
    rw [ht, Zones.text_put_self, exists_splitlines_dropMatched hq]

/-- What a rewrite of this host leaves of a file. -/
theorem mem_rows_edit_dropMatched {z : Zones} {k : ZoneKey} {matcher : Text → Bool}
    {ρ : List Text} : ρ ∈ rows ((z.edit k (dropMatched matcher)).text k) ↔
      ∃ l ∈ splitlines (z.text k), matcher l = false ∧ ρ ≠ [] ∧ rowOf l = ρ := by
  have hq : ¬ (ρ ≠ [] ∧ rowOf [] = ρ) := fun h => h.1 (h.2.symm.trans rowOf_nil)
  rw [mem_rows]
  exact exists_splitlines_edit_dropMatched hq

theorem remoteDnsAdd_text (z : Zones) (server fileName r : Text) (k : ZoneKey) :
    (remoteDnsAdd z server fileName r).text k =
      if k = (some server, fileName) then guardAdd r (z.text k) else z.text k := by
  unfold remoteDnsAdd guardAdd
  by_cases hk : k = (some server, fileName)
  · subst hk
    rw [if_pos rfl]
    split
    · rfl
    · exact Zones.text_put_self _ _ _
  · rw [if_neg hk]
    split
    · rfl
    · exact Zones.text_put_of_ne z _ hk

/-- **A run over the masters** makes one edit on the files of each, when the edit made twice is the
edit made once. -/
theorem foldl_masters_text {step : Zones → Text → Zones} {upd : Text → Text → Text}
    {I : Text → Prop}
    (hstep : ∀ z m k, (step z m).text k = if k.1 = some m then upd k.2 (z.text k) else z.text k)
    (hinv : ∀ f t, I t → I (upd f t)) (hidem : ∀ f t, I t → upd f (upd f t) = upd f t) :
    ∀ (ms : List Text) (z : Zones) (k : ZoneKey), I (z.text k) →
      (ms.foldl step z).text k = if k.1 ∈ ms.map some then upd k.2 (z.text k) else z.text k
  | [], z, k, _ => by simp
  | m :: ms, z, k, hI => by
    have hI' : I ((step z m).text k) := by
      rw [hstep]
      split
      · exact hinv _ _ hI
      · exact hI
    rw [List.foldl_cons, foldl_masters_text hstep hinv hidem ms _ k hI', hstep]
    by_cases hk : k.1 = some m
    · have hmem : k.1 ∈ (m :: ms).map some := hk ▸ List.mem_map_of_mem List.mem_cons_self
      rw [if_pos hk, if_pos hmem, hidem _ _ hI, ite_self]
    · have hmem : k.1 ∈ (m :: ms).map some ↔ k.1 ∈ ms.map some := by
        rw [List.map_cons, List.mem_cons, or_iff_right hk]
      rw [if_neg hk]
      simp only [hmem]

/-! ## Zones that are created keep their rows -/

variable {d : DnsService} {server : Server} {zone fileName mydomain mynetReverse : Text}

theorem rows_of_strip_eq_nil {t : Text} (h : strip t = []) : rows t = [] := by
  have hb : Blank t := strip_eq_nil_iff.mp h
  refine List.eq_nil_iff_forall_not_mem.mpr fun ρ hρ => ?_
  obtain ⟨l, hl, hne, rfl⟩ := mem_rows.mp hρ
  exact hne (rowOf_blank fun c hc => hb c (mem_of_mem_splitlines hl hc))

theorem rows_createZone (header : List Text) (k : ZoneKey) {ρ : List Text}
    (h : ρ ∈ rows (d.zones.text k)) :
    ρ ∈ rows ((d.createZone server zone fileName header).zones.text k) := by
  have hput : ∀ {z : Zones} {k' : ZoneKey} {t : Text}, rows (z.text k') = [] →
      ρ ∈ rows (z.text k) → ρ ∈ rows ((z.put k' t).text k) := by
    intro z k' t hnil h
    by_cases hk : k = k'
    · rw [hk, hnil] at h
      exact absurd h List.not_mem_nil
    · rwa [Zones.text_put_of_ne z t hk]
  unfold createZone
  cases server with
  | none =>
    dsimp only
    split
    · rename_i hs
      exact hput (rows_of_strip_eq_nil hs) h
    · exact h
  | some name =>
    dsimp only
    split
    · rename_i hs
      exact hput (by rw [hs]; rfl) h
    · exact h

theorem rows_ensureZone (k : ZoneKey) {ρ : List Text} (h : ρ ∈ rows (d.zones.text k)) :
    ρ ∈ rows ((d.ensureZone server mydomain mynetReverse).2.zones.text k) := by
  suffices hrun : ∀ (ws : List (Text × Text × Header)) (st : Bool × DnsService),
      ρ ∈ rows (st.2.zones.text k) → ρ ∈ rows ((ws.foldl (fun st w =>
        if st.2.declared server w.1 then st
        else (true, st.2.createZone server w.1 w.2.1 w.2.2.lines)) st).2.zones.text k) from
    hrun _ _ h
  intro ws
  induction ws with
  | nil => exact fun st h => h
  | cons w ws ih =>
    intro st h
    rw [List.foldl_cons]
    refine ih _ ?_
    split
    · exact h
    · exact rows_createZone _ k h

/-- **A zone that is created keeps the rows a file had.** -/
theorem rows_ensureZones (ss : List Server) (k : ZoneKey) {ρ : List Text}
    (h : ρ ∈ rows (d.zones.text k)) :
    ρ ∈ rows ((d.ensureZones ss mydomain mynetReverse).2.zones.text k) := by
  suffices hrun : ∀ (ss : List Server) (st : Bool × DnsService),
      ρ ∈ rows (st.2.zones.text k) → ρ ∈ rows ((ss.foldl (fun st server =>
        let r := st.2.ensureZone server mydomain mynetReverse
        (r.1 || st.1, r.2)) st).2.zones.text k) from
    hrun _ _ h
  intro ss
  induction ss with
  | nil => exact fun st h => h
  | cons s ss ih =>
    intro st h
    rw [List.foldl_cons]
    exact ih _ (rows_ensureZone k h)

/-- When no zone had to be created, nothing changed. -/
theorem ensureZones_of_false {ss : List Server}
    (h : (d.ensureZones ss mydomain mynetReverse).1 = false) :
    (d.ensureZones ss mydomain mynetReverse).2 = d := by
  have hzone : ∀ (server : Server) (ws : List (Text × Text × Header)) (st : Bool × DnsService),
      (ws.foldl (fun st w => if st.2.declared server w.1 then st
        else (true, st.2.createZone server w.1 w.2.1 w.2.2.lines)) st).1 = false →
      st.1 = false ∧ (ws.foldl (fun st w => if st.2.declared server w.1 then st
        else (true, st.2.createZone server w.1 w.2.1 w.2.2.lines)) st).2 = st.2 := by
    intro server ws
    induction ws with
    | nil => exact fun st h => ⟨h, rfl⟩
    | cons w ws ih =>
      intro st h
      rw [List.foldl_cons] at h ⊢
      obtain ⟨h₁, h₂⟩ := ih _ h
      split at h₁
      · rename_i hdecl
        rw [if_pos hdecl] at h₂ ⊢
        exact ⟨h₁, h₂⟩
      · exact absurd h₁ (by simp)
  have hrun : ∀ (ss : List Server) (st : Bool × DnsService),
      (ss.foldl (fun st server =>
        let r := st.2.ensureZone server mydomain mynetReverse
        (r.1 || st.1, r.2)) st).1 = false →
      st.1 = false ∧ (ss.foldl (fun st server =>
        let r := st.2.ensureZone server mydomain mynetReverse
        (r.1 || st.1, r.2)) st).2 = st.2 := by
    intro ss
    induction ss with
    | nil => exact fun st h => ⟨h, rfl⟩
    | cons s ss ih =>
      intro st h
      rw [List.foldl_cons] at h ⊢
      obtain ⟨h₁, h₂⟩ := ih _ h
      obtain ⟨hcreated, hst⟩ := Bool.or_eq_false_iff.mp h₁
      exact ⟨hst, h₂.trans (hzone s _ (false, st.2) hcreated).2⟩
  exact (hrun ss (false, d) h).2

theorem declared_createZone (header : List Text) {s : Server} {w : Text}
    (h : d.declared s w = true) : (d.createZone server zone fileName header).declared s w = true := by
  change (d.declared s w || _) = true
  rw [h]
  rfl

/-- A zone that is declared stays so, and the zones of a server are declared afterwards. -/
theorem declared_ensureZone {s : Server} {w : Text} (h : d.declared s w = true ∨
    (s = server ∧ w ∈ (wanted mydomain mynetReverse).map Prod.fst)) :
    (d.ensureZone server mydomain mynetReverse).2.declared s w = true := by
  suffices hrun : ∀ (ws : List (Text × Text × Header)) (st : Bool × DnsService),
      (st.2.declared s w = true ∨ (s = server ∧ w ∈ ws.map Prod.fst)) →
      (ws.foldl (fun st w => if st.2.declared server w.1 then st
        else (true, st.2.createZone server w.1 w.2.1 w.2.2.lines)) st).2.declared s w = true from
    hrun _ _ h
  intro ws
  induction ws with
  | nil => exact fun st h => h.resolve_right fun h => absurd h.2 List.not_mem_nil
  | cons x ws ih =>
    intro st h
    rw [List.foldl_cons]
    refine ih _ ?_
    rcases h with h | ⟨rfl, hw⟩
    · left
      split
      · exact h
      · exact declared_createZone _ h
    · rcases List.mem_cons.mp hw with rfl | hw
      · left
        split
        · rename_i hdecl
          exact hdecl
        · change (_ || (s == s && x.1 == x.1)) = true
          simp
      · exact Or.inr ⟨rfl, hw⟩

/-- **Afterwards every zone is declared.** -/
theorem declared_ensureZones {ss : List Server} {s : Server} (hs : s ∈ ss) {w : Text}
    (hw : w ∈ (wanted mydomain mynetReverse).map Prod.fst) :
    (d.ensureZones ss mydomain mynetReverse).2.declared s w = true := by
  suffices hrun : ∀ (ss : List Server) (st : Bool × DnsService),
      (st.2.declared s w = true ∨ s ∈ ss) → (ss.foldl (fun st server =>
        let r := st.2.ensureZone server mydomain mynetReverse
        (r.1 || st.1, r.2)) st).2.declared s w = true from
    hrun ss (false, d) (Or.inr hs)
  intro ss
  induction ss with
  | nil => exact fun st h => h.resolve_right List.not_mem_nil
  | cons x ss ih =>
    intro st h
    rw [List.foldl_cons]
    refine ih _ ?_
    rcases h with h | h
    · exact Or.inl (declared_ensureZone (Or.inl h))
    · rcases List.mem_cons.mp h with rfl | h
      · exact Or.inl (declared_ensureZone (Or.inr ⟨rfl, hw⟩))
      · exact Or.inr h

/-- Where every zone is declared, nothing is created. -/
theorem ensureZones_of_declared {ss : List Server}
    (h : ∀ s ∈ ss, ∀ w ∈ (wanted mydomain mynetReverse).map Prod.fst, d.declared s w = true) :
    d.ensureZones ss mydomain mynetReverse = (false, d) := by
  have hzone : ∀ s ∈ ss, d.ensureZone s mydomain mynetReverse = (false, d) := by
    intro s hs
    suffices hrun : ∀ ws : List (Text × Text × Header), (∀ w ∈ ws.map Prod.fst,
        d.declared s w = true) → ws.foldl (fun st w => if st.2.declared s w.1 then st
          else (true, st.2.createZone s w.1 w.2.1 w.2.2.lines)) (false, d) = (false, d) from
      hrun _ (h s hs)
    intro ws
    induction ws with
    | nil => exact fun _ => rfl
    | cons x ws ih =>
      intro hws
      obtain ⟨hx, htl⟩ := List.forall_mem_cons.mp hws
      rw [List.foldl_cons, if_pos hx, ih htl]
  unfold ensureZones
  induction ss with
  | nil => rfl
  | cons s ss ih =>
    obtain ⟨hs, htl⟩ := List.forall_mem_cons.mp h
    rw [List.foldl_cons, hzone s List.mem_cons_self]
    exact ih htl fun s hs => hzone s (List.mem_cons_of_mem _ hs)

/-! ## The synchronisation adds rows of the other masters -/

theorem rowOf_isRecord {r : Text} (hr : IsRecord r) : rowOf r = fields r := by
  rw [rowOf, bare_eq_self hr.no_comment]

theorem mem_rows_append_unlines {t : Text} (hb : Blank (openLine t)) {rs : List Text}
    (hrs : ∀ r ∈ rs, IsRecord r) {ρ : List Text} :
    ρ ∈ rows (t ++ unlines rs) ↔ ρ ∈ rows t ∨ ∃ r ∈ rs, ρ = fields r := by
  induction rs generalizing t with
  | nil => simp
  | cons r rs ih =>
    obtain ⟨hr, htl⟩ := List.forall_mem_cons.mp hrs
    have hsplit : t ++ unlines (r :: rs) = appendLine t r ++ unlines rs := by
      rw [unlines_cons, appendLine, List.append_assoc, List.append_assoc, List.singleton_append]
    have hb' : Blank (openLine (appendLine t r)) := by
      rw [openLine_appendLine]
      exact fun _ hc => absurd hc List.not_mem_nil
    have hne : rowOf r ≠ [] := by
      rw [rowOf_isRecord hr]
      exact hr.fields_ne_nil
    rw [hsplit, ih hb' htl, mem_rows_appendLine hb hr.isEntry.oneLine hne, rowOf_isRecord hr,
      List.exists_mem_cons_iff, or_assoc]

variable {z : Zones} {loads : Server → Text → Option Text} {reachable : Text → Bool}
  {remoteDnsServers : List Text}

/-- **The synchronisation appends records**, those another copy holds. -/
theorem exists_syncZone_text (loads : Server → Text → Option Text) {f : Text}
    (hf : f ∈ zoneFiles mydomain mynetReverse) {s : Server}
    (hs : s ∈ servers reachable remoteDnsServers) : ∃ rs : List Text,
    (syncZone z loads reachable mydomain mynetReverse remoteDnsServers).2.text (s, f) =
      z.text (s, f) ++ unlines rs ∧
    ∀ r ∈ rs, Lacks z (servers reachable remoteDnsServers) (s, f) r := by
  refine ⟨_, syncZone_text loads hf hs, fun r hr => ?_⟩
  exact mem_missing_iff.mp (mem_sorted.mp ((writtenRecords_sublist _ _ _).subset hr))

/-- **The synchronisation adds rows of the other masters only.** -/
theorem rows_syncZone {f : Text} (hf : f ∈ zoneFiles mydomain mynetReverse) {s : Server}
    (hs : s ∈ servers reachable remoteDnsServers) (hb : Blank (openLine (z.text (s, f))))
    {ρ : List Text} :
    (ρ ∈ rows (z.text (s, f)) → ρ ∈ rows ((syncZone z loads reachable mydomain mynetReverse
      remoteDnsServers).2.text (s, f))) ∧
    (ρ ∈ rows ((syncZone z loads reachable mydomain mynetReverse remoteDnsServers).2.text (s, f)) →
      ∃ s' ∈ servers reachable remoteDnsServers, ρ ∈ rows (z.text (s', f))) := by
  obtain ⟨rs, htext, hlacks⟩ := exists_syncZone_text (z := z) loads hf hs
  rw [htext, mem_rows_append_unlines hb fun r hr => isRecord_of_lacks (hlacks r hr)]
  refine ⟨Or.inl, ?_⟩
  rintro (h | ⟨r, hr, rfl⟩)
  · exact ⟨s, hs, h⟩
  · obtain ⟨⟨s', hs', hr'⟩, _⟩ := hlacks r hr
    obtain ⟨ρ, hρ, _, rfl⟩ := mem_records_iff.mp hr'
    obtain ⟨l, _, _, rfl⟩ := mem_rows.mp hρ
    rw [fields_join_rowOf]
    exact ⟨s', hs', hρ⟩

end DnsService

end LabInABox.Dns
