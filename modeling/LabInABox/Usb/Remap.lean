import LabInABox.Backend.Select
import LabInABox.Ipv4
import LabInABox.Objects

/-!
# A lab moved into a NAT network

Model of `remap_lab_definition_to_nat` (`libs/lab_usb.py`), by which a lab is delivered on a USB stick: it
gives every node an address of the stick's internal network. And of `_merged_env` (`scripts/setup_lab.py`)
with `load_vm_vars` (`libs/lab_creation.py`), by which the run of that lab reads a node's settings.

* A definition is its nodes, what is common to them, and what is not looked at. An entry of a node is null
  or a mapping, `common` may be missing or null too.
* `Memory` has the definition that is given beside the copy that is written to and returned.
* What `load_vm_vars` detects on the automation VM when a setting is not given is a parameter, and so are
  the defaults and the configuration.
* Where a run reads its settings from a node's own entry, the entry of `common` does not count.

Results:
* `remap_eq`: what is returned.
* `described_iff`: a setting, as the run of the remapped lab reads it.
* `selfConsistent_iff`: exactly when every node's settings describe the network.
* `override_kept`: a node with a gateway of its own.
-/

namespace LabInABox.Usb

open Text Schema Backend Ipv4

/-- A mapping of the definition. -/
abbrev Config := Obj Text Json

/-- A lab definition. -/
structure Definition where
  nodes : Obj Text (Option Config)
  common : Option (Option Config)
  rest : Obj Text Json

/-- What the function raises. -/
inductive Failure
  | valueError (message : Text)
  | typeError
  deriving DecidableEq

/-- The definition that is given, and the deep copy of it that is returned. -/
structure Memory where
  definition : Definition
  remapped : Definition

/-! ## The remap -/

def myip : Text := "myip".toList

def mygw : Text := "mygw".toList

def mymask : Text := "mymask".toList

def mydns : Text := "mydns".toList

def mynet_reverse : Text := "mynet_reverse".toList

/-- The settings of a node's network. -/
def settings : List Text := [mygw, mymask, mydns, mynet_reverse]

/-- `available`. -/
def available (net : Network) (startOffset : Nat) : List Text := (net.hosts.map render).drop (startOffset - 1)

/-- The error of a network that is too small. -/
def tooSmall (net : Network) (free startOffset count : Nat) : Text :=
  "NAT network ".toList ++ render net.base ++ '/' :: Nat.toDigits 10 net.prefixLen ++
    " has only ".toList ++ Nat.toDigits 10 free ++ " usable addresses from offset ".toList ++
    Nat.toDigits 10 startOffset ++ " onward — not enough for ".toList ++ Nat.toDigits 10 count ++
    " node(s)".toList

/-- A node with its new address; an entry that is null or empty is replaced by a mapping first. -/
def remapNode (entry : Option Config) (ip : Text) : Config := (entry.getD Obj.empty).set myip (.text ip)

/-- The loop over the nodes and the addresses. -/
def remapNodes (nodes : Obj Text (Option Config)) (addresses : List Text) : Obj Text (Option Config) :=
  nodes.assign ((nodes.entries.zip addresses).map fun p => (p.1.1, some (remapNode p.1.2 p.2)))

/-- The gateway: the first host. -/
def gateway (net : Network) : Text := (net.hosts.head?.map render).getD []

/-- The settings, written to `common`. -/
def remapCommon (common : Config) (net : Network) (nestedIp : Text) : Config :=
  ((common.set mygw (.text (gateway net))).set mymask (.text (Nat.toDigits 10 net.prefixLen))).set mydns
    (.text nestedIp)

/-- `remap_lab_definition_to_nat(definition, nat_cidr, nested_automation_ip, start_offset)`, for an offset
of one at least. -/
def remap (d : Definition) (natCidr nestedIp : Text) (startOffset : Nat) : Except Failure Memory :=
  if nestedIp = [] then
    .error (.valueError "remap_lab_definition_to_nat: nested_automation_ip is required".toList)
  else
    match ipNetwork false natCidr with
    | none => .error (.valueError (natCidr ++ " does not appear to be an IPv4 or IPv6 network".toList))
    | some net =>
      let free := available net startOffset
      if free.length < d.nodes.entries.length then
        .error (.valueError (tooSmall net free.length startOffset d.nodes.entries.length))
      else
        let nodes := remapNodes d.nodes free
        match d.common.getD (some Obj.empty) with
        | none => .error .typeError
        | some common => .ok ⟨d, ⟨nodes, some (some (remapCommon common net nestedIp)), d.rest⟩⟩

/-! ## What a run reads -/

/-- What `load_vm_vars` detects. -/
structure Detected where
  dns : Text
  gateway : Text
  netmask : Text

/-- `_reverse_ip(ip)`. -/
def reverseIp (ip : Text) : Text :=
  let parts := ip.splitOn '.'
  if parts.length = 4 then ['.'].intercalate parts.dropLast.reverse else []

/-- `vars.update(common)`, then the node's own entries. -/
def vars (common node : Config) (key : Text) : Option Json := (node.get key).or (common.get key)

/-- `load_vm_vars(definition, vm_name)[key]`, for the settings of the network. -/
def loadVmVars (detected : Detected) (common node : Config) (key : Text) : Option Json :=
  let value := vars common node key
  if truthy (get value) = true then value
  else if key = mydns then some (.text detected.dns)
  else if key = mygw then some (.text detected.gateway)
  else if key = mymask then some (.text detected.netmask)
  else if key = mynet_reverse then
    match vars common node myip with
    | some (.text (c :: ip)) => some (.text (reverseIp (c :: ip)))
    | _ => value
  else value

/-- `_merged_env(definition, config, defaults, vm_name)[key]`. -/
def mergedEnv (config defaults : Obj Text Json) (detected : Detected) (common node : Config) (key : Text) :
    Option Json :=
  ((loadVmVars detected common node key).or (config.get key)).or (defaults.get key)

/-! ## Self-consistency -/

/-- The value of a setting describes the network, for a node with the given address. A mask is the prefix
length or the netmask. -/
def Describes (net : Network) (nestedIp ip key : Text) (value : Option Json) : Prop :=
  if key = mygw then value = some (.text (gateway net))
  else if key = mymask then ∃ v, value = some v ∧ parseMask v.str = some net.prefixLen
  else if key = mydns then value = some (.text nestedIp)
  else value = some (.text (reverseIp ip))

/-- What a run reads beside the definition. -/
structure Site where
  config : Obj Text Json
  defaults : Obj Text Json
  detected : Detected

/-- A node of the remapped lab: its address is a host of the network and its own, its settings describe the
network, and its other fields are the old ones. -/
structure NodeConsistent (site : Site) (net : Network) (nestedIp : Text) (old new : Definition) (name : Text)
    (node common : Config) : Prop where
  host : ∃ a ∈ net.hosts, node.get myip = some (.text (render a))
  unique : ∀ name' node', name' ≠ name → new.nodes.get name' = some (some node') →
    node'.get myip ≠ node.get myip
  gateway : node.get myip ≠ common.get mygw
  nested : node.get myip ≠ some (.text nestedIp)
  described : ∀ ip, node.get myip = some (.text ip) → ∀ key ∈ settings,
    Describes net nestedIp ip key (mergedEnv site.config site.defaults site.detected common node key)
  frame : ∀ key, key ≠ myip → key ∉ settings →
    node.get key = (((old.nodes.get name).getD none).getD Obj.empty).get key

/-- The remapped lab is self-consistent. -/
structure Consistent (site : Site) (net : Network) (nestedIp : Text) (old new : Definition) : Prop where
  keys : new.nodes.keys = old.nodes.keys
  rest : new.rest = old.rest
  common : ∃ common, new.common = some (some common) ∧
    (∀ key, key ∉ settings → common.get key = ((old.common.getD none).getD Obj.empty).get key) ∧
    ∀ name ∈ old.nodes.keys, ∃ node, new.nodes.get name = some (some node) ∧
      NodeConsistent site net nestedIp old new name node common

/-- **The remap is self-consistent**: it raises a `ValueError`, or returns such a lab and leaves the given
one as it was. -/
def SelfConsistent (site : Site) (d : Definition) (natCidr nestedIp : Text) (startOffset : Nat) : Prop :=
  (∃ message, remap d natCidr nestedIp startOffset = .error (.valueError message)) ∨
    ∃ m net, remap d natCidr nestedIp startOffset = .ok m ∧ m.definition = d ∧
      ipNetwork false natCidr = some net ∧ Consistent site net nestedIp d m.remapped

/-- What the caller passes: the nested automation VM's address is a host between the gateway and the
offset. -/
def NestedAddress (natCidr nestedIp : Text) (startOffset : Nat) : Prop :=
  ∀ net, ipNetwork false natCidr = some net →
    ∃ i a, 1 ≤ i ∧ i + 1 < startOffset ∧ net.hosts[i]? = some a ∧ nestedIp = render a

/-- A setting of the definition does not stand in the way: the node's own value, or for the reverse zone
the common one too, describes the network, or is none and what is detected does. -/
def Settled (site : Site) (net : Network) (nestedIp ip : Text) (common node : Config) (key : Text) : Prop :=
  if key = mynet_reverse then
    truthy (get (vars common node key)) = true → vars common node key = some (.text (reverseIp ip))
  else ∀ v, node.get key = some v →
    Describes net nestedIp ip key (loadVmVars site.detected Obj.empty node key)

variable {site : Site} {net : Network} {d : Definition} {natCidr nestedIp name ip key : Text}
  {startOffset i : Nat} {common : Config} {entry : Option Config}

/-! ## The hosts -/

theorem hosts_nodup (net : Network) : net.hosts.Nodup := by
  rw [Network.hosts]
  split
  · exact List.nodup_singleton _
  · split
    · simp
    · exact List.nodup_range'

/-- A host has one number. -/
theorem index_of_render {j a b : Nat} (ha : net.hosts[i]? = some a) (hb : net.hosts[j]? = some b)
    (h : render a = render b) : i = j := by
  have hlt : ∀ {k c : Nat}, net.hosts[k]? = some c → c < space := fun hc =>
    Network.lt_space_of_mem_hosts (List.mem_of_getElem? hc)
  obtain rfl := render_injective (hlt ha) (hlt hb) h
  obtain ⟨hi, hia⟩ := List.getElem?_eq_some_iff.mp ha
  obtain ⟨hj, hjb⟩ := List.getElem?_eq_some_iff.mp hb
  exact (List.Nodup.getElem_inj_iff (hosts_nodup net)).mp (hia.trans hjb.symm)

theorem available_getElem? (h : (available net startOffset)[i]? = some ip) :
    ∃ a, net.hosts[startOffset - 1 + i]? = some a ∧ ip = render a := by
  rw [available, List.getElem?_drop, List.getElem?_map] at h
  obtain ⟨a, ha, rfl⟩ := Option.map_eq_some_iff.mp h
  exact ⟨a, ha, rfl⟩

theorem gateway_eq {a : Nat} (h : net.hosts[0]? = some a) : gateway net = render a := by
  rw [gateway, List.head?_eq_getElem?, h]
  rfl

theorem exists_gateway {a : Nat} (h : net.hosts[i]? = some a) : ∃ b, net.hosts[0]? = some b := by
  obtain ⟨hi, -⟩ := List.getElem?_eq_some_iff.mp h
  exact ⟨_, List.getElem?_eq_getElem (by omega)⟩

theorem parseMask_toDigits (h : net.prefixLen ≤ 32) :
    parseMask (Nat.toDigits 10 net.prefixLen) = some net.prefixLen := by
  have hall : (Nat.toDigits 10 net.prefixLen).all Char.isDigit = true :=
    List.all_eq_true.mpr fun c hc => Nat.isDigit_of_mem_toDigits (by decide) (by decide) hc
  rw [parseMask, Nat.ofDigitChars_ten_toDigits, if_pos ⟨Nat.toDigits_ne_nil, hall, h⟩]

/-! ## The nodes -/

theorem keys_assign_of_mem (es : List (Text × Option Config)) :
    ∀ o : Obj Text (Option Config), (∀ e ∈ es, e.1 ∈ o.keys) → (o.assign es).keys = o.keys := by
  induction es with
  | nil => exact fun _ _ => rfl
  | cons e es ih =>
    intro o h
    have hkeys := Obj.keys_set_of_mem (h e List.mem_cons_self) e.2
    have hassign : o.assign (e :: es) = (o.set e.1 e.2).assign es := rfl
    rw [hassign, ih _ fun e' he' => hkeys ▸ h e' (List.mem_cons_of_mem _ he'), hkeys]

theorem mem_zip {es : List (Text × Option Config)} {ips : List Text} {e : Text × Option Config}
    (h : (e, ip) ∈ es.zip ips) : ∃ i : Nat, es[i]? = some e ∧ ips[i]? = some ip := by
  obtain ⟨i, hi⟩ := List.getElem?_of_mem h
  rw [List.getElem?_zip_eq_some] at hi
  exact ⟨i, hi⟩

theorem keys_remapNodes (nodes : Obj Text (Option Config)) (ips : List Text) :
    (remapNodes nodes ips).keys = nodes.keys := by
  refine keys_assign_of_mem _ _ fun e he => ?_
  obtain ⟨p, hp, rfl⟩ := List.mem_map.mp he
  obtain ⟨i, hi, -⟩ := mem_zip hp
  exact List.mem_map.mpr ⟨p.1, List.mem_of_getElem? hi, rfl⟩

/-- **A node and its address**: they have one number. -/
theorem get_remapNodes {nodes : Obj Text (Option Config)} {ips : List Text}
    (he : nodes.entries[i]? = some (name, entry)) (hip : ips[i]? = some ip) :
    (remapNodes nodes ips).get name = some (some (remapNode entry ip)) := by
  refine Obj.get_assign_of_forall (fun e hmem hname => ?_) ?_
  · obtain ⟨⟨⟨name', entry'⟩, ip'⟩, hp, rfl⟩ := List.mem_map.mp hmem
    obtain ⟨j, hj, hjp⟩ := mem_zip hp
    have hkey : ∀ {k : Nat} {e : Text × Option Config}, nodes.entries[k]? = some e →
        (nodes.entries.map Prod.fst)[k]? = some e.1 := fun hk => by
      rw [List.getElem?_map, hk, Option.map_some]
    obtain ⟨hi', hin⟩ := List.getElem?_eq_some_iff.mp (hkey he)
    obtain ⟨hj', hjn⟩ := List.getElem?_eq_some_iff.mp (hkey hj)
    have hij : i = j := (List.Nodup.getElem_inj_iff nodes.nodup).mp (by rw [hin, hjn]; exact hname.symm)
    subst hij
    rw [he] at hj
    rw [hip] at hjp
    obtain ⟨-, rfl⟩ := Prod.mk.inj (Option.some.inj hj)
    rw [Option.some.inj hjp]
  · have hz : ((name, entry), ip) ∈ nodes.entries.zip ips :=
      List.mem_of_getElem? (List.getElem?_zip_eq_some.mpr ⟨he, hip⟩)
    rw [List.map_map]
    exact List.mem_map_of_mem hz

theorem exists_entry {nodes : Obj Text (Option Config)} (h : name ∈ nodes.keys) :
    ∃ (i : Nat) (entry : Option Config), nodes.entries[i]? = some (name, entry) := by
  obtain ⟨⟨n, entry⟩, he, rfl⟩ := List.mem_map.mp h
  obtain ⟨i, hi⟩ := List.getElem?_of_mem he
  exact ⟨i, entry, hi⟩

@[simp] theorem get_remapNode_myip (entry : Option Config) (ip : Text) :
    (remapNode entry ip).get myip = some (.text ip) := by
  rw [remapNode, Obj.get_set, if_pos rfl]

theorem get_remapNode (h : key ≠ myip) (entry : Option Config) (ip : Text) :
    (remapNode entry ip).get key = (entry.getD Obj.empty).get key := by
  rw [remapNode, Obj.get_set, if_neg h]

/-! ## The settings -/

theorem settings_distinct : mygw ≠ mymask ∧ mygw ≠ mydns ∧ mygw ≠ mynet_reverse ∧ mymask ≠ mydns ∧
    mymask ≠ mynet_reverse ∧ mydns ≠ mynet_reverse ∧ ∀ k ∈ settings, k ≠ myip := by decide

theorem get_remapCommon (common : Config) (net : Network) (nestedIp key : Text) :
    (remapCommon common net nestedIp).get key =
      if key = mydns then some (.text nestedIp)
      else if key = mymask then some (.text (Nat.toDigits 10 net.prefixLen))
      else if key = mygw then some (.text (gateway net))
      else common.get key := by
  rw [remapCommon, Obj.get_set, Obj.get_set, Obj.get_set]

/-- A setting of the node itself is read without the common ones. -/
theorem loadVmVars_own {node common' : Config} {v : Json} (hkey : key ≠ mynet_reverse)
    (h : node.get key = some v) (detected : Detected) :
    loadVmVars detected common node key = loadVmVars detected common' node key := by
  simp only [loadVmVars, vars, h, Option.some_or, if_neg hkey]

theorem loadVmVars_congr {node node' : Config} (hkey : key ≠ mynet_reverse)
    (h : node.get key = node'.get key) (detected : Detected) :
    loadVmVars detected common node key = loadVmVars detected common node' key := by
  simp only [loadVmVars, vars, h, if_neg hkey]

/-- What is truthy is there. -/
theorem exists_of_truthy {value : Option Json} (h : truthy (get value) = true) : ∃ v, value = some v := by
  cases value with
  | none => exact absurd h (by decide)
  | some v => exact ⟨v, rfl⟩

theorem render_isField_ne_nil (a : Nat) : render a ≠ [] := (isField_render a).1

/-- A setting that the remap writes is the common one, for a node without its own. -/
theorem described_written (hgateway : gateway net ≠ []) (hnested : nestedIp ≠ [])
    (hkey : key ∈ [mygw, mymask, mydns]) {node : Config} (h : node.get key = none) (detected : Detected) :
    Describes net nestedIp ip key
      (loadVmVars detected (remapCommon common net nestedIp) node key) := by
  obtain ⟨h1, h2, -, h3, -⟩ := settings_distinct
  rw [loadVmVars, vars, h, Option.none_or, get_remapCommon]
  simp only [List.mem_cons, List.not_mem_nil, or_false] at hkey
  rcases hkey with rfl | rfl | rfl
  · have htruthy : truthy (get (some (.text (gateway net)))) = true := decide_eq_true hgateway
    rw [if_neg h2, if_neg h1, if_pos rfl, if_pos htruthy, Describes, if_pos rfl]
  · have htruthy : truthy (get (some (.text (Nat.toDigits 10 net.prefixLen)))) = true :=
      decide_eq_true Nat.toDigits_ne_nil
    rw [if_neg h3, if_pos rfl, if_pos htruthy, Describes, if_neg h1.symm, if_pos rfl]
    exact ⟨_, rfl, parseMask_toDigits net.prefixLen_le⟩
  · have htruthy : truthy (get (some (.text nestedIp))) = true := decide_eq_true hnested
    rw [if_pos rfl, if_pos htruthy, Describes, if_neg h2.symm, if_neg h3.symm, if_pos rfl]

/-- What a run reads of a setting, there is always. -/
theorem mergedEnv_eq (hkey : key ∈ settings) {node : Config} (hmyip : node.get myip = some (.text ip))
    (hip : ip ≠ []) :
    mergedEnv site.config site.defaults site.detected common node key =
      loadVmVars site.detected common node key := by
  obtain ⟨c, cs, rfl⟩ := List.exists_cons_of_ne_nil hip
  have hsome : ∃ v, loadVmVars site.detected common node key = some v := by
    by_cases htruthy : truthy (get (vars common node key)) = true
    · obtain ⟨v, hv⟩ := exists_of_truthy htruthy
      refine ⟨v, ?_⟩
      simp only [loadVmVars, if_pos htruthy]
      exact hv
    · simp only [loadVmVars, if_neg htruthy]
      by_cases h1 : key = mydns
      · exact ⟨_, if_pos h1⟩
      by_cases h2 : key = mygw
      · exact ⟨_, by rw [if_neg h1, if_pos h2]⟩
      by_cases h3 : key = mymask
      · exact ⟨_, by rw [if_neg h1, if_neg h2, if_pos h3]⟩
      have h4 : key = mynet_reverse := by
        simp only [settings, List.mem_cons, List.not_mem_nil, or_false] at hkey
        tauto
      refine ⟨.text (reverseIp (c :: cs)), ?_⟩
      rw [if_neg h1, if_neg h2, if_neg h3, if_pos h4, vars, hmyip, Option.some_or]
  obtain ⟨v, hv⟩ := hsome
  rw [mergedEnv, hv, Option.some_or, Option.some_or]

/-- **A setting of a remapped node describes the network** iff the definition does not stand in the way. -/
theorem described_iff (hgateway : gateway net ≠ []) (hnested : nestedIp ≠ []) (hip : ip ≠ [])
    (hkey : key ∈ settings) :
    Describes net nestedIp ip key (mergedEnv site.config site.defaults site.detected
      (remapCommon common net nestedIp) (remapNode entry ip) key) ↔
      Settled site net nestedIp ip common (entry.getD Obj.empty) key := by
  obtain ⟨h1, h2, h3, h4, h5, h6, hmyip⟩ := settings_distinct
  rw [mergedEnv_eq hkey (get_remapNode_myip entry ip) hip]
  have hown := get_remapNode (hmyip key hkey) entry ip
  by_cases hrev : key = mynet_reverse
  · subst hrev
    rw [Settled, if_pos rfl, Describes, if_neg h3.symm, if_neg h5.symm, if_neg h6.symm]
    have hvars : vars (remapCommon common net nestedIp) (remapNode entry ip) mynet_reverse =
        vars common (entry.getD Obj.empty) mynet_reverse := by
      rw [vars, vars, hown, get_remapCommon, if_neg h6.symm, if_neg h5.symm, if_neg h3.symm]
    by_cases htruthy : truthy (get (vars common (entry.getD Obj.empty) mynet_reverse)) = true
    · simp only [loadVmVars, hvars, if_pos htruthy]
      exact ⟨fun h _ => h, fun h => h htruthy⟩
    · obtain ⟨c, cs, rfl⟩ := List.exists_cons_of_ne_nil hip
      have haddress : vars (remapCommon common net nestedIp) (remapNode entry (c :: cs)) myip =
          some (.text (c :: cs)) := by
        rw [vars, get_remapNode_myip, Option.some_or]
      simp only [loadVmVars, hvars, if_neg htruthy, if_neg h6.symm, if_neg h3.symm, if_neg h5.symm, if_true,
        haddress]
      exact ⟨fun _ h => absurd h htruthy, fun _ => trivial⟩
  · have hwritten : key ∈ [mygw, mymask, mydns] := by
      simp only [settings, List.mem_cons, List.not_mem_nil, or_false] at hkey ⊢
      tauto
    rw [Settled, if_neg hrev]
    cases hget : (entry.getD Obj.empty).get key with
    | none =>
      refine ⟨fun _ v hv => absurd hv.symm (Option.some_ne_none v), fun _ => ?_⟩
      exact described_written hgateway hnested hwritten (hown.trans hget) site.detected
    | some v =>
      have hequal : loadVmVars site.detected (remapCommon common net nestedIp) (remapNode entry ip) key =
          loadVmVars site.detected Obj.empty (entry.getD Obj.empty) key := by
        rw [loadVmVars_own hrev (hown.trans hget) site.detected]
        exact loadVmVars_congr hrev hown site.detected
      rw [hequal]
      exact ⟨fun h _ _ => h, fun h => h v rfl⟩

/-! ## The remapped lab -/

/-- What is returned, where the network has room and `common` is no null. -/
theorem remap_eq (hnested : nestedIp ≠ []) (hnet : ipNetwork false natCidr = some net)
    (hroom : d.nodes.entries.length ≤ (available net startOffset).length)
    (hcommon : d.common.getD (some Obj.empty) = some common) :
    remap d natCidr nestedIp startOffset = .ok ⟨d, ⟨remapNodes d.nodes (available net startOffset),
      some (some (remapCommon common net nestedIp)), d.rest⟩⟩ := by
  have hfree : ¬ (available net startOffset).length < d.nodes.entries.length := by omega
  simp only [remap, if_neg hnested, hnet, if_neg hfree, hcommon]

/-- The node with a number, and its address. -/
structure Placed (d : Definition) (net : Network) (startOffset : Nat) (name : Text) (entry : Option Config)
    (ip : Text) : Prop where
  place : ∃ i : Nat, d.nodes.entries[i]? = some (name, entry) ∧ (available net startOffset)[i]? = some ip

theorem exists_placed (hroom : d.nodes.entries.length ≤ (available net startOffset).length)
    (h : name ∈ d.nodes.keys) : ∃ entry ip, Placed d net startOffset name entry ip := by
  obtain ⟨i, entry, hi⟩ := exists_entry h
  obtain ⟨hlt, -⟩ := List.getElem?_eq_some_iff.mp hi
  exact ⟨entry, _, i, hi, List.getElem?_eq_getElem (by omega)⟩

theorem Placed.mem (h : Placed d net startOffset name entry ip) : name ∈ d.nodes.keys := by
  obtain ⟨i, hi, -⟩ := h.place
  exact List.mem_map_of_mem (List.mem_of_getElem? hi)

theorem Placed.get (h : Placed d net startOffset name entry ip) : d.nodes.get name = some entry := by
  obtain ⟨i, hi, -⟩ := h.place
  exact Obj.mem_entries_iff.mp (List.mem_of_getElem? hi)

/-- Addresses of two nodes differ, and none is the gateway or the nested automation VM's. -/
theorem placed_apart {name' : Text} {entry' : Option Config} {ip' : Text}
    (h : Placed d net startOffset name entry ip) (h' : Placed d net startOffset name' entry' ip')
    (hne : name' ≠ name) : ip' ≠ ip := by
  obtain ⟨i, hi, hip⟩ := h.place
  obtain ⟨j, hj, hjp⟩ := h'.place
  obtain ⟨a, ha, rfl⟩ := available_getElem? hip
  obtain ⟨b, hb, rfl⟩ := available_getElem? hjp
  intro he
  have hij := index_of_render hb ha he
  have hij' : j = i := by omega
  subst hij'
  rw [hi] at hj
  exact hne (Prod.mk.inj (Option.some.inj hj)).1.symm

theorem Placed.ne_host (h : Placed d net startOffset name entry ip) {k a : Nat} (hk : k + 1 < startOffset)
    (ha : net.hosts[k]? = some a) : ip ≠ render a := by
  obtain ⟨i, -, hip⟩ := h.place
  obtain ⟨b, hb, rfl⟩ := available_getElem? hip
  intro he
  have hik := index_of_render hb ha he
  omega

/-- The condition on the definition: no node's settings, and no common reverse zone, stand in the way. -/
def Plain (site : Site) (d : Definition) (net : Network) (nestedIp : Text) (startOffset : Nat) : Prop :=
  ∃ common, d.common.getD (some Obj.empty) = some common ∧
    ∀ name entry ip, Placed d net startOffset name entry ip → ∀ key ∈ settings,
      Settled site net nestedIp ip common (entry.getD Obj.empty) key

/-- **Exactly when the remap is self-consistent**: the network is too small, which is reported, or no
setting of the definition stands in the way. -/
theorem selfConsistent_iff (hcaller : NestedAddress natCidr nestedIp startOffset) :
    SelfConsistent site d natCidr nestedIp startOffset ↔
      ∀ net, ipNetwork false natCidr = some net →
        (available net startOffset).length < d.nodes.entries.length ∨ Plain site d net nestedIp startOffset := by
  cases hnet : ipNetwork false natCidr with
  | none =>
    refine ⟨fun _ net h => absurd h.symm (Option.some_ne_none net), fun _ => ?_⟩
    by_cases hnested : nestedIp = []
    · exact Or.inl ⟨_, by rw [remap, if_pos hnested]⟩
    · exact Or.inl ⟨_, by simp only [remap, if_neg hnested, hnet]; rfl⟩
  | some net =>
    obtain ⟨k, a, hk1, hk, ha, rfl⟩ := hcaller net hnet
    have hnested : render a ≠ [] := render_isField_ne_nil a
    obtain ⟨g, hg⟩ := exists_gateway ha
    have hgateway : gateway net ≠ [] := by
      rw [gateway_eq hg]
      exact render_isField_ne_nil g
    have hone : ∀ P : Network → Prop, (∀ net', some net = some net' → P net') ↔ P net := fun P =>
      ⟨fun h => h net rfl, fun h net' he => Option.some.inj he ▸ h⟩
    rw [hone]
    by_cases hroom : (available net startOffset).length < d.nodes.entries.length
    · refine ⟨fun _ => Or.inl hroom, fun _ => ?_⟩
      exact Or.inl ⟨_, by simp only [remap, if_neg hnested, hnet, if_pos hroom]; rfl⟩
    rw [or_iff_right hroom]
    have hroom' : d.nodes.entries.length ≤ (available net startOffset).length := by omega
    cases hcommon : d.common.getD (some Obj.empty) with
    | none =>
      refine ⟨fun h => ?_, fun ⟨common, hc, _⟩ => absurd (hcommon.symm.trans hc).symm (Option.some_ne_none _)⟩
      have hremap : remap d natCidr (render a) startOffset = .error .typeError := by
        simp only [remap, if_neg hnested, hnet, if_neg hroom, hcommon]
      rcases h with ⟨message, hm⟩ | ⟨m, net', hm, -⟩
      · cases hremap.symm.trans hm
      · cases hremap.symm.trans hm
    | some common =>
      have hip : ∀ {name entry ip}, Placed d net startOffset name entry ip → ip ≠ [] := fun hp => by
        obtain ⟨i, -, hi⟩ := hp.place
        obtain ⟨b, -, rfl⟩ := available_getElem? hi
        exact render_isField_ne_nil b
      have hnode : ∀ {name entry ip}, Placed d net startOffset name entry ip →
          (remapNodes d.nodes (available net startOffset)).get name = some (some (remapNode entry ip)) :=
        fun hp => by
          obtain ⟨i, hi, hai⟩ := hp.place
          exact get_remapNodes hi hai
      have hremap := remap_eq hnested hnet hroom' hcommon
      constructor
      · rintro (⟨message, hm⟩ | ⟨m, net', hm, -, hnet', -, -, common', hc, -, hnodes⟩)
        · cases hremap.symm.trans hm
        obtain rfl := Except.ok.inj (hremap.symm.trans hm)
        obtain rfl := Option.some.inj (hnet.symm.trans hnet')
        obtain rfl := Option.some.inj (Option.some.inj hc)
        refine ⟨common, hcommon, fun name entry ip hp key hkey => ?_⟩
        obtain ⟨node, hget, hcons⟩ := hnodes name hp.mem
        obtain rfl := Option.some.inj (Option.some.inj ((hnode hp).symm.trans hget))
        exact (described_iff hgateway hnested (hip hp) hkey).mp
          (hcons.described ip (get_remapNode_myip entry ip) key hkey)
      · rintro ⟨common', hc, hsettled⟩
        obtain rfl := Option.some.inj (hcommon.symm.trans hc)
        refine Or.inr ⟨_, net, hremap, rfl, hnet, keys_remapNodes _ _, rfl, _, rfl, fun key hkey => ?_,
          fun name hname => ?_⟩
        · have hdefault : (d.common.getD none).getD Obj.empty = common := by
            cases hdc : d.common with
            | none =>
              rw [hdc] at hcommon
              exact Option.some.inj hcommon
            | some c =>
              rw [hdc] at hcommon
              rw [Option.getD_some] at hcommon ⊢
              rw [hcommon]
              rfl
          have hnot : key ≠ mydns ∧ key ≠ mymask ∧ key ≠ mygw := by
            refine ⟨?_, ?_, ?_⟩ <;> rintro rfl <;> exact hkey (by decide)
          rw [get_remapCommon, if_neg hnot.1, if_neg hnot.2.1, if_neg hnot.2.2, hdefault]
        · obtain ⟨entry, ip, hp⟩ := exists_placed hroom' hname
          refine ⟨remapNode entry ip, hnode hp, ?_⟩
          have hcommonGw : (remapCommon common net (render a)).get mygw = some (.text (render g)) := by
            obtain ⟨h1, h2, -⟩ := settings_distinct
            rw [get_remapCommon, if_neg h2, if_neg h1, if_pos rfl, gateway_eq hg]
          refine ⟨?_, fun name' node' hne hnode' => ?_, ?_, ?_, fun ip' hip' key hkey => ?_,
            fun key hkey _ => ?_⟩
          · obtain ⟨i, -, hi⟩ := hp.place
            obtain ⟨b, hb, rfl⟩ := available_getElem? hi
            exact ⟨b, List.mem_of_getElem? hb, get_remapNode_myip _ _⟩
          · have hmem' : name' ∈ d.nodes.keys := by
              rw [← keys_remapNodes d.nodes (available net startOffset)]
              exact Obj.mem_keys_iff.mpr ⟨_, hnode'⟩
            obtain ⟨entry', ip', hp'⟩ := exists_placed hroom' hmem'
            obtain rfl := Option.some.inj (Option.some.inj ((hnode hp').symm.trans hnode'))
            rw [get_remapNode_myip, get_remapNode_myip]
            intro he
            exact placed_apart hp hp' hne (Json.text.inj (Option.some.inj he))
          · rw [get_remapNode_myip, hcommonGw]
            intro he
            exact hp.ne_host (by omega) hg (Json.text.inj (Option.some.inj he))
          · rw [get_remapNode_myip]
            intro he
            exact hp.ne_host hk ha (Json.text.inj (Option.some.inj he))
          · rw [get_remapNode_myip] at hip'
            obtain rfl := Json.text.inj (Option.some.inj hip')
            exact (described_iff hgateway hnested (hip hp) hkey).mpr (hsettled name entry _ hp key hkey)
          · rw [hp.get]
            exact get_remapNode hkey entry ip

/-! ## The stick's network -/

/-- The network and the nested automation VM's address that the caller passes. -/
def stickCidr : Text := "192.168.150.0/24".toList

def stickAutomation : Text := "192.168.150.2".toList

/-- The network of the stick. -/
def stickNet : Network := (ipNetwork false stickCidr).get (by decide)

theorem ipNetwork_stickCidr : ipNetwork false stickCidr = some stickNet := (Option.some_get _).symm

theorem stick_hosts : stickNet.base = 3232273920 ∧ stickNet.prefixLen = 24 := by decide

theorem hosts_stickNet : stickNet.hosts = List.range' 3232273921 254 := by
  obtain ⟨hbase, hlen⟩ := stick_hosts
  rw [Network.hosts, Network.size, hbase, hlen, if_neg (by decide), if_neg (by decide)]
  have hsize : 2 ^ (32 - 24) - 2 = 254 := rfl
  rw [hsize]

theorem stick_nested : NestedAddress stickCidr stickAutomation 10 := fun net hnet => by
  obtain rfl := Option.some.inj (ipNetwork_stickCidr.symm.trans hnet)
  refine ⟨1, 3232273922, Nat.le_refl _, by decide, ?_, by decide⟩
  rw [hosts_stickNet]
  rfl

/-- Nothing is detected or configured. -/
def quietSite : Site := ⟨Obj.empty, Obj.empty, ⟨[], [], []⟩⟩

/-- A lab of one node, with the given entry. -/
def oneNode (entry : Option Config) : Definition := ⟨Obj.empty.set "n1".toList entry, none, Obj.empty⟩

theorem placed_oneNode {entry entry' : Option Config}
    (h : Placed (oneNode entry) net startOffset name entry' ip) : entry' = entry := by
  have hget := h.get
  rw [oneNode, Obj.get_set] at hget
  split at hget
  · exact (Option.some.inj hget).symm
  · exact absurd hget.symm (Option.some_ne_none _)

/-- A node without entries is remapped consistently. -/
theorem selfConsistent_null_entry : SelfConsistent quietSite (oneNode none) stickCidr stickAutomation 10 := by
  refine (selfConsistent_iff stick_nested).mpr fun net _ => Or.inr ⟨Obj.empty, rfl, ?_⟩
  intro name entry ip hp key _
  rw [placed_oneNode hp, Settled]
  split
  · exact fun h => absurd h Bool.false_ne_true
  · exact fun v hv => absurd hv.symm (Option.some_ne_none v)

/-- A node with a gateway of its own. -/
def ownGateway : Config := Obj.empty.set mygw (.text "10.0.0.1".toList)

/-- A gateway of a node's own is kept. -/
theorem override_kept : ¬ ∀ (site : Site) (d : Definition) (natCidr nestedIp : Text) (startOffset : Nat),
    NestedAddress natCidr nestedIp startOffset → SelfConsistent site d natCidr nestedIp startOffset := by
  intro h
  have hcons := h quietSite (oneNode (some ownGateway)) stickCidr stickAutomation 10 stick_nested
  have hroom : (oneNode (some ownGateway)).nodes.entries.length ≤ (available stickNet 10).length := by
    rw [available, hosts_stickNet, List.length_drop, List.length_map, List.length_range']
    decide
  have hplaced : Placed (oneNode (some ownGateway)) stickNet 10 "n1".toList (some ownGateway)
      "192.168.150.10".toList := by
    refine ⟨0, rfl, ?_⟩
    rw [available, hosts_stickNet, List.getElem?_drop, List.getElem?_map]
    have hhost : (List.range' 3232273921 254)[10 - 1 + 0]? = some 3232273930 := rfl
    rw [hhost]
    decide
  have hautomation : stickAutomation ≠ [] := by decide
  have hremap := remap_eq hautomation ipNetwork_stickCidr hroom rfl
  rcases hcons with ⟨message, hm⟩ | ⟨m, net', hm, -, hnet', -, -, common', hc, -, hnodes⟩
  · cases hremap.symm.trans hm
  obtain rfl := Except.ok.inj (hremap.symm.trans hm)
  obtain rfl := Option.some.inj (ipNetwork_stickCidr.symm.trans hnet')
  obtain rfl := Option.some.inj (Option.some.inj hc)
  obtain ⟨node, hget, hnode⟩ := hnodes _ hplaced.mem
  obtain ⟨i, hi, hai⟩ := hplaced.place
  obtain rfl := Option.some.inj (Option.some.inj ((get_remapNodes hi hai).symm.trans hget))
  have hgateway : gateway stickNet = "192.168.150.1".toList := by
    have hfirst : stickNet.hosts[0]? = some 3232273921 := by
      rw [hosts_stickNet]
      rfl
    rw [gateway_eq hfirst]
    decide
  have hkey : mygw ∈ settings := List.mem_cons_self
  have hsettled := (described_iff (by rw [hgateway]; decide) (by decide) (by decide)
    hkey).mp (hnode.described _ (get_remapNode_myip _ _) mygw hkey)
  obtain ⟨-, -, h3, -⟩ := settings_distinct
  rw [Settled, if_neg h3] at hsettled
  have hown := hsettled (.text "10.0.0.1".toList) (by rw [Option.getD_some, ownGateway, Obj.get_set, if_pos rfl])
  have hread : loadVmVars quietSite.detected Obj.empty ownGateway mygw = some (.text "10.0.0.1".toList) := by
    have hvars : vars Obj.empty ownGateway mygw = some (.text "10.0.0.1".toList) := by
      rw [vars, ownGateway, Obj.get_set, if_pos rfl, Option.some_or]
    have htruthy : truthy (get (some (.text "10.0.0.1".toList))) = true := by decide
    simp only [loadVmVars, hvars, if_pos htruthy]
  rw [Option.getD_some, hread, Describes, if_pos rfl, hgateway] at hown
  exact absurd (Json.text.inj (Option.some.inj hown)) (by decide)

end LabInABox.Usb
