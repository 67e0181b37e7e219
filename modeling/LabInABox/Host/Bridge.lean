import LabInABox.FileTree
import LabInABox.Ipalloc.Allocate
import LabInABox.Text.Order

/-!
# A bridge that keeps the host's address

Model of `make_bridge` and `_backup` (`libs/host_network.py`) on the host's files: the copies and the
restore script, the writes of each stack that is configured by files, and what `restore.sh` does after
any of them.

* `makeBridge` gives the files as they stand after each write, up to the first that fails.
* A line of the restore script holds the copy that it puts back; the commands that reload the stack
  change no file.
* Contents are of any type, decoded and encoded as text by the host. What `netplan get` prints is the
  host's too, and so is what `netplan set` does to the files of `/etc/netplan`, the only ones it writes.
* Interface names are names of files: they hold no `/`.

Results:
* `get_restorePath`: the line of a path gives what was copied.
* `undone_iff`: the restore script gives every file back, whichever writes were done, exactly when the
  host is `Clean`.
-/

namespace LabInABox.Host.Bridge

open Text
open Ipalloc (boundary)

/-! ## The host -/

/-- The stacks that are configured by files. -/
inductive Stack
  | netplan
  | wicked
  | systemdNetworkd
  | ifupdown
  deriving DecidableEq

/-- `HostNet`, as far as these stacks use it. -/
structure HostNet where
  nic : Text
  mac : Text
  address : Text
  gateway : Text
  dhcp : Bool
  dns : List Text
  search : List Text
  dhcpIaid : Text

/-- A path, by its names. -/
def path (names : List String) : Path := names.map String.toList

/-- `CLOUD_INIT_NET_OFF`. -/
def cloudInitNetOff : Path := path ["etc", "cloud", "cloud.cfg.d", "99-lab-in-a-box-network.cfg"]

def netplanDir : Path := path ["etc", "netplan"]

def wickedDir : Path := path ["etc", "sysconfig", "network"]

def networkdDir : Path := path ["etc", "systemd", "network"]

def interfaces : Path := path ["etc", "network", "interfaces"]

def interfacesD : Path := path ["etc", "network", "interfaces.d"]

/-- `STACK_PATHS`. -/
def Stack.paths : Stack → List Path
  | netplan => [netplanDir]
  | wicked => [wickedDir]
  | systemdNetworkd => [networkdDir]
  | ifupdown => [interfaces, interfacesD]

/-- What the code asks of the host: how files are read and written, and `netplan`. -/
structure System (α : Type*) where
  decode : α → Option Text
  encode : Text → α
  isWord : Char → Bool
  /-- what `netplan get` prints, none where it fails -/
  netplanGet : FileTree α → Option Text
  /-- what a `netplan set` leaves, and whether it succeeds -/
  netplanSet : Text → FileTree α → FileTree α × Bool
  netplanSet_frame : ∀ c s q, ¬ netplanDir <+: q → (netplanSet c s).1.get q = s.get q

variable {α : Type*} (host : System α)

/-- `Path(p).read_text()`, none where there is no file or it is not text. -/
def readText (s : FileTree α) (p : Path) : Option Text :=
  match s.get p with
  | some (.file c) => host.decode c
  | _ => none

/-! ## The files of a stack -/

/-- `netplan_commands(net, bridge)`, without `netplan set --origin-hint 90-lab-in-a-box`. -/
def netplanCommands (net : HostNet) (bridge : Text) : List Text :=
  let ethernet := "ethernets.".toList ++ net.nic ++ ".".toList
  let params := "parameters: \x7bstp: false, forward-delay: 0\x7d".toList
  let list (ts : List Text) := ", ".toList.intercalate ts
  let search := if net.search = [] then [] else
    ", search: [".toList ++ list net.search ++ "]".toList
  let nameservers := if net.dns = [] then [] else
    ", nameservers: \x7baddresses: [".toList ++ list net.dns ++ "]".toList ++ search ++ "\x7d".toList
  let settings :=
    if net.dhcp then
      "\x7binterfaces: [".toList ++ net.nic ++ "], dhcp4: true, macaddress: \"".toList ++ net.mac ++
        "\", ".toList ++ params ++ "\x7d".toList
    else
      "\x7binterfaces: [".toList ++ net.nic ++ "], dhcp4: false, addresses: [".toList ++ net.address ++
        "], routes: [\x7bto: default, via: ".toList ++ net.gateway ++ "\x7d]".toList ++ nameservers ++
        ", ".toList ++ params ++ "\x7d".toList
  ["addresses", "routes", "nameservers", "gateway4", "dhcp6"].map
      (fun key => ethernet ++ key.toList ++ "=null".toList) ++
    [ethernet ++ "dhcp4=false".toList, "bridges.".toList ++ bridge ++ "=".toList ++ settings]

/-- The drop-in directory of the bridge that netplan generates. -/
def dropInDir (bridge : Text) : Path :=
  networkdDir ++ ["10-netplan-".toList ++ bridge ++ ".network.d".toList]

/-- `netplan_dhcp_dropin(net, bridge)`. -/
def netplanDhcpDropin (net : HostNet) (bridge : Text) : List (Path × Text) :=
  if net.dhcp ∧ net.dhcpIaid ≠ [] then
    [(dropInDir bridge ++ ["50-lab-in-a-box-iaid.conf".toList],
      "[DHCPv4]\nIAID=".toList ++ net.dhcpIaid ++ "\n".toList)]
  else []

/-- `render_networkd(net, bridge)`. -/
def renderNetworkd (net : HostNet) (bridge : Text) : List (Path × Text) :=
  let file (suffix : String) : Path :=
    networkdDir ++ ["05-lab-in-a-box-".toList ++ bridge ++ suffix.toList]
  let bridgeNet :=
    if net.dhcp then
      "DHCP=ipv4\n".toList ++ if net.dhcpIaid = [] then [] else
        "\n[DHCPv4]\nIAID=".toList ++ net.dhcpIaid ++ "\n".toList
    else
      "Address=".toList ++ net.address ++ "\nGateway=".toList ++ net.gateway ++ "\n".toList ++
        (net.dns.flatMap fun s => "DNS=".toList ++ s ++ "\n".toList) ++
        if net.search = [] then [] else "Domains=".toList ++ join net.search ++ "\n".toList
  [(file ".netdev",
      "[NetDev]\nName=".toList ++ bridge ++ "\nKind=bridge\nMACAddress=".toList ++ net.mac ++
        "\n\n[Bridge]\nSTP=no\nForwardDelaySec=0\n".toList),
    (file "-port.network",
      "[Match]\nName=".toList ++ net.nic ++ "\n\n[Network]\nBridge=".toList ++ bridge ++ "\n".toList),
    (file ".network", "[Match]\nName=".toList ++ bridge ++ "\n\n[Network]\n".toList ++ bridgeNet)]

/-- A line of the routes file, with a route of the NIC moved to the bridge. -/
def moveRoute (nic bridge line : Text) : Text :=
  if (fields line)[3]? = some nic then join ((fields line).set 3 bridge) else line

/-- `render_wicked(net, bridge, routes_text)`. -/
def renderWicked (net : HostNet) (bridge routesText : Text) : List (Path × Text) :=
  let br := "STARTMODE='auto'\nBRIDGE='yes'\nBRIDGE_PORTS='".toList ++ net.nic ++
    "'\nBRIDGE_STP='off'\nBRIDGE_FORWARDDELAY='0'\n".toList
  let ifcfg (dev : Text) : Path := wickedDir ++ ["ifcfg-".toList ++ dev]
  let port := (ifcfg net.nic, "STARTMODE='auto'\nBOOTPROTO='none'\n".toList)
  if net.dhcp then
    [port, (ifcfg bridge, br ++ "BOOTPROTO='dhcp'\nLLADDR='".toList ++ net.mac ++ "'\n".toList)]
  else
    let kept := (splitlines routesText).map (moveRoute net.nic bridge)
    let kept := if kept.any fun l => (fields l).head? = some "default".toList then kept else
      kept ++ ["default ".toList ++ net.gateway ++ " - ".toList ++ bridge]
    [port, (ifcfg bridge, br ++ "BOOTPROTO='static'\nIPADDR='".toList ++ net.address ++ "'\n".toList),
      (wickedDir ++ ["routes".toList], ['\n'].intercalate kept ++ "\n".toList)]

/-- `_IFUPDOWN_STANZA.match(line)`. -/
def startsStanza (line : Text) : Bool :=
  ["iface", "auto", "mapping", "source", "source-directory", "rename"].any
      (fun w => w.toList.isPrefixOf line &&
        boundary host.isWord w.toList.getLast? (line.drop w.toList.length).head?) ||
    "allow-".toList.isPrefixOf line && allows (line.drop 6)
where
  /-- `\S+\b` at the start of a text -/
  allows : Text → Bool
    | [] => false
    | c :: cs => !isSpace c && (boundary host.isWord (some c) cs.head? || allows cs)

/-- The loop of `render_ifupdown`: the lines it keeps, and whether it is in the NIC's stanza. -/
def keepStanza (nic : Text) (st : List Text × Bool) (line : Text) : List Text × Bool :=
  if startsStanza host (strip line) then
    match fields line with
    | w :: n :: rest =>
      if w = "iface".toList ∧ n = nic then
        (if rest.head? = some "inet".toList then
          st.1 ++ ["iface ".toList ++ nic ++ " inet manual".toList] else st.1, true)
      else (st.1 ++ [line], false)
    | _ => (st.1 ++ [line], false)
  else if st.2 ∧ strip line ≠ [] then st
  else (st.1 ++ [line], st.2)

/-- `render_ifupdown(interfaces_text, net, bridge)`. -/
def renderIfupdown (interfacesText : Text) (net : HostNet) (bridge : Text) : Text :=
  let out := ((splitlines interfacesText).foldl (keepStanza host net.nic) ([], false)).1
  let settings :=
    if net.dhcp then
      ["iface ".toList ++ bridge ++ " inet dhcp".toList, "    bridge_hw ".toList ++ net.mac]
    else
      ["iface ".toList ++ bridge ++ " inet static".toList, "    address ".toList ++ net.address,
        "    gateway ".toList ++ net.gateway] ++
      (if net.dns = [] then [] else ["    dns-nameservers ".toList ++ join net.dns]) ++
      if net.search = [] then [] else ["    dns-search ".toList ++ join net.search]
  let stanza := ["".toList, "auto ".toList ++ bridge] ++ settings ++
    ["    bridge_ports ".toList ++ net.nic, "    bridge_stp off".toList, "    bridge_fd 0".toList]
  (['\n'].intercalate out).rdropWhile (· = '\n') ++ "\n".toList ++ ['\n'].intercalate stanza ++
    "\n".toList

/-- `^\s*iface\s+{nic}\s` at the start of a text. -/
def startsIface (nic t : Text) : Bool :=
  let t := t.dropWhile isSpace
  "iface".toList.isPrefixOf t && ((t.drop 5).head?.any isSpace &&
    let t := (t.drop 5).dropWhile isSpace
    nic.isPrefixOf t && (t.drop nic.length).head?.any isSpace)

/-- Whether it is found at the start of a line. -/
def definesIface (nic : Text) (t : Text) : Bool :=
  startsIface nic t || t.tails.any fun u =>
    match u with
    | '\n' :: rest => startsIface nic rest
    | _ => false

/-- The loop of `_ifupdown_file`: none where a file is not text. -/
def findIface (s : FileTree α) (nic : Text) : List Path → Option Path
  | [] => some interfaces
  | p :: ps =>
    if s.isFile p then
      (readText host s p).bind fun text => if definesIface nic text then some p else findIface s nic ps
    else findIface s nic ps

/-- `_ifupdown_file(nic)`. -/
def ifupdownFile (s : FileTree α) (nic : Text) : Option Path :=
  findIface host s nic (interfaces :: (sorted (s.names interfacesD)).map fun n => interfacesD ++ [n])

/-! ## Writing them -/

/-- A write: the files after it, and whether it succeeded. -/
abbrev Write (α : Type*) := FileTree α → FileTree α × Bool

/-- A write that fails changes nothing. -/
def attempt (op : FileTree α → Option (FileTree α)) : Write α := fun s =>
  match op s with
  | some s' => (s', true)
  | none => (s, false)

/-- `_write_files(files)`: of two files of one name the last counts. -/
def writeFiles (files : List (Path × Text)) : List (Write α) :=
  (Obj.empty.assign files).entries.flatMap fun f =>
    [attempt fun s => s.makeDirs f.1.dropLast, attempt fun s => s.write f.1 (host.encode f.2)]

/-- The writes of a stack. -/
def stackWrites (stack : Stack) (net : HostNet) (bridge : Text) (s : FileTree α) : List (Write α) :=
  match stack with
  | .netplan =>
    match host.netplanGet s with
    | none => []
    | some merged =>
      ((s.names netplanDir).filter fun n => ".yaml".toList.isSuffixOf n).map
          (fun n => attempt fun s => s.unlink (netplanDir ++ [n])) ++
        [attempt fun s => s.write (netplanDir ++ ["90-lab-in-a-box.yaml".toList]) (host.encode merged)] ++
        (netplanCommands net bridge).map host.netplanSet ++
        writeFiles host (netplanDhcpDropin net bridge)
  | .wicked =>
    let routes := wickedDir ++ ["routes".toList]
    if s.isFile routes then
      match readText host s routes with
      | none => []
      | some text => writeFiles host (renderWicked net bridge text)
    else writeFiles host (renderWicked net bridge [])
  | .systemdNetworkd => writeFiles host (renderNetworkd net bridge)
  | .ifupdown =>
    match ifupdownFile host s net.nic with
    | none => []
    | some f =>
      match readText host s f with
      | none => []
      | some text => [attempt fun s => s.write f (host.encode (renderIfupdown host text net bridge))]

/-- The files after each write, up to the first that fails. -/
def trace : List (Write α) → FileTree α → List (FileTree α)
  | [], s => [s]
  | w :: ws, s => s :: if (w s).2 then trace ws (w s).1 else [(w s).1]

/-- `make_bridge`, from the armed timer on: the files before and after each write. -/
def makeBridge (stack : Stack) (net : HostNet) (bridge : Text) (s : FileTree α) : List (FileTree α) :=
  if s.isDir cloudInitNetOff.dropLast then
    match s.write cloudInitNetOff (host.encode "network: {config: disabled}\n".toList) with
    | none => [s]
    | some s₁ => s :: trace (stackWrites host stack net bridge s₁) s₁
  else trace (stackWrites host stack net bridge s) s

/-! ## Putting it back -/

/-- The line of `_backup(stack, backup_dir)` for the `i`-th path, made at `s` and run at `t`. -/
def restorePath (s : FileTree α) (t : FileTree α) (e : Path × Nat) : FileTree α :=
  if h : s.isDir e.1 = true then t.putBack (s.copy e.1 (FileTree.isDir_iff.mp h))
  else
    match s.get e.1 with
    | some (.file c) =>
      -- `cp -a` of a file into a directory keeps the name that the copy has
      let target := if t.isDir e.1 then
        e.1 ++ [(toString e.2).toList ++ "-".toList ++ e.1.getLast?.getD []] else e.1
      (t.write target c).getD t
    | _ => t

/-- The lines of `_backup`, but the last. -/
def restoreConfig (stack : Stack) (s t : FileTree α) : FileTree α :=
  stack.paths.zipIdx.foldl (restorePath s) t

/-- `restore.sh`, made at `s` and run at `t`. -/
def restore (stack : Stack) (net : HostNet) (bridge : Text) (s t : FileTree α) : FileTree α :=
  let t := (restoreConfig stack s t).removeFile cloudInitNetOff
  if stack = .netplan then
    (netplanDhcpDropin net bridge).foldl (fun t f => t.removeAll f.1.dropLast) t
  else t

/-! ## What has to come back -/

/-- The files are as they were: the paths of the stack, the file that switches off cloud-init's network
configuration and the drop-in directory. -/
def Undone (stack : Stack) (bridge : Text) (s t : FileTree α) : Prop :=
  ∀ p ∈ stack.paths ++ [cloudInitNetOff, dropInDir bridge], ∀ q, p <+: q → t.get q = s.get q

/-- Nothing is there that the script removes, and nothing is made that it leaves. -/
structure Clean (stack : Stack) (net : HostNet) (bridge : Text) (s : FileTree α) : Prop where
  cloudInit : s.isFile cloudInitNetOff = false
  dropIn : stack = .netplan → netplanDhcpDropin net bridge ≠ [] → s.get (dropInDir bridge) = none
  config : stack = .wicked ∨ stack = .systemdNetworkd → ∀ p ∈ stack.paths,
    s.get p ≠ none ∨ s.makeDirs p = none ∨ s.get cloudInitNetOff = some .dir

variable {host} {stack : Stack} {net : HostNet} {bridge : Text} {s s₁ t : FileTree α}

/-! ## Paths -/

theorem apart_cloudInitNetOff {p : Path} (hp : p ∈ stack.paths) : Apart p cloudInitNetOff := by
  cases stack <;>
    simp only [Stack.paths, List.mem_cons, List.not_mem_nil, or_false] at hp <;>
    rcases hp with rfl | rfl <;> decide

theorem paths_ne_nil {p : Path} (hp : p ∈ stack.paths) : p ≠ [] := by
  rintro rfl
  exact (apart_cloudInitNetOff hp).1 List.nil_prefix

theorem eq_of_mem_paths (h : stack ≠ .ifupdown) {p q : Path} (hp : p ∈ stack.paths)
    (hq : q ∈ stack.paths) : p = q := by
  cases stack with
  | ifupdown => exact absurd rfl h
  | _ => rw [List.mem_singleton.mp hp, List.mem_singleton.mp hq]

theorem apart_dropInDir (bridge : Text) {p : Path} {n : Text} (h : p[1]? = some n)
    (hn : n ≠ "systemd".toList) : Apart p (dropInDir bridge) :=
  apart_of_getElem 1 h rfl hn

theorem not_dropInDir_prefix {p : Path} (hp : p ∈ stack.paths) : ¬ dropInDir bridge <+: p := by
  intro h
  have hlen : p.length < 4 := by
    cases stack <;>
      simp only [Stack.paths, List.mem_cons, List.not_mem_nil, or_false] at hp <;>
      rcases hp with rfl | rfl <;> decide
  have hle : 4 ≤ p.length := h.length_le
  omega

/-! ## What the writes change -/

/-- What every write keeps. -/
theorem of_mem_trace {P : FileTree α → Prop} {ws : List (Write α)}
    (h : ∀ w ∈ ws, ∀ u, P u → P (w u).1) (hs : P s) (ht : t ∈ trace ws s) : P t := by
  induction ws generalizing s with
  | nil =>
    rw [List.mem_singleton.mp ht]
    exact hs
  | cons w ws ih =>
    rcases List.mem_cons.mp ht with rfl | ht
    · exact hs
    · have hw := h w List.mem_cons_self s hs
      split at ht
      · exact ih (fun w' hw' => h w' (List.mem_cons_of_mem _ hw')) hw ht
      · rw [List.mem_singleton.mp ht]
        exact hw

/-- Where the first write fails, no file changes. -/
theorem eq_of_mem_trace_cons {op : FileTree α → Option (FileTree α)} {ws : List (Write α)}
    (h : op s = none) (ht : t ∈ trace (attempt op :: ws) s) : t = s := by
  have ha : attempt op s = (s, false) := by
    unfold attempt
    rw [h]
  rw [trace, ha] at ht
  rcases List.mem_cons.mp ht with rfl | ht
  · rfl
  · exact List.mem_singleton.mp ht

theorem attempt_keeps {P : FileTree α → Prop} {op : FileTree α → Option (FileTree α)}
    (h : ∀ u u', op u = some u' → P u → P u') (u : FileTree α) (hu : P u) : P (attempt op u).1 := by
  unfold attempt
  split
  · rename_i u' hop
    exact h u u' hop hu
  · exact hu

theorem mem_of_mem_assign {files : List (Path × Text)} {f : Path × Text}
    (h : f ∈ (Obj.empty.assign files).entries) : f.1 ∈ files.map Prod.fst := by
  by_contra hn
  have hg := Obj.mem_entries_iff.mp h
  rw [Obj.get_assign_of_not_mem hn] at hg
  cases hg

/-- Files that are all written to one directory. -/
theorem writeFiles_keeps {files : List (Path × Text)} {d q : Path} {v : Option (Node α)}
    (hd : ∀ f ∈ files, f.1.dropLast = d) (hq : ¬ d <+: q) (hpre : q <+: d → v = some .dir) :
    ∀ w ∈ writeFiles host files, ∀ u : FileTree α, u.get q = v → (w u).1.get q = v := by
  intro w hw u hu
  obtain ⟨f, hf, hw⟩ := List.mem_flatMap.mp hw
  obtain ⟨g, hg, hgf⟩ := List.mem_map.mp (mem_of_mem_assign hf)
  have hfd : f.1.dropLast = d := hgf ▸ hd g hg
  simp only [List.mem_cons, List.not_mem_nil, or_false] at hw
  rcases hw with rfl | rfl
  · refine attempt_keeps (P := fun u => u.get q = v) (fun u u' hop hu => ?_) u hu
    rw [FileTree.get_makeDirs hop, hfd]
    split
    · rename_i hp
      exact (hpre hp).symm
    · exact hu
  · refine attempt_keeps (P := fun u => u.get q = v) (fun u u' hop hu => ?_) u hu
    have hne : q ≠ f.1 := by
      rintro rfl
      exact hq (hfd ▸ List.dropLast_prefix _)
    rw [FileTree.get_write hop, if_neg hne]
    exact hu

/-- Where their directory cannot be made, no file is written. -/
theorem eq_of_mem_writeFiles {files : List (Path × Text)} {d : Path}
    (hd : ∀ f ∈ files, f.1.dropLast = d) (hnone : s.makeDirs d = none)
    (ht : t ∈ trace (writeFiles host files) s) : t = s := by
  unfold writeFiles at ht
  cases he : (Obj.empty.assign files).entries with
  | nil =>
    rw [he] at ht
    exact List.mem_singleton.mp ht
  | cons f fs =>
    rw [he, List.flatMap_cons] at ht
    obtain ⟨g, hg, hgf⟩ := List.mem_map.mp (mem_of_mem_assign (he ▸ List.mem_cons_self : f ∈ _))
    refine eq_of_mem_trace_cons ?_ ht
    rw [← hgf, hd g hg]
    exact hnone

theorem renderNetworkd_dropLast : ∀ f ∈ renderNetworkd net bridge, f.1.dropLast = networkdDir := by
  intro f hf
  simp only [renderNetworkd, List.mem_cons, List.not_mem_nil, or_false] at hf
  rcases hf with rfl | rfl | rfl <;> exact List.dropLast_concat

theorem renderWicked_dropLast (routesText : Text) :
    ∀ f ∈ renderWicked net bridge routesText, f.1.dropLast = wickedDir := by
  intro f hf
  unfold renderWicked at hf
  dsimp only at hf
  split at hf <;> simp only [List.mem_cons, List.not_mem_nil, or_false] at hf
  · rcases hf with rfl | rfl <;> exact List.dropLast_concat
  · rcases hf with rfl | rfl | rfl <;> exact List.dropLast_concat

theorem netplanDhcpDropin_dropLast : ∀ f ∈ netplanDhcpDropin net bridge, f.1.dropLast = dropInDir bridge := by
  intro f hf
  unfold netplanDhcpDropin at hf
  split at hf
  · rw [List.mem_singleton.mp hf]
    exact List.dropLast_concat
  · cases hf

theorem findIface_spec {ps : List Path} {f : Path} (h : findIface host s net.nic ps = some f) :
    f = interfaces ∨ f ∈ ps := by
  induction ps with
  | nil => exact Or.inl (Option.some.inj h).symm
  | cons p ps ih =>
    unfold findIface at h
    have hrec (h : findIface host s net.nic ps = some f) : f = interfaces ∨ f ∈ p :: ps :=
      (ih h).imp_right (List.mem_cons_of_mem _)
    split at h
    · obtain ⟨text, _, h⟩ := Option.bind_eq_some_iff.mp h
      split at h
      · rw [← Option.some.inj h]
        exact Or.inr List.mem_cons_self
      · exact hrec h
    · exact hrec h

theorem ifupdownFile_spec {f : Path} (h : ifupdownFile host s net.nic = some f) :
    f = interfaces ∨ ∃ n, f = interfacesD ++ [n] := by
  rcases findIface_spec h with hf | hf
  · exact Or.inl hf
  · rcases List.mem_cons.mp hf with hf | hf
    · exact Or.inl hf
    · obtain ⟨n, _, rfl⟩ := List.mem_map.mp hf
      exact Or.inr ⟨n, rfl⟩

/-- wicked and systemd-networkd: files of one directory. -/
theorem stackWrites_eq_writeFiles (host : System α) (net : HostNet) (bridge : Text) (s : FileTree α)
    (h : stack = .wicked ∨ stack = .systemdNetworkd) :
    ∃ d files, stack.paths = [d] ∧ (∀ f ∈ files, f.1.dropLast = d) ∧ (s.get d = none → files ≠ []) ∧
      stackWrites host stack net bridge s = writeFiles host files := by
  rcases h with rfl | rfl
  · refine ⟨wickedDir, ?_⟩
    have hne (text : Text) : renderWicked net bridge text ≠ [] := by
      unfold renderWicked
      dsimp only
      split <;> exact List.cons_ne_nil _ _
    unfold stackWrites
    dsimp only
    split
    · rename_i hf
      obtain ⟨c, hc⟩ := FileTree.isFile_iff.mp hf
      have hd : s.get wickedDir ≠ none := by
        have hdir := FileTree.get_dropLast (s := s) (p := wickedDir ++ ["routes".toList])
          (by rw [hc]; exact Option.some_ne_none _)
        rw [List.dropLast_concat] at hdir
        rw [hdir]
        exact Option.some_ne_none _
      split
      · exact ⟨[], rfl, fun f hf => absurd hf List.not_mem_nil, fun hn => absurd hn hd, rfl⟩
      · rename_i text _
        exact ⟨_, rfl, renderWicked_dropLast text, fun hn => absurd hn hd, rfl⟩
    · exact ⟨_, rfl, renderWicked_dropLast [], fun _ => hne [], rfl⟩
  · exact ⟨networkdDir, _, rfl, renderNetworkd_dropLast, fun _ => List.cons_ne_nil _ _, rfl⟩

/-- Outside the paths of the stack and the drop-in directory, the writes only make directories. -/
theorem stackWrites_keeps {q : Path} {v : Option (Node α)} (hq : ∀ p ∈ stack.paths, ¬ p <+: q)
    (hdrop : stack = .netplan → netplanDhcpDropin net bridge ≠ [] →
      ¬ dropInDir bridge <+: q ∧ (q <+: dropInDir bridge → v = some .dir))
    (hpre : stack = .wicked ∨ stack = .systemdNetworkd →
      ∀ p ∈ stack.paths, q <+: p → v = some .dir) :
    ∀ w ∈ stackWrites host stack net bridge s, ∀ u : FileTree α, u.get q = v → (w u).1.get q = v := by
  intro w hw u hu
  cases hstack : stack with
  | netplan =>
    rw [hstack] at hw hq
    have hq : ¬ netplanDir <+: q := hq netplanDir List.mem_cons_self
    unfold stackWrites at hw
    dsimp only at hw
    split at hw
    · cases hw
    · rcases List.mem_append.mp hw with hw | hw
      · rcases List.mem_append.mp hw with hw | hw
        · rcases List.mem_append.mp hw with hw | hw
          · obtain ⟨n, _, rfl⟩ := List.mem_map.mp hw
            refine attempt_keeps (P := fun u => u.get q = v) (fun u u' hop hu => ?_) u hu
            rw [FileTree.get_unlink hop, if_neg]
            · exact hu
            · rintro rfl
              exact hq (List.prefix_append _ _)
          · rw [List.mem_singleton.mp hw]
            refine attempt_keeps (P := fun u => u.get q = v) (fun u u' hop hu => ?_) u hu
            rw [FileTree.get_write hop, if_neg]
            · exact hu
            · rintro rfl
              exact hq (List.prefix_append _ _)
        · obtain ⟨c, _, rfl⟩ := List.mem_map.mp hw
          rw [host.netplanSet_frame c u q hq]
          exact hu
      · by_cases hne : netplanDhcpDropin net bridge = []
        · rw [hne] at hw
          cases hw
        · obtain ⟨h₁, h₂⟩ := hdrop hstack hne
          exact writeFiles_keeps netplanDhcpDropin_dropLast h₁ h₂ w hw u hu
  | wicked =>
    obtain ⟨d, files, hd, hfiles, _, heq⟩ :=
      stackWrites_eq_writeFiles host net bridge s (Or.inl hstack)
    have hmem : d ∈ stack.paths := hd ▸ List.mem_cons_self
    exact writeFiles_keeps hfiles (hq d hmem) (hpre (Or.inl hstack) d hmem) w (heq ▸ hw) u hu
  | systemdNetworkd =>
    obtain ⟨d, files, hd, hfiles, _, heq⟩ :=
      stackWrites_eq_writeFiles host net bridge s (Or.inr hstack)
    have hmem : d ∈ stack.paths := hd ▸ List.mem_cons_self
    exact writeFiles_keeps hfiles (hq d hmem) (hpre (Or.inr hstack) d hmem) w (heq ▸ hw) u hu
  | ifupdown =>
    rw [hstack] at hw hq
    unfold stackWrites at hw
    dsimp only at hw
    split at hw
    · cases hw
    · rename_i f hf
      split at hw
      · cases hw
      · rw [List.mem_singleton.mp hw]
        refine attempt_keeps (P := fun u => u.get q = v) (fun u u' hop hu => ?_) u hu
        have hne : q ≠ f := by
          rintro rfl
          rcases ifupdownFile_spec hf with rfl | ⟨n, rfl⟩
          · exact hq interfaces List.mem_cons_self List.prefix_rfl
          · exact hq interfacesD (List.mem_cons_of_mem _ List.mem_cons_self) (List.prefix_append _ _)
        rw [FileTree.get_write hop, if_neg hne]
        exact hu

/-- The files that `make_bridge` leaves: those before it, or those after writes of the stack. -/
theorem makeBridge_cases (h : t ∈ makeBridge host stack net bridge s) :
    t = s ∨ s.get cloudInitNetOff ≠ some .dir ∧ ∃ s₁ : FileTree α,
      (∀ q ≠ cloudInitNetOff, s₁.get q = s.get q) ∧ s₁.get cloudInitNetOff ≠ some .dir ∧
      t ∈ trace (stackWrites host stack net bridge s₁) s₁ := by
  unfold makeBridge at h
  split at h
  · split at h
    · exact Or.inl (List.mem_singleton.mp h)
    · rename_i s₁ hw
      rcases List.mem_cons.mp h with rfl | h
      · exact Or.inl rfl
      · refine Or.inr ⟨(FileTree.get_of_write hw).2, s₁, fun q hq => ?_, ?_, h⟩
        · rw [FileTree.get_write hw, if_neg hq]
        · rw [FileTree.get_write hw, if_pos rfl]
          intro hd
          cases hd
  · rename_i hd
    have hne : s.get cloudInitNetOff ≠ some .dir := fun hdir =>
      hd (FileTree.isDir_iff.mpr (FileTree.get_dropLast (by rw [hdir]; exact Option.some_ne_none _)))
    exact Or.inr ⟨hne, s, fun _ _ => rfl, hne, h⟩

/-! ## What the script puts back -/

/-- The line of a path can do its work. -/
structure Restorable (s t : FileTree α) (p : Path) : Prop where
  parent : s.get p ≠ none → t.get p.dropLast = some .dir
  file : (∃ c, s.get p = some (.file c)) → t.get p ≠ some .dir
  absent : s.get p = none → ∀ q, p <+: q → t.get q = none

/-- **The line of a path** gives what was copied, and leaves the rest. -/
theorem get_restorePath {p : Path} (i : Nat) (hne : p ≠ []) (h : Restorable s t p) (q : Path) :
    (restorePath s t (p, i)).get q = if p <+: q then s.get q else t.get q := by
  unfold restorePath
  split
  · rename_i hd
    have hp := FileTree.isDir_iff.mp hd
    exact FileTree.get_putBack hp hne (h.parent (by rw [hp]; exact Option.some_ne_none _)) q
  · rename_i hd
    have hp : s.get p ≠ some .dir := fun hdir => hd (FileTree.isDir_iff.mpr hdir)
    dsimp only
    split
    · rename_i c hc
      have ht := h.file ⟨c, hc⟩
      obtain ⟨t', hw⟩ := FileTree.exists_write (c := c)
        (h.parent (by rw [hc]; exact Option.some_ne_none _)) ht
      rw [if_neg fun hdir => ht (FileTree.isDir_iff.mp hdir), hw]
      have hget := FileTree.get_write hw q
      rw [Option.getD_some, hget]
      by_cases hq : q = p
      · rw [if_pos hq, hq, if_pos List.prefix_rfl, hc]
      · rw [if_neg hq]
        split
        · rename_i hpq
          rw [FileTree.get_eq_none_of_isPrefix hp hpq (Ne.symm hq),
            FileTree.get_eq_none_of_isPrefix ht hpq (Ne.symm hq)]
        · rfl
    · rename_i hc
      have hnone : s.get p = none := by
        cases hs : s.get p with
        | none => rfl
        | some v =>
          cases v with
          | dir => exact absurd hs hp
          | file c => exact absurd hs (hc c)
      split
      · rename_i hpq
        rw [h.absent hnone q hpq]
        by_cases hq : q = p
        · rw [hq, hnone]
        · rw [FileTree.get_eq_none_of_isPrefix hp hpq (Ne.symm hq)]
      · rfl

theorem get_restorePaths {es : List (Path × Nat)} (hne : ∀ e ∈ es, e.1 ≠ [])
    (hap : es.Pairwise fun e e' => Apart e.1 e'.1) (h : ∀ e ∈ es, Restorable s t e.1) (q : Path) :
    (es.foldl (restorePath s) t).get q = if ∃ e ∈ es, e.1 <+: q then s.get q else t.get q := by
  induction es generalizing t with
  | nil =>
    rw [if_neg]
    · rfl
    · rintro ⟨e, he, _⟩
      cases he
  | cons e es ih =>
    have he := get_restorePath e.2 (hne e List.mem_cons_self) (h e List.mem_cons_self)
    have hap' := List.pairwise_cons.mp hap
    have hrec : ∀ e' ∈ es, Restorable s (restorePath s t e) e'.1 := by
      intro e' he'
      have hr := h e' (List.mem_cons_of_mem _ he')
      have hapart := hap'.1 e' he'
      refine ⟨fun hs => ?_, fun hs => ?_, fun hs r hr' => ?_⟩
      · rw [he, if_neg fun hp => hapart.1 (hp.trans (List.dropLast_prefix _))]
        exact hr.parent hs
      · rw [he, if_neg hapart.1]
        exact hr.file hs
      · rw [he, if_neg fun hp => hapart.not_isPrefix hp hr']
        exact hr.absent hs r hr'
    rw [List.foldl_cons, ih (fun e' he' => hne e' (List.mem_cons_of_mem _ he')) hap'.2 hrec, he]
    by_cases hes : ∃ e' ∈ es, e'.1 <+: q
    · obtain ⟨e', he', hq⟩ := hes
      rw [if_pos ⟨e', he', hq⟩, if_pos ⟨e', List.mem_cons_of_mem _ he', hq⟩]
    · rw [if_neg hes]
      by_cases hq : e.1 <+: q
      · rw [if_pos hq, if_pos ⟨e, List.mem_cons_self, hq⟩]
      · rw [if_neg hq, if_neg]
        rintro ⟨e', he', hq'⟩
        rcases List.mem_cons.mp he' with rfl | he'
        · exact hq hq'
        · exact hes ⟨e', he', hq'⟩

/-- The copies of the stack's paths. -/
theorem get_restoreConfig (h : ∀ p ∈ stack.paths, Restorable s t p) (q : Path) :
    (restoreConfig stack s t).get q = if ∃ p ∈ stack.paths, p <+: q then s.get q else t.get q := by
  have hmem : ∀ e ∈ stack.paths.zipIdx, e.1 ∈ stack.paths := fun e he => List.fst_mem_of_mem_zipIdx he
  have hap : stack.paths.zipIdx.Pairwise fun e e' => Apart e.1 e'.1 := by
    cases stack <;> decide
  have hiff : (∃ e ∈ stack.paths.zipIdx, e.1 <+: q) ↔ ∃ p ∈ stack.paths, p <+: q := by
    constructor
    · rintro ⟨e, he, hq⟩
      exact ⟨e.1, hmem e he, hq⟩
    · rintro ⟨p, hp, hq⟩
      obtain ⟨i, hi⟩ := List.mem_iff_getElem?.mp hp
      exact ⟨(p, i), List.mem_zipIdx_iff_getElem?.mpr hi, hq⟩
  unfold restoreConfig
  rw [get_restorePaths (fun e he => paths_ne_nil (hmem e he)) hap (fun e he => h e.1 (hmem e he))]
  simp only [hiff]

/-- What is a directory, a file or not there is so still, but for the file of cloud-init. -/
def SameKinds (s t : FileTree α) : Prop := ∀ q ≠ cloudInitNetOff,
  (t.get q = some .dir ↔ s.get q = some .dir) ∧ (t.get q = none ↔ s.get q = none)

theorem sameKinds_of_eq (h : ∀ q ≠ cloudInitNetOff, t.get q = s.get q) : SameKinds s t := fun q hq => by
  rw [h q hq]
  exact ⟨Iff.rfl, Iff.rfl⟩

theorem SameKinds.restorable (h : SameKinds s t) {p : Path} (hp : p ∈ stack.paths) :
    Restorable s t p := by
  have hapart := apart_cloudInitNetOff hp
  refine ⟨fun hs => ?_, ?_, fun hs q hq => ?_⟩
  · have hne : p.dropLast ≠ cloudInitNetOff := fun heq => hapart.2 (heq ▸ List.dropLast_prefix p)
    exact (h _ hne).1.mpr (FileTree.get_dropLast hs)
  · rintro ⟨c, hc⟩ hd
    have hne : p ≠ cloudInitNetOff := fun heq => hapart.1 (heq ▸ List.prefix_rfl)
    rw [(h p hne).1.mp hd] at hc
    cases hc
  · have hne : q ≠ cloudInitNetOff := fun heq => hapart.1 (heq ▸ hq)
    refine (h q hne).2.mpr ?_
    by_cases hpq : p = q
    · rw [← hpq, hs]
    · refine FileTree.get_eq_none_of_isPrefix ?_ hq hpq
      rw [hs]
      intro hd
      cases hd

/-- ifupdown: the one file that is written was there before. -/
theorem sameKinds_ifupdown (ht : t ∈ trace (stackWrites host .ifupdown net bridge s) s) :
    SameKinds s t := by
  refine of_mem_trace (fun w hw u hu => ?_) (sameKinds_of_eq fun _ _ => rfl) ht
  unfold stackWrites at hw
  dsimp only at hw
  split at hw
  · cases hw
  · rename_i f _
    split at hw
    · cases hw
    · rename_i text htext
      have hf : ∃ c, s.get f = some (.file c) := by
        unfold readText at htext
        split at htext
        · rename_i c hc
          exact ⟨c, hc⟩
        · cases htext
      obtain ⟨c, hc⟩ := hf
      rw [List.mem_singleton.mp hw]
      refine attempt_keeps (fun u u' hop hu q hq => ?_) u hu
      rw [FileTree.get_write hop]
      split
      · rename_i hqf
        rw [hqf, hc]
        simp
      · exact hu q hq

/-- Where its directory is not there, a stack that writes to one fails at once. -/
theorem eq_of_mem_stackWrites {p : Path} (hp : p ∈ stack.paths) (hne : stack ≠ .ifupdown)
    (hd : s.get p ≠ some .dir)
    (hnone : stack = .wicked ∨ stack = .systemdNetworkd → s.makeDirs p = none)
    (ht : t ∈ trace (stackWrites host stack net bridge s) s) : t = s := by
  by_cases hstack : stack = .wicked ∨ stack = .systemdNetworkd
  · obtain ⟨d, files, hpaths, hfiles, _, heq⟩ := stackWrites_eq_writeFiles host net bridge s hstack
    rw [hpaths] at hp
    rw [heq] at ht
    obtain rfl := List.mem_singleton.mp hp
    exact eq_of_mem_writeFiles hfiles (hnone hstack) ht
  · have hnet : stack = .netplan := by
      cases stack with
      | netplan => rfl
      | wicked => exact absurd (Or.inl rfl) hstack
      | systemdNetworkd => exact absurd (Or.inr rfl) hstack
      | ifupdown => exact absurd rfl hne
    subst hnet
    obtain rfl := List.mem_singleton.mp hp
    have hnames : s.names netplanDir = [] := by
      refine List.filterMap_eq_nil_iff.mpr fun q hq => ?_
      obtain ⟨v, hv⟩ := Obj.mem_keys_iff.mp hq
      rw [if_neg]
      intro hdrop
      exact hd (hdrop ▸ FileTree.get_dropLast (by rw [FileTree.get, hv]; exact Option.some_ne_none _))
    have hwrite (c : α) : s.write (netplanDir ++ ["90-lab-in-a-box.yaml".toList]) c = none := by
      cases hw : s.write (netplanDir ++ ["90-lab-in-a-box.yaml".toList]) c with
      | none => rfl
      | some u =>
        have hdir := (FileTree.get_of_write hw).1
        rw [List.dropLast_concat] at hdir
        exact absurd hdir hd
    unfold stackWrites at ht
    dsimp only at ht
    split at ht
    · exact List.mem_singleton.mp ht
    · rw [hnames, List.filter_nil, List.map_nil, List.nil_append, List.append_assoc,
        List.singleton_append] at ht
      exact eq_of_mem_trace_cons (hwrite _) ht

/-- **The copies can be put back** after any of the writes. -/
theorem restorable (hclean : Clean stack net bridge s) (ht : t ∈ makeBridge host stack net bridge s)
    {p : Path} (hp : p ∈ stack.paths) : Restorable s t p := by
  rcases makeBridge_cases ht with rfl | ⟨hcloud, s₁, h₁, _, ht⟩
  · exact (sameKinds_of_eq fun _ _ => rfl).restorable hp
  have hapart := apart_cloudInitNetOff hp
  have hp₁ : s₁.get p = s.get p := h₁ p fun heq => hapart.1 (heq ▸ List.prefix_rfl)
  have hdrop₁ : s₁.get p.dropLast = s.get p.dropLast :=
    h₁ _ fun heq => hapart.2 (heq ▸ List.dropLast_prefix p)
  by_cases hstack : stack = .ifupdown
  · subst hstack
    have hkinds := sameKinds_ifupdown ht
    refine SameKinds.restorable (fun q hq => ?_) hp
    rw [← h₁ q hq]
    exact hkinds q hq
  by_cases hd : s.get p = some .dir
  · have hparent := FileTree.get_dropLast (s := s) (p := p) (by rw [hd]; exact Option.some_ne_none _)
    refine ⟨fun _ => ?_, ?_, fun hs => ?_⟩
    · refine of_mem_trace (P := fun u => u.get p.dropLast = some .dir)
        (stackWrites_keeps ?_ (fun hnet _ => ?_) fun _ _ _ _ => rfl) (hdrop₁.trans hparent) ht
      · intro p' hp' hpre
        rw [eq_of_mem_paths hstack hp' hp] at hpre
        exact not_prefix_dropLast (paths_ne_nil hp) hpre
      · subst hnet
        obtain rfl := List.mem_singleton.mp hp
        exact ⟨fun hpre => (apart_dropInDir bridge (p := netplanDir) rfl (by decide)).2
          (hpre.trans (List.dropLast_prefix _)), fun _ => rfl⟩
    · rintro ⟨c, hc⟩
      rw [hd] at hc
      cases hc
    · rw [hd] at hs
      cases hs
  · have hnone : stack = .wicked ∨ stack = .systemdNetworkd → s₁.makeDirs p = none := by
      intro hw
      refine FileTree.makeDirs_eq_none_iff.mpr ?_
      rcases hclean.config hw p hp with hs | hs | hs
      · refine ⟨p, List.prefix_rfl, ?_⟩
        rw [FileTree.isFile_iff, hp₁]
        cases hsp : s.get p with
        | none => exact absurd hsp hs
        | some v =>
          cases v with
          | dir => exact absurd hsp hd
          | file c => exact ⟨c, rfl⟩
      · obtain ⟨q, hq, hf⟩ := FileTree.makeDirs_eq_none_iff.mp hs
        refine ⟨q, hq, ?_⟩
        rw [FileTree.isFile_iff, h₁ q fun heq => hapart.2 (heq ▸ hq)]
        exact FileTree.isFile_iff.mp hf
      · exact absurd hs hcloud
    have heq := eq_of_mem_stackWrites hp hstack (hp₁ ▸ hd) hnone ht
    exact (sameKinds_of_eq fun q hq => heq ▸ h₁ q hq).restorable hp

/-! ## After the script -/

theorem get_restore (q : Path) : (restore stack net bridge s t).get q =
    if stack = .netplan ∧ netplanDhcpDropin net bridge ≠ [] ∧ dropInDir bridge <+: q then none
    else ((restoreConfig stack s t).removeFile cloudInitNetOff).get q := by
  unfold restore
  dsimp only
  by_cases hstack : stack = .netplan
  · rw [if_pos hstack]
    by_cases hne : netplanDhcpDropin net bridge = []
    · rw [hne, if_neg fun h => h.2.1 rfl]
      rfl
    · have hdir : dropInDir bridge ≠ [] := List.append_ne_nil_of_left_ne_nil (by decide) _
      have hone : ∃ f, netplanDhcpDropin net bridge = [f] := by
        unfold netplanDhcpDropin at hne ⊢
        split
        · exact ⟨_, rfl⟩
        · rename_i hc
          rw [if_neg hc] at hne
          exact absurd rfl hne
      obtain ⟨f, hf⟩ := hone
      have hd : f.1.dropLast = dropInDir bridge :=
        netplanDhcpDropin_dropLast f (hf ▸ List.mem_cons_self)
      rw [hf, List.foldl_cons, List.foldl_nil, hd, FileTree.get_removeAll hdir]
      by_cases hq : dropInDir bridge <+: q
      · rw [if_pos hq, if_pos ⟨hstack, List.cons_ne_nil _ _, hq⟩]
      · rw [if_neg hq, if_neg fun h => hq h.2.2]
  · rw [if_neg hstack, if_neg fun h => hstack h.1]

/-- A path apart from everything that the stack writes. -/
theorem get_of_mem_stackWrites (ht : t ∈ trace (stackWrites host stack net bridge s) s) {q : Path}
    (hconfig : ∀ p ∈ stack.paths, Apart p q)
    (hdrop : stack = .netplan → netplanDhcpDropin net bridge ≠ [] → Apart (dropInDir bridge) q) :
    t.get q = s.get q := by
  refine of_mem_trace (P := fun u => u.get q = s.get q) (stackWrites_keeps (fun p hp => (hconfig p hp).1)
    (fun hs hne => ?_) fun _ p hp hpre => absurd hpre (hconfig p hp).2) rfl ht
  exact ⟨(hdrop hs hne).1, fun hpre => absurd hpre (hdrop hs hne).2⟩

/-- So is it after `make_bridge`, but for the file of cloud-init. -/
theorem get_of_mem_makeBridge (ht : t ∈ makeBridge host stack net bridge s) {q : Path}
    (hq : q ≠ cloudInitNetOff) (hconfig : ∀ p ∈ stack.paths, Apart p q)
    (hdrop : stack = .netplan → netplanDhcpDropin net bridge ≠ [] → Apart (dropInDir bridge) q) :
    t.get q = s.get q := by
  rcases makeBridge_cases ht with rfl | ⟨_, s₁, h₁, _, ht⟩
  · rfl
  · rw [get_of_mem_stackWrites ht hconfig hdrop, h₁ q hq]

theorem apart_cloudInitNetOff_dropInDir (bridge : Text) : Apart cloudInitNetOff (dropInDir bridge) :=
  apart_dropInDir bridge rfl (by decide)

/-- The file of cloud-init is removed. -/
theorem removeFile_cloudInit (hclean : Clean stack net bridge s)
    (ht : t ∈ makeBridge host stack net bridge s) :
    (t.removeFile cloudInitNetOff).get cloudInitNetOff = s.get cloudInitNetOff := by
  rw [FileTree.get_removeFile]
  rcases makeBridge_cases ht with rfl | ⟨hs, s₁, _, h₁, ht⟩
  · rw [hclean.cloudInit, if_neg]
    rintro ⟨_, hf⟩
    cases hf
  · have hkept := get_of_mem_stackWrites ht (fun p hp => apart_cloudInitNetOff hp)
      fun _ _ => (apart_cloudInitNetOff_dropInDir bridge).symm
    have hnone : s.get cloudInitNetOff = none := by
      cases hc : s.get cloudInitNetOff with
      | none => rfl
      | some v =>
        cases v with
        | dir => exact absurd hc hs
        | file c =>
          have hf := FileTree.isFile_iff.mpr ⟨c, hc⟩
          rw [hclean.cloudInit] at hf
          cases hf
    rw [hnone]
    split
    · rfl
    · rename_i hf
      cases hc : t.get cloudInitNetOff with
      | none => rfl
      | some v =>
        cases v with
        | dir => exact absurd (hkept ▸ hc) h₁
        | file c => exact absurd ⟨rfl, FileTree.isFile_iff.mpr ⟨c, hc⟩⟩ hf

theorem mem_makeBridge_self : s ∈ makeBridge host stack net bridge s := by
  have htrace (ws : List (Write α)) : s ∈ trace ws s := by
    cases ws <;> exact List.mem_cons_self
  unfold makeBridge
  split
  · split <;> exact List.mem_cons_self
  · exact htrace _

/-- **The script undoes** the writes on a clean host. -/
theorem undone_of_clean (hclean : Clean stack net bridge s)
    (ht : t ∈ makeBridge host stack net bridge s) :
    Undone stack bridge s (restore stack net bridge s t) := by
  have hr : ∀ p ∈ stack.paths, Restorable s t p := fun p hp => restorable hclean ht hp
  have hconfig (p : Path) (hp : p ∈ stack.paths) (q : Path) (hq : p <+: q) :
      (restore stack net bridge s t).get q = s.get q := by
    have hdrop : ¬ (stack = .netplan ∧ netplanDhcpDropin net bridge ≠ [] ∧ dropInDir bridge <+: q) := by
      rintro ⟨rfl, _, hd⟩
      obtain rfl := List.mem_singleton.mp hp
      exact (apart_dropInDir bridge (p := netplanDir) rfl (by decide)).not_isPrefix hq hd
    have hne : q ≠ cloudInitNetOff := fun heq => (apart_cloudInitNetOff hp).1 (heq ▸ hq)
    rw [get_restore, if_neg hdrop, FileTree.get_removeFile, if_neg fun h => hne h.1,
      get_restoreConfig hr, if_pos ⟨p, hp, hq⟩]
  have hcloud := apart_cloudInitNetOff_dropInDir bridge
  intro p hp q hq
  rcases List.mem_append.mp hp with hp | hp
  · exact hconfig p hp q hq
  by_cases hin : ∃ p ∈ stack.paths, p <+: q
  · obtain ⟨p, hp, hpq⟩ := hin
    exact hconfig p hp q hpq
  have hkept : ((restoreConfig stack s t).removeFile cloudInitNetOff).get q =
      (t.removeFile cloudInitNetOff).get q := by
    have hc := get_restoreConfig hr cloudInitNetOff
    rw [if_neg] at hc
    · have hf : (restoreConfig stack s t).isFile cloudInitNetOff = t.isFile cloudInitNetOff := by
        unfold FileTree.isFile
        rw [hc]
      rw [FileTree.get_removeFile, FileTree.get_removeFile, hf, get_restoreConfig hr, if_neg hin]
    · rintro ⟨p, hp, hpc⟩
      exact (apart_cloudInitNetOff hp).1 hpc
  simp only [List.mem_cons, List.not_mem_nil, or_false] at hp
  rcases hp with rfl | rfl
  · rw [get_restore, if_neg fun h => hcloud.not_isPrefix hq h.2.2, hkept]
    by_cases hqc : q = cloudInitNetOff
    · rw [hqc]
      exact removeFile_cloudInit hclean ht
    · rw [FileTree.get_removeFile, if_neg fun h => hqc h.1]
      refine get_of_mem_makeBridge ht hqc (fun p hp => ?_) fun _ _ => ?_
      · exact ⟨(apart_cloudInitNetOff hp).symm.not_isPrefix hq,
          fun hqp => (apart_cloudInitNetOff hp).2 (hq.trans hqp)⟩
      · exact ⟨hcloud.not_isPrefix hq, fun hqp => hcloud.1 (hq.trans hqp)⟩
  · rw [get_restore]
    split
    · rename_i h
      have hnone := hclean.dropIn h.1 h.2.1
      by_cases hdq : dropInDir bridge = q
      · rw [← hdq, hnone]
      · rw [FileTree.get_eq_none_of_isPrefix (by rw [hnone]; exact fun hd => by cases hd) hq hdq]
    · rename_i h
      have hqc : q ≠ cloudInitNetOff := fun heq => hcloud.2 (heq ▸ hq)
      rw [hkept, FileTree.get_removeFile, if_neg fun h => hqc h.1]
      refine get_of_mem_makeBridge ht hqc (fun p hp => ⟨fun hpq => hin ⟨p, hp, hpq⟩, fun hqp => ?_⟩)
        fun hs hne => absurd ⟨hs, hne, hq⟩ h
      exact not_dropInDir_prefix hp (hq.trans hqp)

/-- What is there before the writes and is removed all the same. -/
theorem clean_of_undone_self (h : Undone stack bridge s (restore stack net bridge s s)) :
    s.isFile cloudInitNetOff = false ∧
      (stack = .netplan → netplanDhcpDropin net bridge ≠ [] → s.get (dropInDir bridge) = none) := by
  have hr : ∀ p ∈ stack.paths, Restorable s s p := fun p hp =>
    (sameKinds_of_eq fun _ _ => rfl).restorable hp
  constructor
  · have hc := h cloudInitNetOff (List.mem_append_right _ List.mem_cons_self) _ List.prefix_rfl
    have hsame : (restoreConfig stack s s).get cloudInitNetOff = s.get cloudInitNetOff := by
      rw [get_restoreConfig hr]
      split <;> rfl
    rw [get_restore, if_neg fun hd => (apart_cloudInitNetOff_dropInDir bridge).2 hd.2.2,
      FileTree.get_removeFile] at hc
    by_contra hf
    have hf := eq_true_of_ne_false hf
    obtain ⟨c, hcf⟩ := FileTree.isFile_iff.mp hf
    rw [if_pos ⟨rfl, FileTree.isFile_iff.mpr ⟨c, hsame.trans hcf⟩⟩, hcf] at hc
    cases hc
  · intro hs hne
    have hd := h (dropInDir bridge)
      (List.mem_append_right _ (List.mem_cons_of_mem _ List.mem_cons_self)) _ List.prefix_rfl
    rw [get_restore, if_pos ⟨hs, hne, List.prefix_rfl⟩] at hd
    exact hd.symm

/-- Where nothing is in the way, the writes begin from the same files, but for that of cloud-init. -/
theorem exists_trace_subset (host : System α) (stack : Stack) (net : HostNet) (bridge : Text)
    (hc : s.get cloudInitNetOff ≠ some .dir) : ∃ s₁ : FileTree α,
      (∀ q ≠ cloudInitNetOff, s₁.get q = s.get q) ∧
      ∀ t ∈ trace (stackWrites host stack net bridge s₁) s₁, t ∈ makeBridge host stack net bridge s := by
  unfold makeBridge
  split
  · rename_i hd
    obtain ⟨s₁, hw⟩ := FileTree.exists_write (c := host.encode "network: {config: disabled}\n".toList)
      (FileTree.isDir_iff.mp hd) hc
    rw [hw]
    refine ⟨s₁, fun q hq => ?_, fun t ht => List.mem_cons_of_mem _ ht⟩
    rw [FileTree.get_write hw, if_neg hq]
  · exact ⟨s, fun _ _ => rfl, fun t ht => ht⟩

/-- A directory that the writes make. -/
theorem exists_mem_trace_dir {files : List (Path × Text)} {d : Path} {u : FileTree α}
    (hne : files ≠ []) (hd : ∀ f ∈ files, f.1.dropLast = d) (hu : s.makeDirs d = some u) :
    u ∈ trace (writeFiles host files) s := by
  unfold writeFiles
  cases he : (Obj.empty.assign files).entries with
  | nil =>
    obtain ⟨f, fs, rfl⟩ := List.exists_cons_of_ne_nil hne
    have hk : f.1 ∈ (Obj.empty.assign (f :: fs)).keys :=
      Obj.mem_keys_assign (List.mem_map_of_mem List.mem_cons_self)
    rw [Obj.keys, he] at hk
    cases hk
  | cons f fs =>
    obtain ⟨g, hg, hgf⟩ := List.mem_map.mp (mem_of_mem_assign (he ▸ List.mem_cons_self : f ∈ _))
    have ha : attempt (fun s : FileTree α => s.makeDirs f.1.dropLast) s = (u, true) := by
      unfold attempt
      dsimp only
      rw [← hgf, hd g hg, hu]
    rw [List.flatMap_cons, List.cons_append, trace, ha, if_pos rfl]
    refine List.mem_cons_of_mem _ ?_
    rw [List.cons_append, trace]
    exact List.mem_cons_self

/-- A directory that is made is left. -/
theorem config_of_undone
    (h : ∀ t ∈ makeBridge host stack net bridge s, Undone stack bridge s (restore stack net bridge s t))
    (hstack : stack = .wicked ∨ stack = .systemdNetworkd) {p : Path} (hp : p ∈ stack.paths) :
    s.get p ≠ none ∨ s.makeDirs p = none ∨ s.get cloudInitNetOff = some .dir := by
  by_contra hcon
  push Not at hcon
  obtain ⟨hnone, hmake, hcloud⟩ := hcon
  have hapart := apart_cloudInitNetOff hp
  obtain ⟨s₁, h₁, hsub⟩ := exists_trace_subset host stack net bridge hcloud
  obtain ⟨d, files, hpaths, hfiles, hne, heq⟩ := stackWrites_eq_writeFiles host net bridge s₁ hstack
  rw [hpaths] at hp
  obtain rfl := List.mem_singleton.mp hp
  have hp₁ : s₁.get p = none := by
    rw [h₁ p fun heq => hapart.1 (heq ▸ List.prefix_rfl), hnone]
  cases hu : s₁.makeDirs p with
  | none =>
    obtain ⟨q, hq, hf⟩ := FileTree.makeDirs_eq_none_iff.mp hu
    refine hmake (FileTree.makeDirs_eq_none_iff.mpr ⟨q, hq, ?_⟩)
    rw [FileTree.isFile_iff, ← h₁ q fun heq => hapart.2 (heq ▸ hq)]
    exact FileTree.isFile_iff.mp hf
  | some u =>
    have hut := hsub u (heq ▸ exists_mem_trace_dir (hne hp₁) hfiles hu)
    have hback := h u hut p (List.mem_append_left _ (hpaths ▸ List.mem_cons_self)) p List.prefix_rfl
    have hline : restoreConfig stack s u = u := by
      unfold restoreConfig
      rw [hpaths]
      have hdir : ¬ s.isDir p = true := fun hd => by
        rw [FileTree.isDir_iff, hnone] at hd
        cases hd
      show restorePath s u (p, 0) = u
      unfold restorePath
      rw [dif_neg hdir]
      dsimp only
      rw [hnone]
    have hnet : stack ≠ .netplan := by
      rintro rfl
      rcases hstack with hs | hs <;> cases hs
    have hpc : p ≠ cloudInitNetOff := fun heq => hapart.1 (heq ▸ List.prefix_rfl)
    rw [get_restore, if_neg fun hn => hnet hn.1, hline, FileTree.get_removeFile,
      if_neg fun hn => hpc hn.1, FileTree.get_makeDirs hu,
      if_pos List.prefix_rfl, hnone] at hback
    cases hback

/-- **The restore script gives every file back**, whichever writes were done, exactly when the host is
clean. -/
theorem undone_iff (host : System α) (stack : Stack) (net : HostNet) (bridge : Text) (s : FileTree α) :
    (∀ t ∈ makeBridge host stack net bridge s, Undone stack bridge s (restore stack net bridge s t)) ↔
      Clean stack net bridge s := by
  constructor
  · intro h
    obtain ⟨h₁, h₂⟩ := clean_of_undone_self (h s mem_makeBridge_self)
    exact ⟨h₁, h₂, fun hs p hp => config_of_undone h hs hp⟩
  · intro hclean t ht
    exact undone_of_clean hclean ht

/-! ## A second bridge -/

/-- A host whose files are its text. -/
def textHost : System Text where
  decode := some
  encode := id
  isWord := Char.isAlphanum
  netplanGet _ := none
  netplanSet _ s := (s, true)
  netplanSet_frame _ _ _ _ := rfl

/-- A NIC with a fixed address. -/
def eth1 : HostNet :=
  ⟨"eth1".toList, "52:54:00:00:00:02".toList, "10.0.1.2/24".toList, "10.0.1.1".toList, false, [], [], []⟩

/-- A host with wicked on which an earlier bridge left the file of cloud-init. -/
def bridgedHost : FileTree Text :=
  let s := (FileTree.empty.makeDirs wickedDir).getD FileTree.empty
  let s := (s.makeDirs cloudInitNetOff.dropLast).getD s
  (s.write cloudInitNetOff "network: {config: disabled}\n".toList).getD s

/-- **The file of the earlier bridge is gone** once the script has run. -/
theorem second_bridge_not_undone : ¬ ∀ t ∈ makeBridge textHost .wicked eth1 "br1".toList bridgedHost,
    Undone .wicked "br1".toList bridgedHost (restore .wicked eth1 "br1".toList bridgedHost t) := by
  intro h
  have hf := (clean_of_undone_self (h bridgedHost mem_makeBridge_self)).1
  have ht : bridgedHost.isFile cloudInitNetOff = true := by decide
  rw [ht] at hf
  cases hf

end LabInABox.Host.Bridge
