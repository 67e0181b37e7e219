import LabInABox.Dns.Address
import LabInABox.Ipv4
import LabInABox.Keyed

/-!
# Picking the address of a node

Model of `libs/ipalloc.py` (`lab_network`, `definition_ips`, `dns_ips`, `dns_address`, `candidates`,
`allocate`), for IPv4 labs.

* `Definition` is what the allocator reads of a lab definition: a field is the text `str(value or "")`
  gives, a node the text of its `myip`, `none` when the node's value is null. Node names are distinct.
* `Host` is what the allocator asks the machine it runs on: the zone files, the resolver, its own
  addresses, the digest of a text, and two predicates of Python's library that the model leaves open
  (which texts are IPv6 addresses, which characters are word characters).
* `Failure` names the ways a run ends: the message that no address could be allocated, the exception
  for a registered text that is no address, the exception for a node whose value is null.

Results:
* `mem_definitionIps_of_gateway`, `mem_definitionIps_of_dns`, `mem_definitionIps_of_node`: an address
  the definition pins down is among those ruled out.
* `allocate_cases`: an allocated address is the registered one, inside the network, or a host address
  outside everything ruled out (`Searched`).
-/

namespace LabInABox.Ipalloc

open Text Ipv4 Dns

/-! ## What is read -/

/-- The common section of a definition. -/
structure Common where
  mygw : Text
  mymask : Text
  mydns : Text
  mydomain : Text
  deriving DecidableEq

/-- A lab definition, as far as addresses go. -/
structure Definition where
  common : Common
  nodes : List (Text × Option Text)
  nodup : (nodes.map Prod.fst).Nodup
  deriving DecidableEq

/-- What the allocator asks its machine. -/
structure Host where
  /-- The forward zone of a domain, when its file can be read. -/
  zone : Text → Option Text
  /-- `socket.gethostbyname`. -/
  resolve : Text → Option Text
  localIps : List Text
  /-- The first eight bytes of the SHA-256 digest, as a number. -/
  digest : Text → Nat
  isIpv6 : Text → Bool
  isWord : Char → Bool

/-- How an allocation ends without an answer. -/
inductive Failure
  | noAddress
  | badAddress
  | noConfig
  deriving DecidableEq

namespace Definition

/-- `str((nodes.get(name) or {}).get("myip") or "").strip()`. -/
def myip (d : Definition) (name : Text) : Text := strip (((d.nodes.lookup name).getD none).getD [])

/-- The node's value is null. -/
def isNull (d : Definition) (name : Text) : Bool := d.nodes.lookup name == some none

/-- `definition["nodes"][name]["myip"] = ip`. -/
def setMyip (d : Definition) (name ip : Text) : Definition where
  common := d.common
  nodes := setValue d.nodes name (some ip)
  nodup := by
    rw [map_fst_setValue]
    exact d.nodup

end Definition

/-! ## Addresses in a text -/

/-- `re.fullmatch` of `\b(?:\d{1,3}\.){3}\d{1,3}\b`. -/
def isAddressText (t : Text) : Bool :=
  (t.splitOn '.').length = 4 && (t.splitOn '.').all fun part =>
    part ≠ [] && part.length ≤ 3 && part.all isDecimal

/-- `\b` between two characters, `none` beyond an end of the text. -/
def boundary (isWord : Char → Bool) (before after : Option Char) : Bool :=
  (before.any isWord) != (after.any isWord)

/-- One to three digits, all there are, and what follows them. -/
def digitGroup (t : Text) : Option (Text × Text) :=
  let ds := t.takeWhile isDecimal
  if ds ≠ [] ∧ ds.length ≤ 3 then some (ds, t.drop ds.length) else none

/-- `(?:\d{1,3}\.){n}\d{1,3}\b` at the start of a text: what it matches. A run of digits has to be
matched whole, as neither a dot nor a boundary comes within it. -/
def addressAt (isWord : Char → Bool) : Nat → Text → Option Text
  | 0, t => do
    let (ds, rest) ← digitGroup t
    if boundary isWord ds.getLast? rest.head? then some ds else none
  | n + 1, t => do
    let (ds, rest) ← digitGroup t
    match rest with
    | '.' :: rest => (addressAt isWord n rest).map fun m => ds ++ '.' :: m
    | _ => none

/-- `re.findall` of the same expression. `skip` counts what is left of the last match. -/
def findAddresses (isWord : Char → Bool) (before : Option Char) (skip : Nat) : Text → List Text
  | [] => []
  | c :: cs =>
    match skip with
    | skip + 1 => findAddresses isWord (some c) skip cs
    | 0 =>
      match if boundary isWord before (some c) then addressAt isWord 3 (c :: cs) else none with
      | some m => m :: findAddresses isWord (some c) (m.length - 1) cs
      | none => findAddresses isWord (some c) 0 cs

/-- `re.search(r"\bIN\s+A\b", line)`. -/
def marksAddress (isWord : Char → Bool) (before : Option Char) : Text → Bool
  | [] => false
  | c :: cs =>
    (boundary isWord before (some c) && inA (c :: cs)) || marksAddress isWord (some c) cs
where
  /-- `IN\s+A\b` at the start of a text. -/
  inA : Text → Bool
    | 'I' :: 'N' :: rest =>
      match rest.takeWhile isSpace, rest.dropWhile isSpace with
      | _ :: _, 'A' :: after => boundary isWord (some 'A') after.head?
      | _, _ => false
    | _ => false

/-! ## The sources -/

/-- `lab_network(common)`. -/
def labNetwork (c : Common) : Option Network :=
  if strip c.mygw = [] ∨ strip c.mymask = [] then none
  else ipNetwork false (strip c.mygw ++ '/' :: strip c.mymask)

/-- `value.replace(",", " ").split()`. -/
def addressWords (value : Text) : List Text := fields (value.map fun c => if c = ',' then ' ' else c)

/-- `definition_ips(definition)`. -/
def definitionIps (d : Definition) : List Text :=
  (addressWords d.common.mygw ++ addressWords d.common.mydns ++
    (d.nodes.map fun n => strip (n.2.getD [])).filter (· ≠ [])).filter isAddressText

/-- `dns_ips(mydomain)`. -/
def dnsIps (host : Host) (mydomain : Text) : List Text :=
  if mydomain = [] then []
  else match host.zone mydomain with
    | none => []
    | some text => ((splitlines text).filter (marksAddress host.isWord none)).flatMap
      (findAddresses host.isWord none 0)

/-- A line of a zone file that `dns_address` takes for an A record of a short name. -/
def isARecord (short line : Text) : Bool :=
  4 ≤ (fields line).length && (fields line).head? == some short &&
    (fields line).reverse[1]? == some ['A']

/-- The zone lines `dns_address` takes for A records of a short name, in their order. -/
def aRecords (short text : Text) : List Text := (splitlines text).filter (isARecord short)

/-- `dns_address(vm_name, mydomain)`. -/
def dnsAddress (host : Host) (vmName mydomain : Text) : Text :=
  let short := shortName vmName
  let found := if short ≠ [] ∧ mydomain ≠ [] then
      (host.zone mydomain).bind fun text => (aRecords short text).head?
    else none
  match found with
  | some line => lastField line
  | none => (host.resolve vmName).getD []

/-- `str(network)`. -/
def renderNetwork (net : Network) : Text := render net.base ++ '/' :: Nat.toDigits 10 net.prefixLen

/-- `candidates(vm_name, network)`. -/
def candidates (host : Host) (vmName : Text) (net : Network) : List Text :=
  let start := host.digest (vmName ++ '@' :: renderNetwork net) % net.hosts.length
  (net.hosts.drop start ++ net.hosts.take start).map render

/-! ## The allocator -/

/-- `registered and ipaddress.ip_address(registered) in network`. -/
def isRegisteredIn (host : Host) (net : Network) (registered : Text) : Except Failure Bool :=
  if registered = [] then .ok false
  else match parse registered with
    | some a => .ok (net.contains a)
    | none => if host.isIpv6 registered = true then .ok false else .error .badAddress

/-- What the search rules out, for a node: `taken`. -/
def taken (host : Host) (vmName : Text) (d : Definition) (used : List Text) (mydomain : Text) :
    List Text :=
  (used ++ definitionIps d ++ dnsIps host mydomain ++ host.localIps).filter
    (· ≠ ((d.nodes.lookup vmName).getD none).getD [])

/-- `mydomain or str(common.get("mydomain") or "")`. -/
def domainOf (d : Definition) (mydomain : Text) : Text :=
  if mydomain = [] then d.common.mydomain else mydomain

/-- `allocate(vm_name, definition, used, mydomain, probe)`; `ping` says which addresses answer. -/
def allocate (host : Host) (ping : Text → Bool) (vmName : Text) (d : Definition) (used : List Text)
    (mydomain : Text) (probe : Bool) : Except Failure (Option Text) :=
  match labNetwork d.common with
  | none => .ok none
  | some net =>
    let registered := dnsAddress host vmName (domainOf d mydomain)
    match isRegisteredIn host net registered with
    | .error e => .error e
    | .ok true => .ok (some registered)
    | .ok false =>
      -- `.get(vm_name, {}).get("myip")` of a node whose value is null
      if d.isNull vmName = true then .error .noConfig
      else .ok ((candidates host vmName net).find? fun candidate =>
        candidate ∉ taken host vmName d used (domainOf d mydomain) && !(probe && ping candidate))

/-! ## What is ruled out -/

section RuledOut

variable {d : Definition} {a : Nat}

theorem isAddressText_render (a : Nat) : isAddressText (render a) = true := by
  have hoctet : ∀ n < 256, (Nat.toDigits 10 n ≠ [] && (Nat.toDigits 10 n).length ≤ 3 &&
      (Nat.toDigits 10 n).all isDecimal) = true := by decide +kernel
  rw [isAddressText, splitOn_render, Bool.and_eq_true, List.all_map, List.all_eq_true]
  refine ⟨rfl, fun n hn => hoctet n ?_⟩
  simp only [octets, List.mem_cons, List.not_mem_nil, or_false] at hn
  omega

theorem render_ne_nil (a : Nat) : render a ≠ [] := (isField_render a).1

theorem comma_not_mem_render (a : Nat) : ',' ∉ render a := by
  intro h
  simp only [render, octets, List.map_cons, List.map_nil, List.intercalate_cons_cons,
    List.intercalate_singleton, List.mem_append, List.mem_singleton] at h
  have hd : ∀ n, ',' ∈ Nat.toDigits 10 n → False := fun n hm =>
    absurd (Nat.isDigit_of_mem_toDigits (by decide) (by decide) hm) (by decide)
  rcases h with (h | h) | (h | h) | (h | h) | h
  all_goals first
    | exact hd _ h
    | exact absurd h (by decide)

/-- A value that is one address has it as its only word. -/
theorem addressWords_of_strip {v : Text} (h : strip v = render a) : addressWords v = [render a] := by
  have hfields : fields v = [render a] := by
    rw [← fields_strip, h]
    exact fieldsBy_of_isField (isField_render a)
  have hflat : v.filter (fun c => !isSpace c) = render a := by
    rw [← fieldsBy_flatten]
    change (fields v).flatten = _
    rw [hfields, List.flatten_singleton]
  have hcomma : ',' ∉ v := by
    intro hm
    have : ',' ∈ v.filter (fun c => !isSpace c) := List.mem_filter.mpr ⟨hm, by decide⟩
    rw [hflat] at this
    exact comma_not_mem_render a this
  have hmap : (v.map fun c => if c = ',' then ' ' else c) = v := by
    refine (List.map_congr_left fun c hc => ?_).trans (List.map_id _)
    have hne : c ≠ ',' := by
      rintro rfl
      exact hcomma hc
    rw [if_neg hne]
    rfl
  rw [addressWords, hmap, hfields]

theorem mem_definitionIps_of_gateway (h : strip d.common.mygw = render a) :
    render a ∈ definitionIps d := by
  unfold definitionIps
  rw [List.mem_filter, addressWords_of_strip h]
  exact ⟨by simp, isAddressText_render a⟩

theorem mem_definitionIps_of_dns (h : render a ∈ addressWords d.common.mydns) :
    render a ∈ definitionIps d := by
  unfold definitionIps
  rw [List.mem_filter]
  exact ⟨by simp [h], isAddressText_render a⟩

theorem mem_definitionIps_of_node {name : Text} (h : d.myip name = render a) :
    render a ∈ definitionIps d := by
  unfold definitionIps
  have hne := render_ne_nil a
  rw [List.mem_filter, List.mem_append, List.mem_filter, List.mem_map]
  refine ⟨Or.inr ⟨?_, by simpa using hne⟩, isAddressText_render a⟩
  unfold Definition.myip at h
  cases hl : d.nodes.lookup name with
  | none =>
    rw [hl] at h
    exact absurd h.symm (render_ne_nil a)
  | some v =>
    rw [hl] at h
    obtain ⟨l₁, l₂, hsplit, _⟩ := List.lookup_eq_some_iff.mp hl
    exact ⟨(name, v), by rw [hsplit]; simp, h⟩

/-- A node without an address keeps none out of what is taken. -/
theorem render_ne_own {vmName : Text} (hown : d.myip vmName = []) :
    render a ≠ ((d.nodes.lookup vmName).getD none).getD [] := fun he => by
  have hs : strip (render a) = [] := by rw [he]; exact hown
  have hf := isField_render a
  rw [strip_eq_nil_iff] at hs
  obtain ⟨c, cs, hc⟩ := List.exists_cons_of_ne_nil hf.1
  have hmem : c ∈ render a := by rw [hc]; exact List.mem_cons_self
  exact absurd (hs c hmem) (by rw [hf.2 c hmem]; decide)

theorem mem_taken {host : Host} {vmName : Text} {used : List Text} {mydomain : Text}
    (hown : d.myip vmName = [])
    (h : render a ∈ used ∨ render a ∈ definitionIps d ∨ render a ∈ host.localIps) :
    render a ∈ taken host vmName d used mydomain := by
  unfold taken
  rw [List.mem_filter]
  refine ⟨?_, decide_eq_true (render_ne_own hown)⟩
  simp only [List.mem_append]
  tauto

theorem mem_taken_of_dnsIps {host : Host} {vmName : Text} {used : List Text} {mydomain : Text}
    (hown : d.myip vmName = []) (h : render a ∈ dnsIps host mydomain) :
    render a ∈ taken host vmName d used mydomain := by
  unfold taken
  rw [List.mem_filter]
  refine ⟨?_, decide_eq_true (render_ne_own hown)⟩
  simp only [List.mem_append]
  tauto

end RuledOut

/-! ## What is handed out -/

theorem mem_candidates {host : Host} {vmName ip : Text} {net : Network} :
    ip ∈ candidates host vmName net ↔ ∃ a ∈ net.hosts, render a = ip := by
  unfold candidates
  simp only [List.mem_map, List.mem_append]
  have hsplit : ∀ k a, (a ∈ net.hosts.drop k ∨ a ∈ net.hosts.take k) ↔ a ∈ net.hosts := fun k a => by
    rw [or_comm, ← List.mem_append, List.take_append_drop]
  simp only [hsplit]

/-- **An allocated address** is the registered one, inside the network, or a candidate that is not
ruled out. -/
theorem allocate_cases {host : Host} {ping : Text → Bool} {vmName : Text} {d : Definition}
    {used : List Text} {mydomain : Text} {probe : Bool} {ip : Text}
    (h : allocate host ping vmName d used mydomain probe = .ok (some ip)) :
    ∃ net, labNetwork d.common = some net ∧
      (ip = dnsAddress host vmName (domainOf d mydomain) ∧ isRegisteredIn host net ip = .ok true ∨
        isRegisteredIn host net (dnsAddress host vmName (domainOf d mydomain)) = .ok false ∧
          ip ∈ candidates host vmName net ∧
          ip ∉ taken host vmName d used (domainOf d mydomain)) := by
  unfold allocate at h
  cases hnet : labNetwork d.common with
  | none => simp [hnet] at h
  | some net =>
    refine ⟨net, rfl, ?_⟩
    simp only [hnet] at h
    cases hreg : isRegisteredIn host net (dnsAddress host vmName (domainOf d mydomain)) with
    | error e => simp [hreg] at h
    | ok b =>
      simp only [hreg] at h
      cases b with
      | true =>
        obtain rfl := Option.some.inj (Except.ok.inj h)
        exact Or.inl ⟨rfl, hreg⟩
      | false =>
        simp only at h
        split at h
        · exact absurd h (by simp)
        · have hfind := Except.ok.inj h
          have hp := List.find?_some hfind
          rw [Bool.and_eq_true, decide_eq_true_eq] at hp
          exact Or.inr ⟨rfl, List.mem_of_find?_eq_some hfind, hp.1⟩

theorem isRegisteredIn_iff {host : Host} {net : Network} {registered : Text} :
    isRegisteredIn host net registered = .ok true ↔
      ∃ a, parse registered = some a ∧ net.contains a = true := by
  unfold isRegisteredIn
  by_cases hnil : registered = []
  · subst hnil
    simp [parse_nil]
  · rw [if_neg hnil]
    cases hp : parse registered with
    | none => by_cases h6 : host.isIpv6 registered = true <;> simp [h6]
    | some a => simp

end LabInABox.Ipalloc
