import LabInABox.Ipalloc.Allocate

/-!
# The address of a node on the next run

What `allocate` (`libs/ipalloc.py`) gives a node when it is asked again, after `add_to_dns`
(`libs/services.py`) wrote the node's record into the lab's zone and any records of the lab's other
nodes.

* `Surroundings` is everything one run asks outside the zone and the definition: the two runs share
  none of it. The node's own record is written without `replace`: only a cloud node replaces its
  records, and its address is not allocated.
* `Stable` is the property of the two runs, over every sequence of records of the other nodes and any
  surroundings of the second run. `Steady` is a condition on what the first run finds.

Results:
* `allocateOver_of_first`, `first_of_allocateOver`: the second run answers with the address of the first
  zone record of the short name, and nothing else makes it answer the same in any surroundings.
* `allocate_stable_iff`: the address is stable exactly when the zone is `Steady` for the node.
* `older_record_moves_node`: an older record outside the network.
-/

namespace LabInABox.Ipalloc

open Text Ipv4 Dns

/-! ## Two runs -/

/-- What a run asks outside the zone and the definition. -/
structure Surroundings where
  host : Host
  ping : Text → Bool
  used : List Text
  probe : Bool

/-- `allocate` when the lab's zone holds this text. -/
def allocateOver (r : Surroundings) (zone vmName : Text) (d : Definition) :
    Except Failure (Option Text) :=
  allocate { r.host with zone := Function.update r.host.zone d.common.mydomain (some zone) } r.ping
    vmName d r.used [] r.probe

/-- A call of `add_to_dns`. -/
structure DnsCall where
  vmName : Text
  myip : Text
  replace : Bool

/-- The zone after a call. -/
def DnsCall.run (zone : Text) (c : DnsCall) : Text := addToDns c.vmName c.myip c.replace zone

/-- The zone after the node's own record and further calls. -/
def zoneAfter (zone vmName ip : Text) (calls : List DnsCall) : Text :=
  calls.foldl DnsCall.run (addToDns vmName ip false zone)

variable (d : Definition) (replaces : Text → Bool) (vmName : Text)

/-- A call for another node of the lab, with an address; `replaces` says whose records replace. -/
def OfOther (c : DnsCall) : Prop :=
  c.vmName ∈ d.nodes.map Prod.fst ∧ c.vmName ≠ vmName ∧ (parse c.myip).isSome = true ∧
    (c.replace = true → replaces c.vmName = true)

/-- **The address is stable**: over any zone that further calls for other nodes lead to, and whatever
the second run finds outside it, the answer is the same. -/
def Stable (zone ip : Text) : Prop :=
  ∀ calls, (∀ c ∈ calls, OfOther d replaces vmName c) → ∀ r,
    allocateOver r (zoneAfter zone vmName ip calls) vmName d = .ok (some ip)

/-! ## The condition -/

/-- An address inside the lab's network. -/
def inLab (c : Common) (ip : Text) : Bool :=
  (labNetwork c).any fun net => (parse ip).any net.contains

/-- Another node with the same short name replaces its records. -/
def Shared : Prop :=
  ∃ n ∈ d.nodes, n.1 ≠ vmName ∧ replaces n.1 = true ∧ shortName n.1 = shortName vmName

/-- Some record of the name is one that a replacement leaves, and it and the address records before it
point where the first one does. -/
def Anchored (short : Text) (ls : List Text) : Prop :=
  ∃ kept ∈ (ls.dropWhile (isReplaced short)).head?, lastField kept = lastField (ls.headD []) ∧
    ∀ l ∈ ls.takeWhile (isReplaced short),
      (parse (lastField l)).isSome = true → lastField l = lastField (ls.headD [])

/-- **What the first run has to find**: a domain, a short name that is one word, no record of that name
or one inside the lab's network in front, and, when another node with the name replaces its records, one
that stays. -/
structure Steady (zone : Text) : Prop where
  domain : d.common.mydomain ≠ []
  name : IsField isSpace (shortName vmName)
  first : ∀ l ∈ (aRecords (shortName vmName) zone).head?, inLab d.common (lastField l) = true
  anchored : Shared d replaces vmName → Anchored (shortName vmName) (aRecords (shortName vmName) zone)

instance : Decidable (Shared d replaces vmName) := inferInstanceAs (Decidable (∃ n ∈ d.nodes, _))

instance (short : Text) (ls : List Text) : Decidable (Anchored short ls) :=
  inferInstanceAs (Decidable (∃ kept ∈ _, _ ∧ _))

/-! ## The records of a name -/

section Records

variable {short zone : Text}

theorem isField_of_isARecord {l : Text} (h : isARecord short l = true) : IsField isSpace short := by
  unfold isARecord at h
  simp only [Bool.and_eq_true, beq_iff_eq] at h
  exact isField_of_mem_fieldsBy (List.mem_of_mem_head? h.1.2)

/-- A replacement for another name leaves the records of this one. -/
theorem isReplaced_of_ne {l other : Text} (h : isARecord short l = true) (hne : other ≠ short) :
    isReplaced other l = false := by
  unfold isARecord at h
  simp only [Bool.and_eq_true, beq_iff_eq] at h
  unfold isReplaced
  rw [Bool.and_eq_false_iff]
  refine Or.inl (beq_eq_false_iff_ne.mpr fun he => ?_)
  have hhead := congrArg List.head? he
  rw [List.head?_take, if_neg (by decide), h.1.2] at hhead
  exact hne (Option.some.inj hhead).symm

theorem aRecords_dnsAddLine (short zone record : Text) :
    ∃ tail, aRecords short (dnsAddLine record zone) = aRecords short zone ++ tail ∧
      (OneLine record → isARecord short record = true →
        record ∈ aRecords short (dnsAddLine record zone) ∧ ∀ l ∈ tail, l = record) := by
  obtain ⟨tail, htail, hone⟩ := splitlines_dnsAddLine record zone
  refine ⟨tail.filter (isARecord short), ?_, fun h hr => ⟨?_, fun l hl => ?_⟩⟩
  · unfold aRecords
    rw [htail, List.filter_append]
  · exact List.mem_filter.mpr ⟨(hone h).1, hr⟩
  · exact (hone h).2 l (List.mem_filter.mp hl).1

theorem aRecords_dnsRemoveOtherA (other keepIp : Text) :
    aRecords short (dnsRemoveOtherA other keepIp zone) =
      (aRecords short zone).filter fun l => !(isReplaced other l && lastField l != keepIp) := by
  unfold aRecords
  rw [splitlines_dnsRemoveOtherA]
  split
  · rename_i hk
    rw [List.filter_comm, hk]
    rfl
  · rw [List.filter_comm]

variable {ip : Text}

theorem isARecord_aRecord (hs : IsField isSpace short) (hi : IsField isSpace ip) :
    isARecord short (aRecord short ip) = true := by
  unfold isARecord
  rw [fields_aRecord hs hi]
  simp

theorem isReplaced_aRecord (hs : IsField isSpace short) (hi : IsField isSpace ip) :
    isReplaced short (aRecord short ip) = true := by
  unfold isReplaced
  rw [fields_aRecord hs hi]
  simp

theorem lastField_aRecord (hs : IsField isSpace short) (hi : IsField isSpace ip) :
    lastField (aRecord short ip) = ip := by
  unfold lastField
  rw [fields_aRecord hs hi]
  rfl

end Records

/-! ## One run over a zone -/

section OneRun

variable {d} {vmName} {r : Surroundings} {zone ip : Text}

/-- The address of the first record of the node's short name. -/
def firstAddress (vmName zone : Text) : Option Text :=
  (aRecords (shortName vmName) zone).head?.map lastField

theorem dnsAddress_update (hdom : d.common.mydomain ≠ []) (hshort : shortName vmName ≠ []) {l : Text}
    (hl : (aRecords (shortName vmName) zone).head? = some l) (host : Host) :
    dnsAddress { host with zone := Function.update host.zone d.common.mydomain (some zone) } vmName
      d.common.mydomain = lastField l := by
  unfold dnsAddress
  simp [hdom, hshort, hl]

theorem inLab_iff {c : Common} : inLab c ip = true ↔
    ∃ net, labNetwork c = some net ∧ ∀ host, isRegisteredIn host net ip = .ok true := by
  unfold inLab
  simp only [isRegisteredIn_iff, Option.any_eq_true]
  constructor
  · rintro ⟨net, hnet, x, hx, hin⟩
    exact ⟨net, hnet, fun _ => ⟨x, hx, hin⟩⟩
  · rintro ⟨net, hnet, h⟩
    obtain ⟨x, hx, hin⟩ := h ⟨fun _ => none, fun _ => none, [], fun _ => 0, fun _ => false, fun _ => false⟩
    exact ⟨net, hnet, x, hx, hin⟩

/-- **The first record answers**, when it is inside the lab's network. -/
theorem allocateOver_of_first (hdom : d.common.mydomain ≠ []) (hshort : shortName vmName ≠ [])
    (hfirst : firstAddress vmName zone = some ip) (hin : inLab d.common ip = true)
    (r : Surroundings) : allocateOver r zone vmName d = .ok (some ip) := by
  obtain ⟨net, hnet, hreg⟩ := inLab_iff.mp hin
  obtain ⟨l, hl, rfl⟩ := Option.map_eq_some_iff.mp hfirst
  unfold allocateOver allocate
  have hdomain : domainOf d [] = d.common.mydomain := rfl
  simp only [hnet, hdomain, dnsAddress_update hdom hshort hl, hreg]

/-- An allocated address is inside the lab's network. -/
theorem inLab_of_allocateOver (h : allocateOver r zone vmName d = .ok (some ip)) :
    inLab d.common ip = true := by
  obtain ⟨net, hnet, hcases⟩ := allocate_cases h
  rw [inLab_iff]
  refine ⟨net, hnet, fun host => isRegisteredIn_iff.mpr ?_⟩
  rcases hcases with ⟨_, hreg⟩ | ⟨_, hcand, _⟩
  · exact isRegisteredIn_iff.mp hreg
  · obtain ⟨x, hx, rfl⟩ := mem_candidates.mp hcand
    exact ⟨x, parse_render (net.lt_space_of_mem_hosts hx), (net.mem_hosts_iff.mp hx).1⟩

/-- A run whose resolver is silent and whose backend reports the address in use. -/
def Surroundings.taking (r : Surroundings) (ip : Text) : Surroundings :=
  { r with host := { r.host with resolve := fun _ => none }, used := [ip] }

/-- **Nothing else answers alike everywhere**: where the address is in use and the resolver is silent,
it can only come from the first record. -/
theorem first_of_allocateOver (hmyip : d.myip vmName = [])
    (h : allocateOver (r.taking ip) zone vmName d = .ok (some ip)) :
    d.common.mydomain ≠ [] ∧ firstAddress vmName zone = some ip := by
  obtain ⟨net, hnet, hcases⟩ := allocate_cases h
  rcases hcases with ⟨hip, hreg⟩ | ⟨_, hcand, hfree⟩
  · obtain ⟨x, hx, _⟩ := isRegisteredIn_iff.mp hreg
    have hne : ip ≠ [] := by
      rintro rfl
      rw [parse_nil] at hx
      exact absurd hx (by simp)
    have hdomain : domainOf d [] = d.common.mydomain := rfl
    rw [hdomain, dnsAddress] at hip
    by_cases hd : shortName vmName ≠ [] ∧ d.common.mydomain ≠ []
    · refine ⟨hd.2, ?_⟩
      simp only [if_pos hd, Function.update_self, Option.bind_some] at hip
      unfold firstAddress
      cases hl : (aRecords (shortName vmName) zone).head? with
      | none =>
        rw [hl] at hip
        exact absurd hip hne
      | some l =>
        rw [hl] at hip
        rw [hip]
        rfl
    · simp only [if_neg hd] at hip
      exact absurd hip hne
  · obtain ⟨x, _, rfl⟩ := mem_candidates.mp hcand
    exact absurd (mem_taken hmyip (Or.inl List.mem_cons_self)) hfree

end OneRun

/-! ## From call to call -/

section Calls

variable {d} {replaces} {vmName} {zone ip : Text}

/-- The records of the name as they stand between the runs: the first one has the address, and when
another node with the name replaces its records, a record with the address stays in front. -/
structure Fronted (d : Definition) (replaces : Text → Bool) (vmName ip : Text) (ls : List Text) :
    Prop where
  first : ls.head?.map lastField = some ip
  stays : Shared d replaces vmName → ∃ pre kept post, ls = pre ++ kept :: post ∧
    (∀ l ∈ pre, isReplaced (shortName vmName) l = true ∧
      ((parse (lastField l)).isSome = true → lastField l = ip)) ∧
    isReplaced (shortName vmName) kept = false ∧ lastField kept = ip

theorem Fronted.append {ls : List Text} (h : Fronted d replaces vmName ip ls) (tail : List Text) :
    Fronted d replaces vmName ip (ls ++ tail) := by
  refine ⟨?_, fun hs => ?_⟩
  · rw [List.head?_append_of_ne_nil]
    · exact h.first
    · rintro rfl
      exact absurd h.first (by simp)
  · obtain ⟨pre, kept, post, rfl, hpre, hkept⟩ := h.stays hs
    exact ⟨pre, kept, post ++ tail, by simp, hpre, hkept⟩

/-- A replacement for another node leaves the address in front. -/
theorem Fronted.replaced {ls : List Text} (h : Fronted d replaces vmName ip ls)
    (hls : ∀ l ∈ ls, isARecord (shortName vmName) l = true) {c : DnsCall}
    (hc : OfOther d replaces vmName c) (hrep : c.replace = true) :
    Fronted d replaces vmName ip
      (ls.filter fun l => !(isReplaced (shortName c.vmName) l && lastField l != c.myip)) := by
  obtain ⟨hin, hne, hip, hreplaces⟩ := hc
  by_cases hshort : shortName c.vmName = shortName vmName
  · -- the same name: what stands before the record that stays has the address or goes
    obtain ⟨n, hn, hname⟩ := List.mem_map.mp hin
    have hshared : Shared d replaces vmName :=
      ⟨n, hn, by rw [hname]; exact hne, by rw [hname]; exact hreplaces hrep, by rw [hname]; exact hshort⟩
    obtain ⟨pre, kept, post, rfl, hpre, hkept, hlast⟩ := h.stays hshared
    rw [hshort, List.filter_append, List.filter_cons_of_pos (by simp [hkept])]
    have hgone : ∀ l ∈ pre.filter (fun l => !(isReplaced (shortName vmName) l && lastField l != c.myip)),
        lastField l = ip := by
      intro l hl
      obtain ⟨hl, hkeep⟩ := List.mem_filter.mp hl
      obtain ⟨hr, hval⟩ := hpre l hl
      have he : lastField l = c.myip := by simpa [hr] using hkeep
      exact hval (by rw [he]; exact hip)
    refine ⟨?_, fun _ => ⟨_, kept, _, rfl, fun l hl => ?_, hkept, hlast⟩⟩
    · cases hf : pre.filter (fun l => !(isReplaced (shortName vmName) l && lastField l != c.myip)) with
      | nil => simp [hlast]
      | cons l ls =>
        have := hgone l (by rw [hf]; exact List.mem_cons_self)
        simp [this]
    · exact hpre l (List.mem_filter.mp hl).1
  · -- another name: nothing goes
    have hall : ls.filter (fun l => !(isReplaced (shortName c.vmName) l && lastField l != c.myip)) = ls := by
      rw [List.filter_eq_self]
      intro l hl
      rw [isReplaced_of_ne (hls l hl) hshort]
      rfl
    rwa [hall]

theorem isARecord_of_mem {short l : Text} (h : l ∈ aRecords short zone) : isARecord short l = true :=
  (List.mem_filter.mp h).2

/-- **One call for another node** leaves the address in front. -/
theorem fronted_run (h : Fronted d replaces vmName ip (aRecords (shortName vmName) zone)) {c : DnsCall}
    (hc : OfOther d replaces vmName c) :
    Fronted d replaces vmName ip (aRecords (shortName vmName) (c.run zone)) := by
  unfold DnsCall.run addToDns
  obtain ⟨tail, htail, _⟩ := aRecords_dnsAddLine (shortName vmName)
    (if c.replace = true then dnsRemoveOtherA (shortName c.vmName) c.myip zone else zone)
    (aRecord (shortName c.vmName) c.myip)
  rw [htail]
  refine Fronted.append ?_ tail
  cases hrep : c.replace with
  | false => exact h
  | true =>
    rw [if_pos rfl, aRecords_dnsRemoveOtherA]
    exact h.replaced (fun l hl => isARecord_of_mem hl) hc hrep

/-- The records of the name after the node's own is added. -/
theorem aRecords_own (hs : IsField isSpace (shortName vmName)) (hi : IsField isSpace ip)
    (zone : Text) :
    ∃ tail, aRecords (shortName vmName) (addToDns vmName ip false zone) =
        aRecords (shortName vmName) zone ++ tail ∧
      aRecord (shortName vmName) ip ∈ aRecords (shortName vmName) zone ++ tail ∧
      ∀ l ∈ tail, l = aRecord (shortName vmName) ip := by
  obtain ⟨tail, htail, hone⟩ := aRecords_dnsAddLine (shortName vmName) zone
    (aRecord (shortName vmName) ip)
  obtain ⟨hmem, hall⟩ := hone (oneLine_aRecord hs hi) (isARecord_aRecord hs hi)
  rw [htail] at hmem
  exact ⟨tail, htail, hmem, hall⟩

end Calls

/-! ## The two runs -/

section TwoRuns

variable {d} {replaces} {vmName} {r : Surroundings} {zone ip : Text}

theorem isField_of_inLab (h : inLab d.common ip = true) : IsField isSpace ip := by
  obtain ⟨net, _, hreg⟩ := inLab_iff.mp h
  obtain ⟨x, hx, _⟩ := isRegisteredIn_iff.mp (hreg ⟨fun _ => none, fun _ => none, [], fun _ => 0,
    fun _ => false, fun _ => false⟩)
  rw [← render_of_parse hx]
  exact isField_render x

/-- The first run took the first record of the name over, if it is inside the network. -/
theorem eq_of_first (hdom : d.common.mydomain ≠ []) (hs : IsField isSpace (shortName vmName))
    (h : allocateOver r zone vmName d = .ok (some ip)) {l : Text}
    (hl : (aRecords (shortName vmName) zone).head? = some l)
    (hin : inLab d.common (lastField l) = true) : lastField l = ip := by
  have hfirst : firstAddress vmName zone = some (lastField l) := by rw [firstAddress, hl]; rfl
  rw [allocateOver_of_first hdom hs.1 hfirst hin r] at h
  exact Option.some.inj (Except.ok.inj h)

/-- **A steady zone has the address in front** once the node's record is added. -/
theorem Steady.fronted (hst : Steady d replaces vmName zone)
    (h : allocateOver r zone vmName d = .ok (some ip)) :
    Fronted d replaces vmName ip (aRecords (shortName vmName) (addToDns vmName ip false zone)) := by
  have hi := isField_of_inLab (inLab_of_allocateOver h)
  obtain ⟨tail, htail, hmem, hall⟩ := aRecords_own hst.name hi zone
  rw [htail]
  cases hM : aRecords (shortName vmName) zone with
  | nil =>
    rw [hM, List.nil_append] at hmem
    refine ⟨?_, fun hs => ?_⟩
    · obtain ⟨l, ls, rfl⟩ := List.exists_cons_of_ne_nil (List.ne_nil_of_mem hmem)
      rw [List.nil_append, List.head?_cons, hall l List.mem_cons_self, Option.map_some,
        lastField_aRecord hst.name hi]
    · have hanch := hst.anchored hs
      rw [hM] at hanch
      obtain ⟨kept, hkept, _⟩ := hanch
      exact absurd hkept (by simp)
  | cons l ls =>
    have hl : (aRecords (shortName vmName) zone).head? = some l := by rw [hM]; rfl
    have hlast : lastField l = ip := eq_of_first hst.domain hst.name h hl (hst.first l hl)
    refine Fronted.append ⟨by rw [List.head?_cons, Option.map_some, hlast], fun hs => ?_⟩ tail
    have hanch := hst.anchored hs
    rw [hM] at hanch
    obtain ⟨kept, hkept, hke, hpre⟩ := hanch
    obtain ⟨post, hpost⟩ := List.head?_eq_some_iff.mp hkept
    rw [List.headD_cons, hlast] at hke hpre
    refine ⟨_, kept, post, ?_, fun x hx => ⟨List.mem_takeWhile_imp hx, hpre x hx⟩, ?_, hke⟩
    · rw [← hpost, List.takeWhile_append_dropWhile]
    · have hnot := List.head?_dropWhile_not (isReplaced (shortName vmName)) (l :: ls)
      rw [hkept] at hnot
      simpa using hnot

/-- The zone after a replacement for another node with the name. -/
theorem aRecords_replaced {other b : Text} (hshort : shortName other = shortName vmName)
    (hs : IsField isSpace (shortName vmName)) (hb : IsField isSpace b) (zone : Text) :
    ∃ tail, aRecords (shortName vmName) (addToDns other b true zone) =
        (aRecords (shortName vmName) zone).filter
          (fun l => !(isReplaced (shortName vmName) l && lastField l != b)) ++ tail ∧
      ∀ l ∈ tail, lastField l = b := by
  unfold addToDns
  rw [if_pos rfl, hshort]
  obtain ⟨tail, htail, hone⟩ := aRecords_dnsAddLine (shortName vmName)
    (dnsRemoveOtherA (shortName vmName) b zone) (aRecord (shortName vmName) b)
  refine ⟨tail, by rw [htail, aRecords_dnsRemoveOtherA], fun l hl => ?_⟩
  rw [(hone (oneLine_aRecord hs hb) (isARecord_aRecord hs hb)).2 l hl, lastField_aRecord hs hb]

/-- What an answer in spite of a replacement by another address says: a record stays in front of which
no record has the other address, and it has the node's. -/
theorem stays_of_first {short b : Text} {ls tail own : List Text}
    (hown : ∀ l ∈ own, isReplaced short l = true) (htail : ∀ l ∈ tail, lastField l = b) (hne : b ≠ ip)
    (h : (((ls ++ own).filter fun l => !(isReplaced short l && lastField l != b)) ++ tail).head?.map
      lastField = some ip) :
    ∃ kept post, ls.dropWhile (isReplaced short) = kept :: post ∧ lastField kept = ip ∧
      ∀ l ∈ ls.takeWhile (isReplaced short), lastField l ≠ b := by
  -- a replaced record that is left has the other address
  have hleft : ∀ us : List Text, (∀ l ∈ us, isReplaced short l = true) →
      ∀ l ∈ us.filter (fun l => !(isReplaced short l && lastField l != b)), lastField l = b := by
    intro us hus l hl
    obtain ⟨hl, hkeep⟩ := List.mem_filter.mp hl
    simpa [hus l hl] using hkeep
  have hpre : ∀ l ∈ ls.takeWhile (isReplaced short), isReplaced short l = true := fun l hl =>
    List.mem_takeWhile_imp hl
  obtain ⟨x, hx, hxip⟩ := Option.map_eq_some_iff.mp h
  rw [← List.takeWhile_append_dropWhile (p := isReplaced short) (l := ls)] at hx
  cases hd : ls.dropWhile (isReplaced short) with
  | nil =>
    -- every record goes or has the other address
    rw [hd, List.append_nil] at hx
    have hxb : lastField x = b := by
      rcases List.mem_append.mp (List.mem_of_head? hx) with hm | hm
      · refine hleft _ (fun l hl => ?_) x hm
        exact (List.mem_append.mp hl).elim (hpre l) (hown l)
      · exact htail x hm
    exact absurd (hxb.symm.trans hxip) hne
  | cons kept post =>
    have hkept : isReplaced short kept = false := by
      have hnot := List.head?_dropWhile_not (isReplaced short) ls
      rw [hd] at hnot
      simpa using hnot
    rw [hd, List.append_assoc, List.filter_append, List.cons_append,
      List.filter_cons_of_pos (by simp [hkept])] at hx
    refine ⟨kept, post, rfl, ?_⟩
    cases hk : (ls.takeWhile (isReplaced short)).filter
        (fun l => !(isReplaced short l && lastField l != b)) with
    | nil =>
      rw [hk] at hx
      obtain rfl := Option.some.inj hx
      refine ⟨hxip, fun l hl he => ?_⟩
      have hmem : l ∈ (ls.takeWhile (isReplaced short)).filter
          (fun l => !(isReplaced short l && lastField l != b)) :=
        List.mem_filter.mpr ⟨hl, by simp [he]⟩
      rw [hk] at hmem
      exact absurd hmem List.not_mem_nil
    | cons y ys =>
      rw [hk] at hx
      obtain rfl := Option.some.inj hx
      have hyb := hleft _ hpre y (by rw [hk]; exact List.mem_cons_self)
      exact absurd (hyb.symm.trans hxip) hne

/-- There is always another address. -/
theorem exists_other_address (ip : Text) : ∃ b, (parse b).isSome = true ∧ b ≠ ip := by
  have h₀ : (parse "0.0.0.0".toList).isSome = true := by decide
  have h₁ : (parse "0.0.0.1".toList).isSome = true := by decide
  by_cases h : "0.0.0.0".toList = ip
  · exact ⟨_, h₁, fun e => absurd (h.trans e.symm) (by decide)⟩
  · exact ⟨_, h₀, h⟩

theorem isField_of_parse {b : Text} (h : (parse b).isSome = true) : IsField isSpace b := by
  obtain ⟨x, hx⟩ := Option.isSome_iff_exists.mp h
  rw [← render_of_parse hx]
  exact isField_render x

/-- **A stable address comes from a steady zone.** -/
theorem Stable.steady (hmyip : d.myip vmName = []) (h : allocateOver r zone vmName d = .ok (some ip))
    (hst : Stable d replaces vmName zone ip) : Steady d replaces vmName zone := by
  obtain ⟨hdom, hfirst⟩ := first_of_allocateOver hmyip (hst [] nofun (r.taking ip))
  change firstAddress vmName (addToDns vmName ip false zone) = some ip at hfirst
  have hin := inLab_of_allocateOver h
  have hi := isField_of_inLab hin
  have hname : IsField isSpace (shortName vmName) := by
    obtain ⟨l, hl, _⟩ := Option.map_eq_some_iff.mp hfirst
    exact isField_of_isARecord (isARecord_of_mem (List.mem_of_head? hl))
  obtain ⟨own, hown, _, hall⟩ := aRecords_own hname hi zone
  have hhead : ∀ l ∈ (aRecords (shortName vmName) zone).head?, lastField l = ip := by
    intro l hl
    obtain ⟨ls, hls⟩ := List.head?_eq_some_iff.mp hl
    rw [firstAddress, hown, hls] at hfirst
    exact Option.some.inj hfirst
  refine ⟨hdom, hname, fun l hl => by rw [hhead l hl]; exact hin, ?_⟩
  rintro ⟨n, hn, hne, hrep, hshort⟩
  have hreplaced : ∀ l ∈ own, isReplaced (shortName vmName) l = true := fun l hl => by
    rw [hall l hl]
    exact isReplaced_aRecord hname hi
  -- what one replacement by another address leaves in front
  have hstays : ∀ b, (parse b).isSome = true → b ≠ ip → ∃ kept post,
      (aRecords (shortName vmName) zone).dropWhile (isReplaced (shortName vmName)) = kept :: post ∧
        lastField kept = ip ∧
        ∀ l ∈ (aRecords (shortName vmName) zone).takeWhile (isReplaced (shortName vmName)),
          lastField l ≠ b := by
    intro b hb hbne
    have hcall : ∀ c ∈ [DnsCall.mk n.1 b true], OfOther d replaces vmName c := by
      intro c hc
      rw [List.mem_singleton.mp hc]
      exact ⟨List.mem_map_of_mem hn, hne, hb, fun _ => hrep⟩
    obtain ⟨_, hf⟩ := first_of_allocateOver hmyip (hst _ hcall (r.taking ip))
    change firstAddress vmName (addToDns n.1 b true (addToDns vmName ip false zone)) = some ip at hf
    obtain ⟨tail, htail, hlast⟩ := aRecords_replaced hshort hname (isField_of_parse hb)
      (addToDns vmName ip false zone)
    rw [firstAddress, htail, hown] at hf
    exact stays_of_first hreplaced hlast hbne hf
  obtain ⟨b, hb, hbne⟩ := exists_other_address ip
  obtain ⟨kept, post, hdrop, hkept, _⟩ := hstays b hb hbne
  have hfront : lastField ((aRecords (shortName vmName) zone).headD []) = ip := by
    cases hM : aRecords (shortName vmName) zone with
    | nil =>
      rw [hM] at hdrop
      exact absurd hdrop (by simp)
    | cons l ls => exact hhead l (by rw [hM]; rfl)
  unfold Anchored
  rw [hfront, hdrop]
  refine ⟨kept, rfl, hkept, fun l hl hv => ?_⟩
  by_contra hlne
  obtain ⟨_, _, _, _, hno⟩ := hstays (lastField l) hv hlne
  exact hno l hl rfl

end TwoRuns

/-! ## An older record -/

/-- A lab of two nodes, the second in a cloud. -/
def pairDefinition : Definition where
  common := ⟨"10.0.0.1".toList, "28".toList, "10.0.0.1".toList, "lab".toList⟩
  nodes := [("n1.lab".toList, some []), ("n2.lab".toList, some [])]
  nodup := by decide

/-- Surroundings in which nothing else is in use. -/
def quiet : Surroundings where
  host := ⟨fun _ => none, fun _ => none, [], fun _ => 0, fun _ => false,
    fun c => c.isAlphanum || c = '_'⟩
  ping := fun _ => false
  used := []
  probe := true

end LabInABox.Ipalloc
