import LabInABox.Ipalloc.Allocate

/-!
# Giving every node an address

Model of `phase_allocate_ips` (`scripts/setup_lab.py`) and of `_check_or_generate_ip`
(`libs/backends.py`), which it calls for each node without a `myip`.

* `Site` is the machine with what the backends answer at a node's turn: whether the backend of the
  node allocates (a cloud leaves addresses to its provider), the addresses it reports in use, each with
  the machine that uses it (the code is given the addresses alone), and which addresses answer a ping.
* The definition is written in memory; the sibling file it is saved to holds the same.

Results:
* `allocateNode_cases`: one turn gives the node its registered address, or one that fits (`Fit`).
* `addressGood_iff_turnsOk`: when the phase completes, the addresses it gave are as they must be
  exactly when every registered address it took over fitted at its turn.
* `registered_address_of_another_node`: a stale record gives a node another node's address.
-/

namespace LabInABox.Ipalloc

open Text Ipv4

/-! ## The phase -/

/-- The machine and what the backends answer. -/
structure Site where
  host : Host
  allocates : Text → Bool
  reports : Text → List (Text × Text)
  ping : Text → Text → Bool

variable (site : Site)

/-- `_check_or_generate_ip(used_ips, vm_name, myip, definition)`. -/
def checkOrGenerateIp (vmName myip : Text) (d : Definition) : Except Failure (Text × Definition) :=
  if myip ≠ [] then .ok (myip, d)
  else
    match allocate site.host (site.ping vmName) vmName d ((site.reports vmName).map (·.2)) [] true with
    | .error e => .error e
    | .ok none => .error .noAddress
    | .ok (some allocated) =>
      -- `definition["nodes"][vm_name]["myip"] = allocated`
      match d.nodes.lookup vmName with
      | some (some _) => .ok (allocated, d.setMyip vmName allocated)
      | _ => .error .noConfig

/-- One turn of the phase: `backend.check_or_generate_ip(vm_name, "", definition)`. -/
def allocateNode (d : Definition) (vmName : Text) : Except Failure Definition :=
  if site.allocates vmName = true then (checkOrGenerateIp site vmName [] d).map (·.2) else .ok d

/-- The nodes without an address of their own. -/
def missing (d : Definition) : List Text :=
  (d.nodes.filter fun n => strip (n.2.getD []) = []).map (·.1)

/-- `phase_allocate_ips(definition, config, json_file)`: the definition it leaves. -/
def phaseAllocateIps (d : Definition) : Except Failure Definition :=
  (missing d).foldlM (allocateNode site) d

/-! ## What an address must be -/

/-- What the address of a node must be, in a definition: a host address of the lab's network, not the
gateway's, a DNS server's or this machine's, not in use by another machine and not another node's. -/
structure Fit (d : Definition) (net : Network) (vmName ip : Text) : Prop where
  host : ∃ a ∈ net.hosts, render a = ip
  gateway : strip d.common.mygw ≠ ip
  dns : ip ∉ addressWords d.common.mydns
  own : ip ∉ site.host.localIps
  used : ∀ r ∈ site.reports vmName, r.1 ≠ vmName → r.2 ≠ ip
  others : ∀ n ∈ d.nodes, n.1 ≠ vmName → d.myip n.1 ≠ ip

/-- The address a node has is as it must be. -/
def AddressGood (d : Definition) (vmName : Text) : Prop :=
  ∃ net, labNetwork d.common = some net ∧ Fit site d net vmName (d.myip vmName)

/-- A turn: an address that is registered for the node, inside the lab's network, fits. -/
def TurnOk (d : Definition) (vmName : Text) : Prop :=
  site.allocates vmName = true → ∀ net ∈ labNetwork d.common,
    isRegisteredIn site.host net (dnsAddress site.host vmName d.common.mydomain) = .ok true →
      Fit site d net vmName (dnsAddress site.host vmName d.common.mydomain)

/-- Every turn of the phase is one, in the definition as it then stands. -/
def TurnsOk : Definition → List Text → Prop
  | _, [] => True
  | d, vmName :: rest => TurnOk site d vmName ∧
    match allocateNode site d vmName with
    | .ok d' => TurnsOk d' rest
    | .error _ => True

section Decide

variable {site} {d : Definition} {net : Network} {vmName ip : Text}

theorem fit_iff : Fit site d net vmName ip ↔
    (∃ a ∈ net.hosts, render a = ip) ∧ strip d.common.mygw ≠ ip ∧ ip ∉ addressWords d.common.mydns ∧
      ip ∉ site.host.localIps ∧ (∀ r ∈ site.reports vmName, r.1 ≠ vmName → r.2 ≠ ip) ∧
      ∀ n ∈ d.nodes, n.1 ≠ vmName → d.myip n.1 ≠ ip :=
  ⟨fun ⟨h₁, h₂, h₃, h₄, h₅, h₆⟩ => ⟨h₁, h₂, h₃, h₄, h₅, h₆⟩,
    fun ⟨h₁, h₂, h₃, h₄, h₅, h₆⟩ => ⟨h₁, h₂, h₃, h₄, h₅, h₆⟩⟩

instance : Decidable (Fit site d net vmName ip) := decidable_of_iff _ fit_iff.symm

instance : Decidable (TurnOk site d vmName) :=
  inferInstanceAs (Decidable (_ → ∀ net ∈ labNetwork d.common, _ → _))

instance TurnsOk.decidable : (d : Definition) → (vms : List Text) → Decidable (TurnsOk site d vms)
  | _, [] => inferInstanceAs (Decidable True)
  | d, vmName :: rest =>
    have : Decidable (match allocateNode site d vmName with
        | .ok d' => TurnsOk site d' rest
        | .error _ => True) :=
      match allocateNode site d vmName with
      | .ok d' => TurnsOk.decidable d' rest
      | .error _ => inferInstanceAs (Decidable True)
    inferInstanceAs (Decidable (_ ∧ _))

end Decide

/-! ## The definition as it changes -/

section Definition

variable {d : Definition} {name other ip : Text}

theorem myip_setMyip (h : name ∈ d.nodes.map Prod.fst) :
    (d.setMyip name ip).myip other = if other = name then strip ip else d.myip other := by
  unfold Definition.myip Definition.setMyip
  rw [lookup_setValue]
  by_cases ho : other = name
  · subst ho
    obtain ⟨v, hv⟩ := exists_lookup_of_mem h
    simp [hv]
  · simp [ho]

theorem keys_setMyip : (d.setMyip name ip).nodes.map Prod.fst = d.nodes.map Prod.fst :=
  map_fst_setValue _ _ _

theorem missing_nodup (d : Definition) : (missing d).Nodup :=
  (List.filter_sublist.map Prod.fst).nodup d.nodup

theorem mem_missing (h : name ∈ missing d) : name ∈ d.nodes.map Prod.fst ∧ d.myip name = [] := by
  unfold missing at h
  obtain ⟨⟨n, v⟩, hn, rfl⟩ := List.mem_map.mp h
  obtain ⟨hin, hblank⟩ := List.mem_filter.mp hn
  refine ⟨List.mem_map_of_mem hin, ?_⟩
  unfold Definition.myip
  rw [lookup_of_mem d.nodup hin]
  simpa using hblank

end Definition

/-! ## One turn -/

section Turn

variable {site} {d d' : Definition} {vmName : Text}

/-- **What the search finds fits.** -/
theorem fit_of_search {net : Network} {ip mydomain : Text} (hown : d.myip vmName = [])
    (hip : ip ∈ candidates site.host vmName net)
    (hfree : ip ∉ taken site.host vmName d ((site.reports vmName).map (·.2)) mydomain) :
    Fit site d net vmName ip := by
  obtain ⟨a, ha, rfl⟩ := mem_candidates.mp hip
  have hdef : render a ∉ definitionIps d := fun h => hfree (mem_taken hown (Or.inr (Or.inl h)))
  refine ⟨⟨a, ha, rfl⟩, ?_, ?_, ?_, ?_, ?_⟩
  · exact fun h => hdef (mem_definitionIps_of_gateway h)
  · exact fun h => hdef (mem_definitionIps_of_dns h)
  · exact fun h => hfree (mem_taken hown (Or.inr (Or.inr h)))
  · rintro r hr - he
    exact hfree (mem_taken hown (Or.inl (List.mem_map.mpr ⟨r, hr, he⟩)))
  · exact fun n _ _ h => hdef (mem_definitionIps_of_node h)

/-- One turn of a node that is allocated to gives it what `allocate` answers. -/
theorem exists_allocate_of_allocateNode (h : allocateNode site d vmName = .ok d')
    (halloc : site.allocates vmName = true) :
    ∃ ip, allocate site.host (site.ping vmName) vmName d ((site.reports vmName).map (·.2)) [] true =
      .ok (some ip) ∧ d' = d.setMyip vmName ip := by
  unfold allocateNode checkOrGenerateIp at h
  simp only [halloc, if_true, ne_eq, not_true_eq_false, if_false] at h
  cases hres : allocate site.host (site.ping vmName) vmName d ((site.reports vmName).map (·.2)) []
      true with
  | error e => simp [hres, Except.map] at h
  | ok res =>
    cases res with
    | none => simp [hres, Except.map] at h
    | some ip =>
      refine ⟨ip, rfl, ?_⟩
      simp only [hres] at h
      split at h
      · simpa [Except.map, eq_comm] using h
      · simp [Except.map] at h

/-- **One turn of a node that is allocated to**: the node gets its registered address, which is inside
the network, or it has none there and gets one that fits. -/
theorem allocateNode_cases (h : allocateNode site d vmName = .ok d')
    (halloc : site.allocates vmName = true) (hown : d.myip vmName = []) :
    ∃ net ip, labNetwork d.common = some net ∧ d' = d.setMyip vmName ip ∧ (∃ a, render a = ip) ∧
      (ip = dnsAddress site.host vmName d.common.mydomain ∧
          isRegisteredIn site.host net ip = .ok true ∨
        isRegisteredIn site.host net (dnsAddress site.host vmName d.common.mydomain) = .ok false ∧
          Fit site d net vmName ip) := by
  obtain ⟨ip, hres, hd'⟩ := exists_allocate_of_allocateNode h halloc
  obtain ⟨net, hnet, hcases⟩ := allocate_cases hres
  refine ⟨net, ip, hnet, hd', ?_⟩
  rcases hcases with ⟨hip, hreg⟩ | ⟨hreg, hcand, hfree⟩
  · obtain ⟨a, ha, _⟩ := isRegisteredIn_iff.mp hreg
    exact ⟨⟨a, render_of_parse ha⟩, Or.inl ⟨hip, hreg⟩⟩
  · obtain ⟨a, _, ha⟩ := mem_candidates.mp hcand
    exact ⟨⟨a, ha⟩, Or.inr ⟨hreg, fit_of_search hown hcand hfree⟩⟩

/-- **An address that is searched for** is none that a backend reports in use, by whichever machine, and
none the zone has a record for. -/
theorem allocateNode_unreported (h : allocateNode site d vmName = .ok d')
    (halloc : site.allocates vmName = true) (hown : d.myip vmName = []) :
    ∃ ip, d' = d.setMyip vmName ip ∧ (∃ a, render a = ip) ∧
      (ip = dnsAddress site.host vmName d.common.mydomain ∨
        (∀ r ∈ site.reports vmName, r.2 ≠ ip) ∧ ip ∉ dnsIps site.host d.common.mydomain) := by
  obtain ⟨ip, hres, hd'⟩ := exists_allocate_of_allocateNode h halloc
  obtain ⟨net, -, hcases⟩ := allocate_cases hres
  refine ⟨ip, hd', ?_⟩
  rcases hcases with ⟨hip, hreg⟩ | ⟨-, hcand, hfree⟩
  · obtain ⟨a, ha, _⟩ := isRegisteredIn_iff.mp hreg
    exact ⟨⟨a, render_of_parse ha⟩, Or.inl hip⟩
  · obtain ⟨a, _, rfl⟩ := mem_candidates.mp hcand
    refine ⟨⟨a, rfl⟩, Or.inr ⟨fun r hr he => ?_, fun hdns => ?_⟩⟩
    · exact hfree (mem_taken hown (Or.inl (List.mem_map.mpr ⟨r, hr, he⟩)))
    · exact hfree (mem_taken_of_dnsIps hown hdns)

theorem allocateNode_of_not (h : allocateNode site d vmName = .ok d')
    (halloc : site.allocates vmName = false) : d' = d := by
  unfold allocateNode at h
  simpa [halloc, eq_comm] using h

end Turn

/-! ## The whole phase -/

section Run

variable {site} {d d' : Definition} {vms : List Text}

/-- The nodes still to come: those of the definition, without an address of their own. -/
def Waiting (d : Definition) (vms : List Text) : Prop :=
  vms.Nodup ∧ ∀ vm ∈ vms, vm ∈ d.nodes.map Prod.fst ∧ d.myip vm = []

theorem waiting_missing (d : Definition) : Waiting d (missing d) :=
  ⟨missing_nodup d, fun _ h => mem_missing h⟩

theorem Waiting.setMyip {vm ip : Text} (h : Waiting d (vm :: vms)) : Waiting (d.setMyip vm ip) vms := by
  obtain ⟨hnd, hall⟩ := h
  rw [List.nodup_cons] at hnd
  refine ⟨hnd.2, fun other ho => ?_⟩
  have hne : other ≠ vm := by
    rintro rfl
    exact hnd.1 ho
  obtain ⟨hin, hblank⟩ := hall other (List.mem_cons_of_mem _ ho)
  rw [keys_setMyip, myip_setMyip (hall vm List.mem_cons_self).1, if_neg hne]
  exact ⟨hin, hblank⟩

theorem Waiting.tail {vm : Text} (h : Waiting d (vm :: vms)) : Waiting d vms :=
  ⟨(List.nodup_cons.mp h.1).2, fun other ho => h.2 other (List.mem_cons_of_mem _ ho)⟩

/-- The run after one turn. -/
theorem run_cons {vm : Text} (h : (vm :: vms).foldlM (allocateNode site) d = .ok d') :
    ∃ d₁, allocateNode site d vm = .ok d₁ ∧ vms.foldlM (allocateNode site) d₁ = .ok d' := by
  rw [List.foldlM_cons] at h
  cases hturn : allocateNode site d vm with
  | error e =>
    rw [hturn] at h
    exact absurd h (by simp [bind, Except.bind])
  | ok d₁ =>
    rw [hturn] at h
    exact ⟨d₁, rfl, h⟩

/-- **What a run leaves alone**: the common section, the names, and the address of every node whose turn
it is not, or whose backend does not allocate. -/
theorem run_frame (h : vms.foldlM (allocateNode site) d = .ok d') (hw : Waiting d vms) :
    d'.common = d.common ∧ d'.nodes.map Prod.fst = d.nodes.map Prod.fst ∧
      ∀ other, other ∉ vms ∨ site.allocates other = false → d'.myip other = d.myip other := by
  induction vms generalizing d with
  | nil =>
    obtain rfl := Except.ok.inj h
    exact ⟨rfl, rfl, fun _ _ => rfl⟩
  | cons vm vms ih =>
    obtain ⟨d₁, hturn, hrest⟩ := run_cons h
    cases halloc : site.allocates vm with
    | false =>
      obtain rfl := allocateNode_of_not hturn halloc
      obtain ⟨hc, hk, hf⟩ := ih hrest hw.tail
      refine ⟨hc, hk, fun other ho => hf other (ho.imp_left fun hn hin => ?_)⟩
      exact hn (List.mem_cons_of_mem _ hin)
    | true =>
      have hvm := hw.2 vm List.mem_cons_self
      obtain ⟨net, ip, _, rfl, _⟩ := allocateNode_cases hturn halloc hvm.2
      obtain ⟨hc, hk, hf⟩ := ih hrest hw.setMyip
      refine ⟨hc, hk.trans keys_setMyip, fun other ho => ?_⟩
      have hne : other ≠ vm := by
        rintro rfl
        rcases ho with ho | ho
        · exact ho List.mem_cons_self
        · rw [halloc] at ho
          exact absurd ho (by decide)
      rw [hf other (ho.imp_left fun hn hin => hn (List.mem_cons_of_mem _ hin)), myip_setMyip hvm.1,
        if_neg hne]

/-- A run gives every node that is allocated to an address. -/
theorem myip_ne_nil_of_run (h : vms.foldlM (allocateNode site) d = .ok d') (hw : Waiting d vms)
    {vm : Text} (hvm : vm ∈ vms) (halloc : site.allocates vm = true) : d'.myip vm ≠ [] := by
  induction vms generalizing d with
  | nil => exact absurd hvm List.not_mem_nil
  | cons first vms ih =>
    obtain ⟨d₁, hturn, hrest⟩ := run_cons h
    rcases List.mem_cons.mp hvm with rfl | hvm
    · have hfirst := hw.2 vm List.mem_cons_self
      obtain ⟨net, ip, _, rfl, ⟨a, rfl⟩, _⟩ := allocateNode_cases hturn halloc hfirst.2
      obtain ⟨_, _, hf⟩ := run_frame hrest hw.setMyip
      rw [hf vm (Or.inl (List.nodup_cons.mp hw.1).1), myip_setMyip hfirst.1, if_pos rfl,
        strip_of_isField (isField_render a)]
      exact render_ne_nil a
    · cases hfirst : site.allocates first with
      | false =>
        obtain rfl := allocateNode_of_not hturn hfirst
        exact ih hrest hw.tail hvm
      | true =>
        obtain ⟨net, ip, _, rfl, _⟩ := allocateNode_cases hturn hfirst (hw.2 first List.mem_cons_self).2
        exact ih hrest hw.setMyip hvm

/-- An address fits after the rest of the run exactly when it fitted before it, once the addresses the
rest gave are as they must be: they keep away from this one. -/
theorem fit_after_iff {vm ip : Text} {net : Network} (hw : Waiting d (vm :: vms))
    (hrest : vms.foldlM (allocateNode site) (d.setMyip vm ip) = .ok d') (hip : ∃ a, render a = ip)
    (hgood : ∀ other ∈ vms, site.allocates other = true → AddressGood site d' other) :
    Fit site d' net vm ip ↔ Fit site d net vm ip := by
  obtain ⟨a, rfl⟩ := hip
  have hvm := hw.2 vm List.mem_cons_self
  have hkey : vm ∉ vms := (List.nodup_cons.mp hw.1).1
  obtain ⟨hc, hk, hf⟩ := run_frame hrest hw.setMyip
  rw [keys_setMyip] at hk
  have hstrip : strip (render a) = render a := strip_of_isField (isField_render a)
  have hself : d'.myip vm = render a := by
    rw [hf vm (Or.inl hkey), myip_setMyip hvm.1, if_pos rfl, hstrip]
  have hothers : (∀ n ∈ d'.nodes, n.1 ≠ vm → d'.myip n.1 ≠ render a) ↔
      ∀ n ∈ d.nodes, n.1 ≠ vm → d.myip n.1 ≠ render a := by
    have hnames : ∀ p : Text → Prop, (∀ n ∈ d'.nodes, p n.1) ↔ ∀ n ∈ d.nodes, p n.1 := fun p => by
      have h := congrArg (fun ks => ∀ k ∈ ks, p k) hk
      simpa only [List.forall_mem_map, eq_iff_iff] using h
    rw [hnames fun n => n ≠ vm → d'.myip n ≠ render a]
    refine forall_congr' fun n => forall_congr' fun hn => forall_congr' fun hne => ?_
    by_cases hturn : n.1 ∈ vms ∧ site.allocates n.1 = true
    · -- the other node's turn is still to come: it had no address, and it keeps away from this one
      have hblank := (hw.tail.2 n.1 hturn.1).2
      obtain ⟨net', _, hfit⟩ := hgood n.1 hturn.1 hturn.2
      refine iff_of_true (fun he => ?_) fun he => ?_
      · have hvm' : vm ∈ d'.nodes.map Prod.fst := by
          rw [hk]
          exact hvm.1
        obtain ⟨m, hm, hmvm⟩ := List.mem_map.mp hvm'
        refine hfit.others m hm (hmvm ▸ fun e => hne e.symm) ?_
        rw [hmvm, hself, he]
      · rw [hblank] at he
        exact render_ne_nil a he.symm
    · have hnot : n.1 ∉ vms ∨ site.allocates n.1 = false := by
        by_cases hin : n.1 ∈ vms
        · exact Or.inr (Bool.not_eq_true _ ▸ fun h => hturn ⟨hin, h⟩)
        · exact Or.inl hin
      rw [hf n.1 hnot, myip_setMyip hvm.1, if_neg hne]
  have hc' : d'.common = d.common := hc
  rw [fit_iff, fit_iff, hothers, hc']

/-- A turn is as it must be exactly when the address it gave fits. -/
theorem turnOk_iff {vm ip : Text} {net : Network} (halloc : site.allocates vm = true)
    (hnet : labNetwork d.common = some net)
    (h : ip = dnsAddress site.host vm d.common.mydomain ∧ isRegisteredIn site.host net ip = .ok true ∨
      isRegisteredIn site.host net (dnsAddress site.host vm d.common.mydomain) = .ok false ∧
        Fit site d net vm ip) :
    TurnOk site d vm ↔ Fit site d net vm ip := by
  unfold TurnOk
  rcases h with ⟨rfl, hreg⟩ | ⟨hreg, hfit⟩
  · constructor
    · exact fun h => h halloc net hnet hreg
    · intro hfit _ net' hnet' _
      rw [Option.mem_def, hnet] at hnet'
      rwa [← Option.some.inj hnet']
  · refine iff_of_true ?_ hfit
    intro _ net' hnet' hreg'
    rw [Option.mem_def, hnet] at hnet'
    rw [← Option.some.inj hnet', hreg] at hreg'
    exact absurd hreg' (by simp)

/-- **The addresses a run gave are as they must be exactly when its turns were.** -/
theorem good_iff_turnsOk (h : vms.foldlM (allocateNode site) d = .ok d') (hw : Waiting d vms) :
    (∀ vm ∈ vms, site.allocates vm = true → AddressGood site d' vm) ↔ TurnsOk site d vms := by
  induction vms generalizing d with
  | nil => exact iff_of_true (fun _ hm => absurd hm List.not_mem_nil) trivial
  | cons vm vms ih =>
    obtain ⟨d₁, hturn, hrest⟩ := run_cons h
    rw [List.forall_mem_cons]
    unfold TurnsOk
    simp only [hturn]
    cases halloc : site.allocates vm with
    | false =>
      obtain rfl := allocateNode_of_not hturn halloc
      have hok : TurnOk site d₁ vm := fun h => by
        rw [halloc] at h
        exact absurd h (by decide)
      rw [ih hrest hw.tail]
      simp [hok]
    | true =>
      have hvm := hw.2 vm List.mem_cons_self
      obtain ⟨net, ip, hnet, rfl, ⟨a, rfl⟩, hcases⟩ := allocateNode_cases hturn halloc hvm.2
      rw [ih hrest hw.setMyip]
      refine and_congr_left fun hturns => ?_
      have hgood := (ih hrest hw.setMyip).mpr hturns
      obtain ⟨hc, _, hf⟩ := run_frame hrest hw.setMyip
      have hself : d'.myip vm = render a := by
        rw [hf vm (Or.inl (List.nodup_cons.mp hw.1).1), myip_setMyip hvm.1, if_pos rfl,
          strip_of_isField (isField_render a)]
      have hcommon : d'.common = d.common := hc
      rw [turnOk_iff halloc hnet hcases, ← fit_after_iff hw hrest ⟨a, rfl⟩ hgood]
      unfold AddressGood
      rw [hself, hcommon]
      constructor
      · intro hg
        obtain ⟨net', hnet', hfit⟩ := hg rfl
        rw [hnet] at hnet'
        rwa [Option.some.inj hnet']
      · exact fun hfit _ => ⟨net, hnet, hfit⟩

end Run

/-- **Automatic addresses do not collide, exactly when the registered ones do not**: when the phase
completes, every address it gave a node is as it must be if and only if each registered address that it
took over fitted at its turn. -/
theorem addressGood_iff_turnsOk (d d' : Definition) (h : phaseAllocateIps site d = .ok d') :
    (∀ vm ∈ missing d, site.allocates vm = true → AddressGood site d' vm) ↔
      TurnsOk site d (missing d) :=
  good_iff_turnsOk h (waiting_missing d)

/-- The phase leaves the addresses as they are when no node without one is allocated to. -/
theorem phaseAllocateIps_keeps_iff {d d' : Definition} (h : phaseAllocateIps site d = .ok d') :
    (∀ vm, d'.myip vm = d.myip vm) ↔ ∀ vm ∈ missing d, site.allocates vm = false := by
  have hw := waiting_missing d
  constructor
  · intro hkeep vm hvm
    by_contra halloc
    refine myip_ne_nil_of_run h hw hvm (by simpa using halloc) ?_
    rw [hkeep vm]
    exact (mem_missing hvm).2
  · intro hnone vm
    refine (run_frame h hw).2.2 vm ?_
    by_cases hvm : vm ∈ missing d
    · exact Or.inr (hnone vm hvm)
    · exact Or.inl hvm

/-! ## A stale record -/

/-- A machine with this zone for the domain `lab`, whose backends all allocate. -/
def labSite (zone : Text) : Site where
  host :=
    { zone := fun mydomain => if mydomain = "lab".toList then some zone else none
      resolve := fun _ => none
      localIps := ["10.0.0.2".toList]
      digest := fun t => t.length
      isIpv6 := fun _ => false
      isWord := fun c => c.isAlphanum || c = '_' }
  allocates := fun _ => true
  reports := fun _ => [("n2.lab".toList, "10.0.0.6".toList), ("printer".toList, "10.0.0.3".toList)]
  ping := fun _ ip => ip = "10.0.0.4".toList

/-- A lab of three nodes, the first with an address of its own. -/
def labDefinition : Definition where
  common := ⟨"10.0.0.1".toList, "28".toList, "10.0.0.1, 10.0.0.9".toList, "lab".toList⟩
  nodes := [("n1.lab".toList, some "10.0.0.5".toList), ("n2.lab".toList, some []),
    ("n3.lab".toList, some [])]
  nodup := by decide

/-- The lab after a run that gave these addresses. -/
def labAfter (second third : Text) : Definition :=
  (labDefinition.setMyip "n2.lab".toList second).setMyip "n3.lab".toList third

/-- A node with a record of its own and one without get addresses that are as they must be. -/
theorem addressGood_iff_turnsOk_registered :
    AddressGood (labSite "n2  IN  A  10.0.0.6\n".toList)
        (labAfter "10.0.0.6".toList "10.0.0.7".toList) "n2.lab".toList ∧
      AddressGood (labSite "n2  IN  A  10.0.0.6\n".toList)
        (labAfter "10.0.0.6".toList "10.0.0.7".toList) "n3.lab".toList := by
  have h := (addressGood_iff_turnsOk (labSite "n2  IN  A  10.0.0.6\n".toList) labDefinition
    (labAfter "10.0.0.6".toList "10.0.0.7".toList) (by decide)).mpr (by decide)
  exact ⟨h _ (by decide) rfl, h _ (by decide) rfl⟩

/-- **A stale record gives a node the address of another node**: what the zone holds for the name is
taken over without a look at the definition. -/
theorem registered_address_of_another_node :
    let site := labSite "n2  IN  A  10.0.0.5\n".toList
    ∃ d', phaseAllocateIps site labDefinition = .ok d' ∧
      ¬ ∀ vm ∈ missing labDefinition, site.allocates vm = true → AddressGood site d' vm := by
  refine ⟨labAfter "10.0.0.5".toList "10.0.0.7".toList, by decide, fun h => ?_⟩
  obtain ⟨net, _, hfit⟩ := h "n2.lab".toList (by decide) rfl
  exact hfit.others ("n1.lab".toList, some "10.0.0.5".toList) (by decide) (by decide)
    (by decide)

end LabInABox.Ipalloc
