import LabInABox.Backend.Select
import LabInABox.Ipalloc.Phase

/-!
# The addresses shown before a run

Model of the two previews of the addresses a run will give: `preview_addresses`
(`webui/lib/discovery.py`) and the loop of `validate_lab_definition` (`libs/lab_creation.py`) that
announces an address for each node without a `myip`; against `phase_allocate_ips`
(`scripts/setup_lab.py`), with `get_backend` deciding which nodes are on a cloud.

* The three ask the same machine. No address answers a ping, and no backend reports one in use.
* The previews keep the addresses they gave in a set, over an unchanged definition. The run writes each
  into the definition and reads it back.
* A node is a cloud node when `get_backend` makes a cloud backend for it: by `cloud_account` or
  `backend`, of the node, of the common section, or of the configuration. Each preview has a rule of its
  own. The target that `resolve` of a backend looks for is taken to be found.

Results:
* `allocate_eq_of_ahead`: a preview that gave what the run gave asks for what the run asks for.
* `webSkips_iff`, `preflightSkips_iff`: where a preview's rule is right about a node.
* `previews_hold_iff`: exactly when the previews show what the run does.
* `common_account_previewed`: a lab whose common section names a cloud account.
-/

namespace LabInABox.Ipalloc.Preview

open Text Ipv4 Schema Backend

/-! ## What the three read -/

/-- A node's configuration. -/
structure NodeConfig where
  myip : Option Json
  choice : Fields

/-- A lab definition, with what chooses the backends. Node names are distinct. -/
structure Lab where
  common : Common
  choice : Fields
  nodes : List (Text × Option NodeConfig)
  nodup : (nodes.map Prod.fst).Nodup

/-- The machine, with its configuration and its credentials files. -/
structure Machine where
  host : Host
  accounts : Accounts
  BACKEND : Option Text

/-- `str(cfg.get("myip") or "")`. -/
def NodeConfig.address (c : NodeConfig) : Text := (pyOr (get c.myip) (.text [])).str

namespace Lab

/-- The definition, as the allocator reads it. -/
def definition (lab : Lab) : Definition where
  common := lab.common
  nodes := lab.nodes.map fun n => (n.1, n.2.map NodeConfig.address)
  nodup := by
    rw [List.map_map]
    exact lab.nodup

/-- `nodes.get(name) or {}`. -/
def config (lab : Lab) (vmName : Text) : NodeConfig :=
  ((lab.nodes.lookup vmName).getD none).getD ⟨none, none, none⟩

end Lab

variable (m : Machine) (lab : Lab)

/-! ## The run -/

/-- The backend `get_backend` makes for a node, unless it dies. -/
def backendOf (vmName : Text) : Option Text :=
  getBackend m.accounts m.BACKEND lab.choice (lab.config vmName).choice

/-- The node is on a cloud. -/
def IsCloud (vmName : Text) : Prop := ∃ b ∈ backendOf m lab vmName, b ∈ CLOUD_BACKEND_NAMES

/-- The machine when nothing answers a ping and the backends report nothing. -/
def quiet : Site where
  host := m.host
  allocates vmName := (backendOf m lab vmName).all fun b => b ∉ CLOUD_BACKEND_NAMES
  reports _ := []
  ping _ _ := false

/-- A turn of `phase_allocate_ips`, unless the run dies in it. -/
def turn (d : Definition) (vmName : Text) : Option Definition := do
  let backend ← backendOf m lab vmName
  -- `_cloud_no_ip`
  if backend ∈ CLOUD_BACKEND_NAMES then some d
  else (checkOrGenerateIp (quiet m lab) vmName [] d).toOption.map (·.2)

/-- `phase_allocate_ips`: the definition it leaves, unless the run dies. -/
def run : Option Definition := (missing lab.definition).foldlM (turn m lab) lab.definition

/-! ## The previews -/

/-- The loop of a preview over nodes, `taken` being the addresses it gave so far: it asks for an address
for every node that it does not skip. -/
def announce (skips : Text → Bool) (taken : List Text) :
    List Text → Except Failure (List (Text × Text))
  | [] => .ok []
  | vmName :: vms =>
    if skips vmName = true then announce skips taken vms
    else (allocate m.host (fun _ => false) vmName lab.definition taken lab.common.mydomain false).bind
      fun
      | none => announce skips taken vms
      | some address => (announce skips (taken ++ [address]) vms).map fun shown =>
          (vmName, address) :: shown

/-- The nodes `preview_addresses` leaves out. -/
def webSkips (vmName : Text) : Bool :=
  let cfg := lab.config vmName
  let backend := (pyOr (get cfg.choice.backend) (pyOr (get lab.choice.backend) (.text []))).str
  decide (strip cfg.address ≠ []) || decide (backend ∈ CLOUD_BACKEND_NAMES) ||
    truthy (get cfg.choice.cloudAccount)

/-- `preview_addresses(definition)`. -/
def previewAddresses : Except Failure (List (Text × Text)) :=
  if labNetwork lab.common = none then .ok []
  else announce m lab (webSkips lab) [] (lab.nodes.map Prod.fst)

/-- The nodes `validate_lab_definition` announces no address for: those with a `myip`, and those with
`is_cloud_node`. -/
def preflightSkips (vmName : Text) : Bool :=
  let cfg := lab.config vmName
  !isEmpty (jqOr cfg.myip) ||
    isIn CLOUD_BACKEND_NAMES (nodeBackendEff m.accounts m.BACKEND lab.choice cfg.choice)

/-- The addresses `validate_lab_definition` announces. Where there is no network, `allocate` answers
`None` as well. -/
def preflightAddresses : Except Failure (List (Text × Text)) :=
  announce m lab (preflightSkips m lab) [] (lab.nodes.map Prod.fst)

/-! ## What the previews are to show -/

/-- The address the run gave a node. -/
def assigned (d' : Definition) (vmName : Text) : Option Text :=
  if vmName ∈ missing lab.definition ∧ d'.myip vmName ≠ [] then some (d'.myip vmName) else none

/-- A preview shows, node by node, what the run gave. -/
def Shows (preview : Except Failure (List (Text × Text))) (d' : Definition) : Prop :=
  ∃ shown, preview = .ok shown ∧ ∀ vmName, shown.lookup vmName = assigned lab d' vmName

/-- **The previews hold**: both show what the run gave, and all three leave exactly the cloud nodes
without an address. -/
def PreviewsHold (d' : Definition) : Prop :=
  ∃ web preflight, previewAddresses m lab = .ok web ∧ preflightAddresses m lab = .ok preflight ∧
    (∀ vmName, web.lookup vmName = assigned lab d' vmName) ∧
    (∀ vmName, preflight.lookup vmName = assigned lab d' vmName) ∧
    ∀ vmName ∈ missing lab.definition,
      (web.lookup vmName = none ↔ IsCloud m lab vmName) ∧
      (preflight.lookup vmName = none ↔ IsCloud m lab vmName) ∧
      (assigned lab d' vmName = none ↔ IsCloud m lab vmName)

/-! ## Where they do -/

/-- The web UI is right about a node: its own cloud account is a cloud's; and if it has none, and neither
it nor the common section names a backend, it is on no cloud. -/
structure WebSees (vmName : Text) : Prop where
  account : truthy (get (lab.config vmName).choice.cloudAccount) = true → IsCloud m lab vmName
  unnamed : truthy (get (lab.config vmName).choice.cloudAccount) = false →
    truthy (namedBackend lab.choice (lab.config vmName).choice) = false → ¬ IsCloud m lab vmName

/-- The preflight is right about a node: a `myip` that is blank is empty, or the node is on a cloud; a
cloud account that counts as false, and is not empty, is no name of one of another kind; and the account
found for the configured cloud is a cloud's. -/
structure PreflightSees (vmName : Text) : Prop where
  myip : isEmpty (jqOr (lab.config vmName).myip) = false → IsCloud m lab vmName
  value : isEmpty (jqOr (lab.config vmName).myip) = true →
    truthy (cloudAccount lab.choice (lab.config vmName).choice) = false →
    ∀ ct ∈ accountCloudtype m.accounts lab.choice (lab.config vmName).choice,
      (ct ∈ CLOUD_BACKEND_NAMES ↔ IsCloud m lab vmName)
  found : isEmpty (jqOr (lab.config vmName).myip) = true →
    accountCloudtype m.accounts lab.choice (lab.config vmName).choice = none →
    truthy (namedBackend lab.choice (lab.config vmName).choice) = false →
    (∃ B ∈ m.BACKEND, B ∈ CLOUD_BACKEND_NAMES) → IsCloud m lab vmName

/-- The lab's network, if there is one, has no address left for the node. -/
def NoneLeft (d : Definition) (vmName : Text) : Prop :=
  ∀ net ∈ labNetwork d.common,
    isRegisteredIn m.host net (dnsAddress m.host vmName d.common.mydomain) = .ok false ∧
      d.isNull vmName = false ∧
      ∀ ip ∈ candidates m.host vmName net, ip ∈ taken m.host vmName d [] d.common.mydomain

/-- **Each node is seen**, in the definition as it stands at its turn: a preview is right about it, or it
is a cloud node that there is no address for anyway. -/
def TurnsSeen (sees : Text → Prop) : Definition → List Text → Prop
  | _, [] => True
  | d, vmName :: vms => (sees vmName ∨ IsCloud m lab vmName ∧ NoneLeft m d vmName) ∧
      ∀ d', turn m lab d vmName = some d' → TurnsSeen sees d' vms

variable {m lab} {d d' : Definition} {vmName : Text} {vms taken : List Text}

/-! ## The definition and the set -/

theorem mem_definitionIps {x : Text} : x ∈ definitionIps d ↔
    (x ∈ addressWords d.common.mygw ∨ x ∈ addressWords d.common.mydns ∨
      (∃ name ∈ d.nodes.map Prod.fst, d.myip name = x) ∧ x ≠ []) ∧ isAddressText x = true := by
  have hnodes : x ∈ (d.nodes.map fun n => strip (n.2.getD [])) ↔
      ∃ name ∈ d.nodes.map Prod.fst, d.myip name = x := by
    have hmyip : ∀ n ∈ d.nodes, d.myip n.1 = strip (n.2.getD []) := fun n hn => by
      unfold Definition.myip
      rw [lookup_of_mem d.nodup hn]
      rfl
    simp only [List.mem_map]
    constructor
    · rintro ⟨n, hn, hx⟩
      exact ⟨n.1, ⟨n, hn, rfl⟩, (hmyip n hn).trans hx⟩
    · rintro ⟨_, ⟨n, hn, rfl⟩, hx⟩
      exact ⟨n, hn, (hmyip n hn).symm.trans hx⟩
  unfold definitionIps
  rw [List.mem_filter, List.mem_append, List.mem_append, List.mem_filter, hnodes, decide_eq_true_eq,
    or_assoc]

/-- An address written into the definition is one it pins down, beside those it did. -/
theorem mem_definitionIps_setMyip {a : Nat} {x : Text} (hvm : vmName ∈ d.nodes.map Prod.fst)
    (hown : d.myip vmName = []) :
    x ∈ definitionIps (d.setMyip vmName (render a)) ↔ x ∈ definitionIps d ∨ x = render a := by
  have hstrip : strip (render a) = render a := strip_of_isField (isField_render a)
  have hnodes : (∃ name ∈ d.nodes.map Prod.fst, (d.setMyip vmName (render a)).myip name = x) ∧ x ≠ [] ↔
      ((∃ name ∈ d.nodes.map Prod.fst, d.myip name = x) ∧ x ≠ []) ∨ x = render a := by
    constructor
    · rintro ⟨⟨name, hname, hx⟩, hne⟩
      rw [myip_setMyip hvm] at hx
      by_cases hn : name = vmName
      · rw [if_pos hn, hstrip] at hx
        exact Or.inr hx.symm
      · rw [if_neg hn] at hx
        exact Or.inl ⟨⟨name, hname, hx⟩, hne⟩
    · rintro (⟨⟨name, hname, hx⟩, hne⟩ | rfl)
      · refine ⟨⟨name, hname, ?_⟩, hne⟩
        rw [myip_setMyip hvm, if_neg, hx]
        rintro rfl
        exact hne (hx.symm.trans hown)
      · refine ⟨⟨vmName, hvm, ?_⟩, render_ne_nil a⟩
        rw [myip_setMyip hvm, if_pos rfl, hstrip]
  have haddress : x = render a → isAddressText x = true := fun h => h ▸ isAddressText_render a
  have hcommon : (d.setMyip vmName (render a)).common = d.common := rfl
  rw [mem_definitionIps, mem_definitionIps, keys_setMyip, hnodes, hcommon, ← or_assoc, ← or_assoc,
    ← or_assoc, or_and_right, and_iff_left_of_imp haddress]

/-- The run is as far as a preview: it wrote down the addresses the preview keeps, and the nodes still to
come are as they were. -/
structure Ahead (lab : Lab) (d : Definition) (taken vms : List Text) : Prop where
  common : d.common = lab.common
  waiting : ∀ vmName ∈ vms, d.nodes.lookup vmName = lab.definition.nodes.lookup vmName
  ips : ∀ x, x ∈ definitionIps d ↔ x ∈ definitionIps lab.definition ∨ x ∈ taken

theorem Ahead.start (lab : Lab) (vms : List Text) : Ahead lab lab.definition [] vms where
  common := rfl
  waiting := fun _ _ => rfl
  ips := fun _ => (or_iff_left List.not_mem_nil).symm

theorem Ahead.tail (h : Ahead lab d taken (vmName :: vms)) : Ahead lab d taken vms where
  common := h.common
  waiting := fun other ho => h.waiting other (List.mem_cons_of_mem _ ho)
  ips := h.ips

theorem Ahead.setMyip {a : Nat} (h : Ahead lab d taken (vmName :: vms)) (hw : Waiting d (vmName :: vms)) :
    Ahead lab (d.setMyip vmName (render a)) (taken ++ [render a]) vms where
  common := h.common
  waiting := by
    intro other ho
    have hne : other ≠ vmName := by
      rintro rfl
      exact (List.nodup_cons.mp hw.1).1 ho
    rw [← h.waiting other (List.mem_cons_of_mem _ ho)]
    unfold Definition.setMyip
    rw [lookup_setValue, if_neg hne]
  ips := by
    intro x
    obtain ⟨hvm, hown⟩ := hw.2 vmName List.mem_cons_self
    rw [mem_definitionIps_setMyip hvm hown, h.ips, List.mem_append, List.mem_singleton, or_assoc]

/-- **A preview that gave what the run gave asks for what the run asks for**: what is kept in the set is
what is read back from the definition. -/
theorem allocate_eq_of_ahead {host : Host} (h : Ahead lab d taken (vmName :: vms)) :
    allocate host (fun _ => false) vmName d [] [] true =
      allocate host (fun _ => false) vmName lab.definition taken lab.common.mydomain false := by
  have hlookup := h.waiting vmName List.mem_cons_self
  have hdomain : domainOf lab.definition lab.common.mydomain = lab.common.mydomain := by
    unfold domainOf
    split
    · rfl
    · rfl
  have hdomain' : domainOf d [] = lab.common.mydomain := congrArg Common.mydomain h.common
  have hnull : d.isNull vmName = lab.definition.isNull vmName := by
    unfold Definition.isNull
    rw [hlookup]
  have hfree : ∀ ip, ip ∈ Ipalloc.taken host vmName d [] lab.common.mydomain ↔
      ip ∈ Ipalloc.taken host vmName lab.definition taken lab.common.mydomain := by
    intro ip
    unfold Ipalloc.taken
    rw [hlookup]
    simp only [List.mem_filter, List.mem_append, h.ips, List.not_mem_nil, false_or]
    tauto
  have hcommon : labNetwork d.common = labNetwork lab.definition.common := congrArg labNetwork h.common
  unfold allocate
  simp only [hcommon, hdomain, hdomain', hnull, hfree, Bool.and_false, Bool.not_false, Bool.and_true]

/-- No address is left exactly when the run's question is answered with none. -/
theorem answer_eq_none_iff : NoneLeft m d vmName ↔
    allocate m.host (fun _ => false) vmName d [] [] true = .ok none := by
  have hdomain : domainOf d [] = d.common.mydomain := rfl
  unfold NoneLeft allocate
  rw [hdomain]
  cases hnet : labNetwork d.common with
  | none => exact iff_of_true (fun _ h => absurd h (Option.some_ne_none _).symm) rfl
  | some net =>
    simp only [Option.mem_def, Option.some.injEq, forall_eq']
    cases hreg : isRegisteredIn m.host net (dnsAddress m.host vmName d.common.mydomain) with
    | error e => exact iff_of_false (fun h => absurd h.1 (by simp)) (by simp)
    | ok b =>
      cases b with
      | true => exact iff_of_false (fun h => absurd h.1 (by simp)) (by simp)
      | false =>
        cases hnull : d.isNull vmName with
        | true => exact iff_of_false (fun h => absurd h.2.1 (by decide)) (by simp)
        | false => simp

/-! ## One turn of the run -/

variable {b : Text}

theorem isCloud_iff (hb : backendOf m lab vmName = some b) :
    IsCloud m lab vmName ↔ b ∈ CLOUD_BACKEND_NAMES := by
  unfold IsCloud
  rw [hb]
  exact ⟨fun ⟨_, hb', hc⟩ => Option.some.inj hb' ▸ hc, fun hc => ⟨b, rfl, hc⟩⟩

theorem allocates_eq_false_iff (hb : backendOf m lab vmName = some b) :
    (quiet m lab).allocates vmName = false ↔ IsCloud m lab vmName := by
  rw [isCloud_iff hb]
  change (backendOf m lab vmName).all _ = false ↔ _
  rw [hb, Option.all_some, decide_eq_false_iff_not, not_not]

/-- A turn that does not end the run is one of the phase, on the quiet machine. -/
theorem allocateNode_of_turn (h : turn m lab d vmName = some d') :
    allocateNode (quiet m lab) d vmName = .ok d' ∧
      ((quiet m lab).allocates vmName = false ↔ IsCloud m lab vmName) := by
  obtain ⟨b, hb, h⟩ := Option.bind_eq_some_iff.mp h
  refine ⟨?_, allocates_eq_false_iff hb⟩
  have hcloud := (allocates_eq_false_iff hb).trans (isCloud_iff hb)
  unfold allocateNode
  by_cases hc : b ∈ CLOUD_BACKEND_NAMES
  · rw [if_pos hc] at h
    obtain rfl := Option.some.inj h
    rw [hcloud.mpr hc, if_neg Bool.false_ne_true]
  · rw [if_neg hc] at h
    rw [if_pos (Bool.not_eq_false _ ▸ fun hno => hc (hcloud.mp hno))]
    obtain ⟨r, hr, rfl⟩ := Option.map_eq_some_iff.mp h
    cases hcheck : checkOrGenerateIp (quiet m lab) vmName [] d with
    | error e =>
      rw [hcheck] at hr
      cases hr
    | ok r' =>
      rw [hcheck] at hr
      obtain rfl := Option.some.inj hr
      rfl

/-- The run after one turn, and what the rest of it leaves alone. -/
theorem run_cons (h : (vmName :: vms).foldlM (turn m lab) d = some d') :
    ∃ d₁, turn m lab d vmName = some d₁ ∧ vms.foldlM (turn m lab) d₁ = some d' := by
  rw [List.foldlM_cons] at h
  exact Option.bind_eq_some_iff.mp h

theorem foldlM_allocateNode (h : vms.foldlM (turn m lab) d = some d') :
    vms.foldlM (allocateNode (quiet m lab)) d = .ok d' := by
  induction vms generalizing d with
  | nil => exact congrArg Except.ok (Option.some.inj h)
  | cons vmName vms ih =>
    obtain ⟨d₁, hturn, hrest⟩ := run_cons h
    rw [List.foldlM_cons, (allocateNode_of_turn hturn).1]
    exact ih hrest

/-- What a run gave a node. -/
def given (d' : Definition) (vmName : Text) : Option Text :=
  if d'.myip vmName ≠ [] then some (d'.myip vmName) else none

/-- **A turn of a cloud node** leaves the definition, and the node has no address after the run. -/
theorem turn_of_cloud (h : (vmName :: vms).foldlM (turn m lab) d = some d')
    (hw : Waiting d (vmName :: vms)) (hc : IsCloud m lab vmName) :
    turn m lab d vmName = some d ∧ vms.foldlM (turn m lab) d = some d' ∧ given d' vmName = none := by
  obtain ⟨d₁, hturn, hrest⟩ := run_cons h
  obtain ⟨hnode, hallocates⟩ := allocateNode_of_turn hturn
  obtain rfl := allocateNode_of_not hnode (hallocates.mpr hc)
  refine ⟨hturn, hrest, if_neg (not_not_intro ?_)⟩
  rw [(run_frame (foldlM_allocateNode hrest) hw.tail).2.2 vmName (Or.inl (List.nodup_cons.mp hw.1).1)]
  exact (hw.2 vmName List.mem_cons_self).2

/-- **A turn of another node** gives it the address its question is answered with. -/
theorem turn_of_not_cloud (h : (vmName :: vms).foldlM (turn m lab) d = some d')
    (hw : Waiting d (vmName :: vms)) (hc : ¬ IsCloud m lab vmName) :
    ∃ a, allocate m.host (fun _ => false) vmName d [] [] true = .ok (some (render a)) ∧
      turn m lab d vmName = some (d.setMyip vmName (render a)) ∧
      vms.foldlM (turn m lab) (d.setMyip vmName (render a)) = some d' ∧
      given d' vmName = some (render a) := by
  obtain ⟨d₁, hturn, hrest⟩ := run_cons h
  obtain ⟨hnode, hallocates⟩ := allocateNode_of_turn hturn
  have hyes : (quiet m lab).allocates vmName = true := by
    rw [← Bool.not_eq_false, hallocates]
    exact hc
  obtain ⟨hvm, hown⟩ := hw.2 vmName List.mem_cons_self
  obtain ⟨ip, hanswer, rfl⟩ := exists_allocate_of_allocateNode hnode hyes
  obtain ⟨_, ip', _, hset, ⟨a, rfl⟩, _⟩ := allocateNode_cases hnode hyes hown
  obtain rfl : ip = render a := by
    have hlookup := congrArg (fun e => (e.nodes.lookup vmName)) hset
    simp only [Definition.setMyip, lookup_setValue, if_true] at hlookup
    obtain ⟨v, hv⟩ := exists_lookup_of_mem hvm
    rw [hv] at hlookup
    exact Option.some.inj (Option.some.inj hlookup)
  have hself : d'.myip vmName = render a := by
    rw [(run_frame (foldlM_allocateNode hrest) hw.setMyip).2.2 vmName
      (Or.inl (List.nodup_cons.mp hw.1).1), myip_setMyip hvm, if_pos rfl,
      strip_of_isField (isField_render a)]
  refine ⟨a, hanswer, hturn, hrest, ?_⟩
  rw [given, hself, if_pos (render_ne_nil a)]

/-! ## A preview along the run -/

section Along

variable {skips : Text → Bool} {sees : Text → Prop} {shown : List (Text × Text)}

/-- A preview names no node but those it looks at. -/
theorem mem_of_announce (h : announce m lab skips taken vms = .ok shown) :
    ∀ p ∈ shown, p.1 ∈ vms := by
  induction vms generalizing taken shown with
  | nil =>
    obtain rfl := Except.ok.inj h
    exact fun _ hp => absurd hp List.not_mem_nil
  | cons vmName vms ih =>
    rw [announce] at h
    split at h
    · exact fun p hp => List.mem_cons_of_mem _ (ih h p hp)
    · obtain ⟨answer, _, h⟩ := bind_eq_ok.mp h
      cases answer with
      | none => exact fun p hp => List.mem_cons_of_mem _ (ih h p hp)
      | some address =>
        obtain ⟨rest, hrest, rfl⟩ := map_eq_ok.mp h
        rintro p hp
        rcases List.mem_cons.mp hp with rfl | hp
        · exact List.mem_cons_self
        · exact List.mem_cons_of_mem _ (ih hrest p hp)

theorem lookup_eq_none_of_announce (h : announce m lab skips taken vms = .ok shown)
    (hn : vmName ∉ vms) : shown.lookup vmName = none := by
  rw [List.lookup_eq_none_iff]
  intro p hp
  rw [bne_iff_ne]
  rintro rfl
  exact hn (mem_of_announce h p hp)

/-- A preview of these nodes shows what the run gave them. -/
def ShowsGiven (preview : Except Failure (List (Text × Text))) (d' : Definition) (vms : List Text) : Prop :=
  ∃ shown, preview = .ok shown ∧ ∀ vmName ∈ vms, shown.lookup vmName = given d' vmName

/-- A node that gets no address in a preview. -/
theorem showsGiven_without (hn : vmName ∉ vms) :
    ShowsGiven (announce m lab skips taken vms) d' (vmName :: vms) ↔
      given d' vmName = none ∧ ShowsGiven (announce m lab skips taken vms) d' vms := by
  constructor
  · rintro ⟨shown, h, hall⟩
    have hnone := lookup_eq_none_of_announce h hn
    exact ⟨(hall vmName List.mem_cons_self).symm.trans hnone, shown, h,
      fun other ho => hall other (List.mem_cons_of_mem _ ho)⟩
  · rintro ⟨hnone, shown, h, hall⟩
    refine ⟨shown, h, fun other ho => ?_⟩
    rcases List.mem_cons.mp ho with rfl | ho
    · rw [hnone, lookup_eq_none_of_announce h hn]
    · exact hall other ho

/-- A node that gets an address in a preview. -/
theorem showsGiven_with {address : Text} {rest : Except Failure (List (Text × Text))} (hn : vmName ∉ vms) :
    ShowsGiven (rest.map fun shown => (vmName, address) :: shown) d' (vmName :: vms) ↔
      given d' vmName = some address ∧ ShowsGiven rest d' vms := by
  have hother : ∀ shown : List (Text × Text), ∀ other ∈ vms,
      ((vmName, address) :: shown).lookup other = shown.lookup other := by
    intro shown other ho
    have hne : other ≠ vmName := by
      rintro rfl
      exact hn ho
    rw [List.lookup_cons, beq_false_of_ne hne]
  constructor
  · rintro ⟨_, h, hall⟩
    obtain ⟨shown, hshown, rfl⟩ := map_eq_ok.mp h
    refine ⟨?_, shown, hshown, fun other ho => ?_⟩
    · rw [← hall vmName List.mem_cons_self, List.lookup_cons_self]
    · rw [← hother shown other ho, hall other (List.mem_cons_of_mem _ ho)]
  · rintro ⟨hself, shown, hshown, hall⟩
    refine ⟨_, map_eq_ok.mpr ⟨shown, hshown, rfl⟩, fun other ho => ?_⟩
    rcases List.mem_cons.mp ho with rfl | ho
    · rw [hself, List.lookup_cons_self]
    · rw [hother shown other ho, hall other ho]

/-- **A preview shows what the run gives exactly when each node is seen at its turn.** By induction on
the nodes; what is kept is that the run is as far as the preview. -/
theorem showsGiven_iff (hsees : ∀ vm ∈ vms, sees vm ↔ (skips vm = true ↔ IsCloud m lab vm))
    (ha : Ahead lab d taken vms) (hw : Waiting d vms) (h : vms.foldlM (turn m lab) d = some d') :
    ShowsGiven (announce m lab skips taken vms) d' vms ↔ TurnsSeen m lab sees d vms := by
  induction vms generalizing d taken with
  | nil => exact iff_of_true ⟨[], rfl, fun _ hm => absurd hm List.not_mem_nil⟩ trivial
  | cons vmName vms ih =>
    have hn : vmName ∉ vms := (List.nodup_cons.mp hw.1).1
    have hsees' := fun vm hvm => hsees vm (List.mem_cons_of_mem _ hvm)
    rw [TurnsSeen, hsees vmName List.mem_cons_self, answer_eq_none_iff, allocate_eq_of_ahead ha, announce]
    by_cases hc : IsCloud m lab vmName
    · obtain ⟨hturn, hrest, hgiven⟩ := turn_of_cloud h hw hc
      have hwithout : ShowsGiven (announce m lab skips taken vms) d' (vmName :: vms) ↔
          ∀ d₁, turn m lab d vmName = some d₁ → TurnsSeen m lab sees d₁ vms := by
        rw [showsGiven_without hn, and_iff_right hgiven, ih hsees' ha.tail hw.tail hrest, hturn]
        simp only [Option.some.injEq, forall_eq']
      cases hskip : skips vmName with
      | true => rw [if_pos rfl, hwithout, and_iff_right (Or.inl (iff_of_true rfl hc))]
      | false =>
        rw [if_neg Bool.false_ne_true, or_iff_right fun hiff => Bool.false_ne_true (hiff.mpr hc),
          and_iff_right hc]
        cases hanswer : allocate m.host (fun _ => false) vmName lab.definition taken
            lab.common.mydomain false with
        | error e =>
          exact iff_of_false (fun ⟨_, hshown, _⟩ => by cases hshown) fun hall => by cases hall.1
        | ok answer =>
          cases answer with
          | none => exact hwithout.trans (and_iff_right rfl).symm
          | some address =>
            refine iff_of_false (fun hshows => ?_) fun hall => by cases hall.1
            have hself := ((showsGiven_with hn).mp hshows).1
            exact absurd (hself.symm.trans hgiven) (Option.some_ne_none _)
    · obtain ⟨a, hanswer, hturn, hrest, hgiven⟩ := turn_of_not_cloud h hw hc
      rw [allocate_eq_of_ahead ha] at hanswer
      have hnot : ∀ b : Bool, ((b = true ↔ IsCloud m lab vmName) ∨
          IsCloud m lab vmName ∧ allocate m.host (fun _ => false) vmName lab.definition taken
            lab.common.mydomain false = .ok none) ↔ b = false := by
        intro b
        rw [or_iff_left fun hall => hc hall.1, iff_false_right hc, Bool.not_eq_true]
      rw [hnot]
      cases hskip : skips vmName with
      | true =>
        rw [if_pos rfl, showsGiven_without hn, hgiven]
        exact iff_of_false (fun hall => absurd hall.1 (Option.some_ne_none _)) fun hall => by cases hall.1
      | false =>
        rw [if_neg Bool.false_ne_true, hanswer, hturn, and_iff_right rfl]
        simp only [Option.some.injEq, forall_eq']
        exact (showsGiven_with hn).trans ((and_iff_right hgiven).trans
          (ih hsees' (ha.setMyip hw) hw.setMyip hrest))

end Along

/-! ## The rules of the previews -/

theorem pyOr_assoc (a b c : Json) : pyOr a (pyOr b c) = pyOr (pyOr a b) c := by
  unfold pyOr
  by_cases ha : truthy a = true
  · rw [if_pos ha, if_pos ha, if_pos ha]
  · rw [if_neg ha, if_neg ha]

theorem lookup_definition : lab.definition.nodes.lookup vmName =
    (lab.nodes.lookup vmName).map fun v => v.map NodeConfig.address := by
  change (lab.nodes.map _).lookup vmName = _
  induction lab.nodes with
  | nil => rfl
  | cons n ns ih =>
    rw [List.map_cons, List.lookup_cons, List.lookup_cons, ih]
    cases vmName == n.1 <;> rfl

theorem strip_address : strip (lab.config vmName).address = lab.definition.myip vmName := by
  unfold Definition.myip Lab.config
  rw [lookup_definition]
  cases lab.nodes.lookup vmName with
  | none => rfl
  | some v =>
    cases v with
    | none => rfl
    | some c => rfl

/-- A node whose section or whose lab names a backend is on that backend. -/
theorem named_eq (hb : backendOf m lab vmName = some b)
    (hn : truthy (namedBackend lab.choice (lab.config vmName).choice) = true) :
    namedBackend lab.choice (lab.config vmName).choice = .text b := by
  have hexplicit := pyOr_jqOr_of_truthy hn
  unfold backendOf getBackend at hb
  obtain ⟨account, _, hb⟩ := Option.bind_eq_some_iff.mp hb
  cases account with
  | none =>
    rw [← backendName_of_named hn]
    exact find_isText_eq hb
  | some name =>
    obtain ⟨ct, _, hb⟩ := Option.bind_eq_some_iff.mp hb
    rw [← hexplicit] at hb
    change (if (truthy (namedBackend lab.choice (lab.config vmName).choice) && _) = true then _ else _) = _ at hb
    rw [hn, Bool.true_and] at hb
    split at hb
    · cases hb
    · rename_i hct
      rw [find_eq hb]
      exact eq_text_of_isText (by simpa [namedBackend] using hct)

/-- **Where the web UI is right** about a node without an address. -/
theorem webSkips_iff (hown : lab.definition.myip vmName = []) (hb : backendOf m lab vmName = some b) :
    WebSees m lab vmName ↔ (webSkips lab vmName = true ↔ IsCloud m lab vmName) := by
  let choice := (lab.config vmName).choice
  have hskips : webSkips lab vmName = true ↔
      (pyOr (pyOr (get choice.backend) (get lab.choice.backend)) (.text [])).str ∈ CLOUD_BACKEND_NAMES ∨
        truthy (get choice.cloudAccount) = true := by
    unfold webSkips
    simp only [Bool.or_eq_true, decide_eq_true_eq, strip_address, hown, ne_eq, not_true_eq_false,
      false_or, pyOr_assoc]
    rfl
  have hcloud := isCloud_iff hb
  have hsees : WebSees m lab vmName ↔ (truthy (get choice.cloudAccount) = true → IsCloud m lab vmName) ∧
      (truthy (get choice.cloudAccount) = false → truthy (namedBackend lab.choice choice) = false →
        ¬ IsCloud m lab vmName) := ⟨fun h => ⟨h.account, h.unnamed⟩, fun h => ⟨h.1, h.2⟩⟩
  rw [hskips, hsees]
  cases hacc : truthy (get choice.cloudAccount) with
  | true => simp
  | false =>
    cases hn : truthy (namedBackend lab.choice choice) with
    | true =>
      have hexplicit : pyOr (get choice.backend) (get lab.choice.backend) = .text b :=
        (pyOr_jqOr_of_truthy hn).symm.trans (named_eq hb hn)
      have htrue : truthy (.text b) = true := by
        rw [← named_eq hb hn]
        exact hn
      rw [hexplicit, pyOr, if_pos htrue, hcloud]
      simp [Json.str]
    | false =>
      have hempty : truthy (pyOr (get choice.backend) (get lab.choice.backend)) = false := by
        rw [← truthy_pyOr_jqOr]
        exact hn
      have hnone : (Json.text []).str ∉ CLOUD_BACKEND_NAMES := by decide
      rw [pyOr, hempty, if_neg Bool.false_ne_true]
      simp [hnone]

theorem isIn_text {names : List Text} {t : Text} : isIn names (.text t) = true ↔ t ∈ names := by
  unfold isIn
  rw [List.any_eq_true]
  exact ⟨fun ⟨name, hm, he⟩ => of_decide_eq_true he ▸ hm, fun hm => ⟨t, hm, decide_eq_true rfl⟩⟩

/-- The backend of a node with a cloud account is that of the account. -/
theorem accountCloudtype_of_truthy (hb : backendOf m lab vmName = some b)
    (ha : truthy (cloudAccount lab.choice (lab.config vmName).choice) = true) :
    accountCloudtype m.accounts lab.choice (lab.config vmName).choice = some b := by
  unfold backendOf getBackend at hb
  obtain ⟨account, haccount, hb⟩ := Option.bind_eq_some_iff.mp hb
  rw [resolveAccountName_of_account ha] at haccount
  obtain rfl := Option.some.inj haccount
  obtain ⟨ct, hload, hb⟩ := Option.bind_eq_some_iff.mp hb
  rw [accountCloudtype, if_neg (by rw [isEmpty_of_truthy ha]; exact Bool.false_ne_true), hload]
  split at hb
  · cases hb
  · rw [find_eq hb]

/-- The backend of the configuration, `libvirt` if it names none. -/
theorem configured_eq (BACKEND : Option Text) : ∃ c,
    pyOr (get (BACKEND.map .text)) (.text libvirt) = .text c ∧
      pyOr (jqOr (BACKEND.map .text)) (.text libvirt) = .text c ∧
      (c ∈ CLOUD_BACKEND_NAMES ↔ ∃ B ∈ BACKEND, B ∈ CLOUD_BACKEND_NAMES) := by
  have hnil : ([] : Text) ∉ CLOUD_BACKEND_NAMES := by decide
  cases BACKEND with
  | none => exact ⟨libvirt, rfl, rfl, iff_of_false not_mem_cloud fun ⟨_, h, _⟩ => by cases h⟩
  | some B =>
    by_cases hB : B = []
    · subst hB
      refine ⟨libvirt, rfl, rfl, iff_of_false not_mem_cloud fun ⟨_, h, hc⟩ => ?_⟩
      exact hnil (Option.some.inj h ▸ hc)
    · have htrue : truthy (.text B) = true := decide_eq_true hB
      refine ⟨B, if_pos htrue, if_pos htrue, fun hc => ⟨B, rfl, hc⟩, fun ⟨_, h, hc⟩ => ?_⟩
      exact Option.some.inj h ▸ hc

/-- A node for which nothing is named is on no cloud, unless the configuration names one. -/
theorem not_isCloud_of_unnamed (hb : backendOf m lab vmName = some b)
    (ha : truthy (cloudAccount lab.choice (lab.config vmName).choice) = false)
    (hn : truthy (namedBackend lab.choice (lab.config vmName).choice) = false)
    (hB : ¬ ∃ B ∈ m.BACKEND, B ∈ CLOUD_BACKEND_NAMES) : ¬ IsCloud m lab vmName := by
  obtain ⟨c, hc, _, hcloud⟩ := configured_eq m.BACKEND
  have hc' : c ∉ CLOUD_BACKEND_NAMES := fun h => hB (hcloud.mp h)
  have hname := (backendName_of_not_named hn).trans hc
  rw [isCloud_iff hb]
  unfold backendOf getBackend at hb
  obtain ⟨account, haccount, hb⟩ := Option.bind_eq_some_iff.mp hb
  rw [cloudAccount, truthy_pyOr_jqOr] at ha
  rw [resolveAccountName, ha, if_neg Bool.false_ne_true, hname,
    if_neg fun h => hc' (isIn_text.mp h)] at haccount
  obtain rfl := Option.some.inj haccount
  have hfound := find_isText_eq hb
  rw [hname] at hfound
  rwa [← Json.text.inj hfound]

/-- **Where the preflight is right** about a node without an address. -/
theorem preflightSkips_iff (hb : backendOf m lab vmName = some b) :
    PreflightSees m lab vmName ↔ (preflightSkips m lab vmName = true ↔ IsCloud m lab vmName) := by
  let choice := (lab.config vmName).choice
  have hskips : preflightSkips m lab vmName = true ↔ isEmpty (jqOr (lab.config vmName).myip) = false ∨
      isIn CLOUD_BACKEND_NAMES (nodeBackendEff m.accounts m.BACKEND lab.choice choice) = true := by
    unfold preflightSkips
    rw [Bool.or_eq_true, Bool.not_eq_true']
  have hsees : PreflightSees m lab vmName ↔
      (isEmpty (jqOr (lab.config vmName).myip) = false → IsCloud m lab vmName) ∧
      (isEmpty (jqOr (lab.config vmName).myip) = true → truthy (cloudAccount lab.choice choice) = false →
        ∀ ct ∈ accountCloudtype m.accounts lab.choice choice,
          (ct ∈ CLOUD_BACKEND_NAMES ↔ IsCloud m lab vmName)) ∧
      (isEmpty (jqOr (lab.config vmName).myip) = true →
        accountCloudtype m.accounts lab.choice choice = none →
        truthy (namedBackend lab.choice choice) = false →
        (∃ B ∈ m.BACKEND, B ∈ CLOUD_BACKEND_NAMES) → IsCloud m lab vmName) :=
    ⟨fun h => ⟨h.myip, h.value, h.found⟩, fun h => ⟨h.1, h.2.1, h.2.2⟩⟩
  rw [hskips, hsees]
  cases hmyip : isEmpty (jqOr (lab.config vmName).myip) with
  | false => simp
  | true =>
    simp only [Bool.true_eq_false, false_imp_iff, true_and, true_imp_iff, false_or]
    have haccount : ∀ ct, accountCloudtype m.accounts lab.choice choice = some ct →
        nodeBackendEff m.accounts m.BACKEND lab.choice choice = .text ct := by
      intro ct hct
      have htrue : truthy (.text ct) = true := by
        rw [accountCloudtype] at hct
        split at hct
        · cases hct
        · exact decide_eq_true (m.accounts.load_ne hct)
      rw [nodeBackendEff, hct, Option.elim_some, pyOr, if_pos htrue]
    cases hct : accountCloudtype m.accounts lab.choice choice with
    | some ct =>
      rw [haccount ct hct, isIn_text]
      simp only [Option.mem_def, Option.some.injEq, forall_eq', reduceCtorEq, false_imp_iff, and_true]
      cases ha : truthy (cloudAccount lab.choice choice) with
      | false => simp
      | true =>
        obtain rfl := Option.some.inj (hct.symm.trans (accountCloudtype_of_truthy hb ha))
        simp [isCloud_iff hb]
    | none =>
      have ha : truthy (cloudAccount lab.choice choice) = false := by
        rw [← Bool.not_eq_true]
        intro ha
        exact absurd (hct.symm.trans (accountCloudtype_of_truthy hb ha)) (Option.some_ne_none _).symm
      rw [nodeBackendEff, hct, Option.elim_none, pyOr, if_neg (by decide)]
      cases hn : truthy (namedBackend lab.choice choice) with
      | true =>
        have hnamed := named_eq hb hn
        rw [pyOr, if_pos hn, hnamed, isIn_text]
        simp [isCloud_iff hb]
      | false =>
        obtain ⟨c, _, hc, hcloud⟩ := configured_eq m.BACKEND
        rw [pyOr, hn, if_neg Bool.false_ne_true, hc, isIn_text, hcloud]
        have hother := not_isCloud_of_unnamed hb ha hn
        simp only [Option.mem_def, reduceCtorEq, false_imp_iff, implies_true, true_and, true_imp_iff]
        exact ⟨fun h => ⟨h, fun hc => by_contra fun hB => hother hB hc⟩, Iff.mp⟩

/-! ## The previews against the run -/

theorem missing_eq (d : Definition) :
    missing d = (d.nodes.map Prod.fst).filter fun vmName => d.myip vmName = [] := by
  unfold missing
  rw [List.filter_map]
  refine congrArg _ (List.filter_congr fun n hn => ?_)
  have hmyip : d.myip n.1 = strip (n.2.getD []) := by
    unfold Definition.myip
    rw [lookup_of_mem d.nodup hn]
    rfl
  rw [Function.comp_apply, hmyip]

/-- Looking at the nodes that are not skipped anyway is enough. -/
theorem announce_filter {skips P : Text → Bool} (h : ∀ vm, P vm = false → skips vm = true) :
    announce m lab skips taken vms = announce m lab skips taken (vms.filter P) := by
  induction vms generalizing taken with
  | nil => rfl
  | cons vm vms ih =>
    cases hP : P vm with
    | false => rw [announce, if_pos (h vm hP), List.filter_cons_of_neg (by rw [hP]; decide), ih]
    | true =>
      rw [List.filter_cons_of_pos hP]
      simp only [announce, ih]

theorem announce_names {skips : Text → Bool} (h : ∀ vm, lab.definition.myip vm ≠ [] → skips vm = true) :
    announce m lab skips [] (lab.nodes.map Prod.fst) =
      announce m lab skips [] (missing lab.definition) := by
  have hnames : lab.definition.nodes.map Prod.fst = lab.nodes.map Prod.fst := by
    change (lab.nodes.map _).map _ = _
    rw [List.map_map]
    rfl
  rw [missing_eq, hnames]
  exact announce_filter fun vm hvm => h vm (of_decide_eq_false hvm)

theorem announce_of_no_network {skips : Text → Bool} (h : labNetwork lab.common = none) :
    announce m lab skips taken vms = .ok [] := by
  induction vms generalizing taken with
  | nil => rfl
  | cons vm vms ih =>
    have hnone : allocate m.host (fun _ => false) vm lab.definition taken lab.common.mydomain false =
        .ok none := by
      unfold allocate
      rw [show labNetwork lab.definition.common = none from h]
    rw [announce, hnone, ih]
    exact ite_self _

/-- `preview_addresses` looks at the nodes without an address only. -/
theorem previewAddresses_eq : previewAddresses m lab =
    announce m lab (webSkips lab) [] (missing lab.definition) := by
  have hskips : ∀ vm, lab.definition.myip vm ≠ [] → webSkips lab vm = true := by
    intro vm hvm
    unfold webSkips
    simp [strip_address, hvm]
  unfold previewAddresses
  split
  · rename_i hnet
    rw [announce_of_no_network hnet]
  · exact announce_names hskips

/-- So does the preflight. -/
theorem preflightAddresses_eq : preflightAddresses m lab =
    announce m lab (preflightSkips m lab) [] (missing lab.definition) := by
  refine announce_names fun vm hvm => ?_
  unfold preflightSkips
  rw [Bool.or_eq_true, Bool.not_eq_true']
  refine Or.inl ?_
  rw [← Bool.not_eq_true]
  intro hempty
  refine hvm ?_
  rw [← strip_address]
  unfold NodeConfig.address
  cases hv : (lab.config vm).myip with
  | none => rfl
  | some v =>
    rw [hv] at hempty
    cases v with
    | null => rfl
    | bool b =>
      cases b with
      | false => rfl
      | true => cases hempty
    | text t =>
      obtain rfl : t = [] := of_decide_eq_true hempty
      rfl
    | _ => cases hempty

theorem exists_backend_of_run (h : vms.foldlM (turn m lab) d = some d') (hvm : vmName ∈ vms) :
    ∃ b, backendOf m lab vmName = some b := by
  induction vms generalizing d with
  | nil => exact absurd hvm List.not_mem_nil
  | cons vm vms ih =>
    obtain ⟨d₁, hturn, hrest⟩ := run_cons h
    rcases List.mem_cons.mp hvm with rfl | hvm
    · exact (Option.bind_eq_some_iff.mp hturn).imp fun _ hb => hb.1
    · exact ih hrest hvm

/-- Showing what the run gave, of all nodes or of those without an address. -/
theorem shows_iff {skips : Text → Bool} :
    Shows lab (announce m lab skips [] (missing lab.definition)) d' ↔
      ShowsGiven (announce m lab skips [] (missing lab.definition)) d' (missing lab.definition) := by
  refine exists_congr fun shown => and_congr_right fun hshown => ?_
  have hassigned : ∀ vm ∈ missing lab.definition, assigned lab d' vm = given d' vm := by
    intro vm hvm
    simp only [assigned, given, hvm, true_and]
  constructor
  · exact fun h vm hvm => (h vm).trans (hassigned vm hvm)
  · intro h vm
    by_cases hvm : vm ∈ missing lab.definition
    · rw [h vm hvm, hassigned vm hvm]
    · rw [lookup_eq_none_of_announce hshown hvm, assigned, if_neg fun hall => hvm hall.1]

/-- The run leaves exactly the cloud nodes without an address. -/
theorem assigned_eq_none_iff (h : run m lab = some d') (hvm : vmName ∈ missing lab.definition) :
    assigned lab d' vmName = none ↔ IsCloud m lab vmName := by
  have hw := waiting_missing lab.definition
  have hrun := foldlM_allocateNode h
  have hallocates : (quiet m lab).allocates vmName = false ↔ IsCloud m lab vmName :=
    (exists_backend_of_run h hvm).elim fun b hb => allocates_eq_false_iff hb
  have hempty : assigned lab d' vmName = none ↔ d'.myip vmName = [] := by
    unfold assigned
    rw [ite_eq_right_iff, ← not_imp_not]
    simp [hvm]
  rw [hempty, ← hallocates]
  constructor
  · intro hnil
    rw [← Bool.not_eq_true]
    exact fun hyes => myip_ne_nil_of_run hrun hw hvm hyes hnil
  · intro hno
    rw [(run_frame hrun hw).2.2 vmName (Or.inr hno)]
    exact (hw.2 vmName hvm).2

/-- **When the previews hold**, for a run that completes: exactly when each preview sees each node at its
turn. -/
theorem previews_hold_iff (d' : Definition) (h : run m lab = some d') : PreviewsHold m lab d' ↔
    TurnsSeen m lab (WebSees m lab) lab.definition (missing lab.definition) ∧
      TurnsSeen m lab (PreflightSees m lab) lab.definition (missing lab.definition) := by
  have hw := waiting_missing lab.definition
  have hown := fun vm hvm => (hw.2 vm hvm).2
  have hbackend := fun vm (hvm : vm ∈ missing lab.definition) => exists_backend_of_run h hvm
  have hstart := Ahead.start lab (missing lab.definition)
  have hweb : Shows lab (previewAddresses m lab) d' ↔
      TurnsSeen m lab (WebSees m lab) lab.definition (missing lab.definition) := by
    rw [previewAddresses_eq, shows_iff]
    exact showsGiven_iff (fun vm hvm => (hbackend vm hvm).elim fun b hb => webSkips_iff (hown vm hvm) hb)
      hstart hw h
  have hpreflight : Shows lab (preflightAddresses m lab) d' ↔
      TurnsSeen m lab (PreflightSees m lab) lab.definition (missing lab.definition) := by
    rw [preflightAddresses_eq, shows_iff]
    exact showsGiven_iff (fun vm hvm => (hbackend vm hvm).elim fun b hb => preflightSkips_iff hb)
      hstart hw h
  rw [← hweb, ← hpreflight]
  constructor
  · rintro ⟨web, preflight, hw, hp, hwall, hpall, _⟩
    exact ⟨⟨web, hw, hwall⟩, preflight, hp, hpall⟩
  · rintro ⟨⟨web, hw, hwall⟩, preflight, hp, hpall⟩
    refine ⟨web, preflight, hw, hp, hwall, hpall, fun vm hvm => ?_⟩
    rw [hwall, hpall]
    have hcloud := assigned_eq_none_iff h hvm
    exact ⟨hcloud, hcloud, hcloud⟩

/-! ## A cloud account of the common section -/

/-- A machine whose zones are empty, with the credentials of one cloud account. -/
def awsMachine : Machine where
  host :=
    { zone := fun _ => none
      resolve := fun _ => none
      localIps := ["10.0.0.2".toList]
      digest := fun t => t.length
      isIpv6 := fun _ => false
      isWord := fun c => c.isAlphanum || c = '_' }
  accounts :=
    { load := fun name => if name = "lab-aws".toList then some "aws".toList else none
      listed := [("lab-aws".toList, "aws".toList)]
      load_ne := by
        intro name ct h
        split at h
        · obtain rfl := Option.some.inj h
          exact List.cons_ne_nil _ _
        · cases h }
  BACKEND := none

/-- A lab of one node without an address, with what its common section says of the backend. -/
def oneNodeLab (choice : Fields) : Lab where
  common := ⟨"10.0.0.1".toList, "29".toList, [], "lab".toList⟩
  choice := choice
  nodes := [("n1.lab".toList, some ⟨none, none, none⟩)]
  nodup := List.nodup_singleton _

/-- On a hypervisor, the previews show the address the node gets. -/
theorem previews_hold_iff_libvirt : PreviewsHold awsMachine (oneNodeLab ⟨none, none⟩)
    ((oneNodeLab ⟨none, none⟩).definition.setMyip "n1.lab".toList "10.0.0.3".toList) := by
  have hcloud : ¬ IsCloud awsMachine (oneNodeLab ⟨none, none⟩) "n1.lab".toList := by
    rw [isCloud_iff (b := libvirt) (by decide)]
    exact not_mem_cloud
  have hmissing : missing (oneNodeLab ⟨none, none⟩).definition = ["n1.lab".toList] := by decide
  refine (previews_hold_iff _ (by decide)).mpr ?_
  rw [hmissing]
  refine ⟨⟨Or.inl ⟨?_, ?_⟩, fun _ _ => trivial⟩, Or.inl ⟨?_, ?_, ?_⟩, fun _ _ => trivial⟩
  · exact fun h => absurd h (by decide)
  · exact fun _ _ => hcloud
  · exact fun h => absurd h (by decide)
  · rintro _ _ ct hct
    cases hct
  · rintro _ _ _ ⟨B, hB, _⟩
    cases hB

/-- **A cloud account of the common section**: the run leaves the node to its provider, and the web UI
shows an address for it. -/
theorem common_account_previewed :
    ∃ d', run awsMachine (oneNodeLab ⟨none, some (.text "lab-aws".toList)⟩) = some d' ∧
      ¬ PreviewsHold awsMachine (oneNodeLab ⟨none, some (.text "lab-aws".toList)⟩) d' := by
  refine ⟨(oneNodeLab ⟨none, some (.text "lab-aws".toList)⟩).definition, by decide, ?_⟩
  rintro ⟨web, _, hweb, _, hall, _⟩
  have hshown : previewAddresses awsMachine (oneNodeLab ⟨none, some (.text "lab-aws".toList)⟩) =
      .ok [("n1.lab".toList, "10.0.0.3".toList)] := by decide
  obtain rfl := Except.ok.inj (hshown.symm.trans hweb)
  have hnone : assigned (oneNodeLab ⟨none, some (.text "lab-aws".toList)⟩)
      (oneNodeLab ⟨none, some (.text "lab-aws".toList)⟩).definition "n1.lab".toList = none := by
    decide
  have hself := (hall "n1.lab".toList).trans hnone
  exact absurd hself (by decide)

end LabInABox.Ipalloc.Preview
