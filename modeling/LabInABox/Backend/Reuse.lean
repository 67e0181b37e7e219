import LabInABox.Backend.Select
import LabInABox.Setup.Phases

/-!
# Whether a VM can be kept

Model of `vm_is_reusable` of the backends and of their `resolve` (`libs/backends.py`), and of where a VM
is looked for and where a new one is placed: `locate_kvm_host`, `resolve_kvm_host` and `select_kvm_host`
(`libs/lab_creation.py`).

* A KVM host or an API is what it answers when it is asked. A libvirt tool whose host cannot be reached
  returns nothing and a code that is not 0; a command of a cloud raises `RuntimeError`. `urlopen` raises
  `URLError`, which the requests of the other clouds do not catch.
* The eight clouds differ in the word for a VM that runs and in how they are asked (`CloudClass`).
* A `Site` is a node as its backend sees it: the fields of the lab and of the configuration that place
  it, and what is there by its name.
* An absent, null or false field is the empty text. The addresses libvirt shows are in lower case.

Results:
* `vmIsReusable_iff`: a good VM is kept iff what is asked about it answers, and it is what is found.
-/

namespace LabInABox.Backend

open Text Schema

/-! ## What is asked -/

/-- What escapes an operation: what the handlers of the run catch, or another exception. -/
inductive Thrown
  | raised (r : Setup.Raised)
  | uncaught
  deriving DecidableEq

/-- A VM by its name: its state, and the address of its first interface. -/
structure Vm where
  state : Text
  mac : Option Text

/-- A KVM host, with its domain by the name of the node and its free CPUs, memory and disk. -/
structure Hypervisor where
  reachable : Bool
  domain : Option Vm
  resources : Option (Int × Int × Int)

/-- `virsh domstate`, stripped. -/
def Hypervisor.domstate (h : Hypervisor) : Text :=
  if h.reachable then (h.domain.map Vm.state).getD [] else []

/-- `virsh dominfo` returns 0. -/
def Hypervisor.dominfo (h : Hypervisor) : Bool := h.reachable && h.domain.isSome

/-- `mac_by_domain.get(vm_name)` of `list_used_macs`. -/
def Hypervisor.listUsedMac (h : Hypervisor) : Option Text :=
  if h.reachable then h.domain.bind Vm.mac else none

/-- `host_resources`, unless it raises. -/
def Hypervisor.hostResources (h : Hypervisor) : Option (Int × Int × Int) :=
  if h.reachable then h.resources else none

/-- What comes of a request to an API. -/
inductive Answer
  | answers
  | refuses (msg : Text)
  | silent (msg : Text)
  deriving DecidableEq

/-- The API of Harvester or of a cloud, with its VM by the name of the node. -/
structure Api where
  answer : Answer
  vm : Option Vm

/-! ## The backends -/

/-- A cloud: its word for a VM that runs, and whether it is asked by a command. -/
structure CloudClass where
  running : Text
  cli : Bool
  deriving DecidableEq

def HetznerBackend : CloudClass := ⟨"running".toList, false⟩

def AWSBackend : CloudClass := ⟨"running".toList, true⟩

def GCPBackend : CloudClass := ⟨"RUNNING".toList, true⟩

def AlibabaBackend : CloudClass := ⟨"Running".toList, true⟩

def ScalewayBackend : CloudClass := ⟨"running".toList, false⟩

def UpCloudBackend : CloudClass := ⟨"started".toList, false⟩

def OVHcloudBackend : CloudClass := ⟨"ACTIVE".toList, false⟩

def ExoscaleBackend : CloudClass := ⟨"running".toList, true⟩

/-- `_aws`, `_gcloud`, `_aliyun`, `_exo` and the `_api` of the other clouds: what a request raises. -/
def CloudClass.request (c : CloudClass) : Answer → Option Thrown
  | .answers => none
  | .refuses msg => some (.raised (.runtimeError msg))
  | .silent msg => some (if c.cli then .raised (.runtimeError msg) else .uncaught)

/-- The class of a backend. -/
inductive BackendClass
  | libvirt
  | harvester
  | cloud (c : CloudClass)
  deriving DecidableEq

/-- The entries of `BACKENDS`. -/
def backendClasses : List (Text × BackendClass) :=
  [(libvirt, .libvirt), ("harvester".toList, .harvester), ("hetzner".toList, .cloud HetznerBackend),
    ("aws".toList, .cloud AWSBackend), ("gcp".toList, .cloud GCPBackend),
    ("alibaba".toList, .cloud AlibabaBackend), ("scaleway".toList, .cloud ScalewayBackend),
    ("upcloud".toList, .cloud UpCloudBackend), ("ovhcloud".toList, .cloud OVHcloudBackend),
    ("exoscale".toList, .cloud ExoscaleBackend)]

theorem keys_backendClasses : backendClasses.map Prod.fst = BACKENDS := rfl

/-- A node as its backend sees it. -/
structure Site where
  common : Fields
  node : Fields
  accounts : Accounts
  BACKEND : Option Text
  /-- The node's `kvm_host`. -/
  kvmHost : Text
  KVM_HOSTS : Text
  REMOTE_HOST : Text
  VM_CPU : Int
  VM_MEM : Int
  VM_DSK : Int
  mymac : Text
  myip : Text
  /-- `_has_local_binary("virsh")`. -/
  localVirsh : Bool
  /-- The `resolve` of Harvester or of a cloud finds its credentials. -/
  resolves : Bool
  hypervisor : Text → Hypervisor
  api : Api
  /-- `socket.gethostbyname(vm_name)`. -/
  gethostbyname : Option Text
  /-- SSH as root returns 0. -/
  ssh : Bool

variable (s : Site)

/-- The class `get_backend` chooses, unless it dies. -/
def Site.backendClass : Option BackendClass :=
  (getBackend s.accounts s.BACKEND s.common s.node).bind fun name => backendClasses.lookup name

/-! ## Where a VM is -/

/-- The hosts of `_configured_hosts`. -/
def Site.configuredHosts : List Text := fields (if s.KVM_HOSTS ≠ [] then s.KVM_HOSTS else s.REMOTE_HOST)

/-- `locate_kvm_host`, unless it dies. -/
def Site.locateKvmHost : Option Text :=
  if s.kvmHost ≠ [] then some s.kvmHost
  else match s.configuredHosts with
    | [] => some s.REMOTE_HOST
    | [host] => some host
    | hosts => hosts.find? fun host => (s.hypervisor host).dominfo

/-- The host has room for the VM. -/
def Site.fits (host : Text) : Bool :=
  (s.hypervisor host).hostResources.any fun (cpu, mem, disk) =>
    s.VM_CPU ≤ cpu && s.VM_MEM ≤ mem && s.VM_DSK * 1024 ≤ disk

/-- The first of two candidates in `candidates.sort(reverse=True)`. -/
def larger (a b : Int × Text) : Int × Text := if a.1 < b.1 ∨ (a.1 = b.1 ∧ a.2 < b.2) then b else a

/-- `select_kvm_host`, unless it dies: of the hosts with room the one with the most memory. -/
def Site.selectKvmHost (hosts : List Text) : Option Text :=
  match (hosts.filter s.fits).map fun host => (((s.hypervisor host).hostResources.map (·.2.1)).getD 0, host) with
  | [] => none
  | candidate :: candidates => some (candidates.foldl larger candidate).2

/-- `resolve_kvm_host`, unless it dies. -/
def Site.resolveKvmHost : Option Text :=
  if s.kvmHost ≠ [] then some s.kvmHost
  else match s.configuredHosts with
    | [] => some s.REMOTE_HOST
    | [host] => some host
    | hosts => s.selectKvmHost hosts

/-- A backend that is ready. -/
inductive VMBackend
  | libvirt (remoteHost : Text)
  | harvester
  | cloud (c : CloudClass)
  deriving DecidableEq

/-- `get_backend(definition, config, vm_name, for_existing)`, unless it dies. -/
def Site.getBackend (forExisting : Bool) : Option VMBackend :=
  match s.backendClass with
  | none => none
  | some .libvirt => (if forExisting then s.locateKvmHost else s.resolveKvmHost).map .libvirt
  | some .harvester => if s.resolves then some .harvester else none
  | some (.cloud c) => if s.resolves then some (.cloud c) else none

/-! ## The check -/

/-- The VM has the address the lab gives, if it gives one. -/
def Site.macMatches (actual : Option Text) : Bool :=
  s.mymac = [] || lower s.mymac = actual.getD "NOT_FOUND".toList

/-- `_reachable_for_keep(vm_name, myip)`. -/
def Site.reachableForKeep : Bool := s.gethostbyname = some s.myip && s.ssh

/-- There is no `virsh` here, and no host to run it on. -/
def Site.noVirsh (host : Text) : Bool := host = [] && !s.localVirsh

/-- The message of `run_libvirt_tool` then. -/
def noVirshMsg : Text := "no local virsh and no remote_host to reach it via SSH".toList

/-- `vm_is_reusable` of the backend. -/
def Site.vmIsReusable : VMBackend → Except Thrown Bool
  | .libvirt host =>
    if s.noVirsh host then .error (.raised (.runtimeError noVirshMsg))
    else
      .ok ((s.hypervisor host).domstate = "running".toList &&
        s.macMatches (s.hypervisor host).listUsedMac && s.reachableForKeep)
  | .harvester =>
    .ok (s.api.answer = .answers && s.api.vm.any (·.state = "Running".toList) &&
      s.macMatches (s.api.vm.bind Vm.mac) && s.reachableForKeep)
  | .cloud c =>
    match c.request s.api.answer with
    | some t => .error t
    | none => .ok (s.api.vm.any (·.state = c.running) && s.reachableForKeep)

/-! ## VMs that are kept -/

/-- The VM is there, runs and has the address the lab gives. -/
def Site.Runs (running : Text) (vm : Option Vm) : Prop :=
  ∃ v, vm = some v ∧ v.state = running ∧ s.macMatches v.mac = true

/-- The hosts a VM of the lab may be on. -/
def Site.kvmHosts : List Text :=
  if s.kvmHost ≠ [] then [s.kvmHost]
  else if s.configuredHosts = [] then [s.REMOTE_HOST] else s.configuredHosts

/-- The node's VM exists, runs, has the wanted address and answers as the lab says. -/
structure Site.Good : Prop where
  answers : s.reachableForKeep = true
  onHost : s.backendClass = some .libvirt →
    ∃ host ∈ s.kvmHosts, s.Runs "running".toList (s.hypervisor host).domain
  onHarvester : s.backendClass = some .harvester → s.Runs "Running".toList s.api.vm
  onCloud : ∀ c, s.backendClass = some (.cloud c) → ∃ v, s.api.vm = some v ∧ v.state = c.running

/-- What is asked about the VM answers, and it is the good one that is found. -/
def Site.Asked : VMBackend → Prop
  | .libvirt host => s.noVirsh host = false ∧ (s.hypervisor host).reachable = true ∧
      s.Runs "running".toList (s.hypervisor host).domain
  | .harvester | .cloud _ => s.api.answer = .answers

variable {s} {host : Text} {b : VMBackend}

/-- **When libvirt keeps a VM.** -/
theorem vmIsReusable_libvirt_iff (ha : s.reachableForKeep = true) :
    s.vmIsReusable (.libvirt host) = .ok true ↔ s.Asked (.libvirt host) := by
  unfold Site.vmIsReusable Site.Asked
  dsimp only
  by_cases hv : s.noVirsh host = true
  · rw [if_pos hv]
    exact ⟨fun h => (by cases h), fun h => absurd (h.1.symm.trans hv) Bool.false_ne_true⟩
  · rw [if_neg hv, ha, Except.ok.injEq, Bool.and_true, Bool.and_eq_true, decide_eq_true_eq,
      Bool.eq_false_iff.mpr hv]
    unfold Hypervisor.domstate Hypervisor.listUsedMac
    generalize hrunning : "running".toList = running
    cases hr : (s.hypervisor host).reachable with
    | false => simp [← hrunning]
    | true =>
      unfold Site.Runs
      cases hd : (s.hypervisor host).domain with
      | none => simp [← hrunning]
      | some v => simp

theorem vmIsReusable_harvester_iff (ha : s.reachableForKeep = true)
    (hv : s.Runs "Running".toList s.api.vm) :
    s.vmIsReusable .harvester = .ok true ↔ s.api.answer = .answers := by
  obtain ⟨v, hv, hst, hm⟩ := hv
  have hrun : s.api.vm.any (·.state = "Running".toList) = true := by
    rw [hv, Option.any_some, hst, decide_eq_true rfl]
  unfold Site.vmIsReusable
  rw [hrun, hv, ha, Option.bind_some, hm, Except.ok.injEq]
  simp only [Bool.and_true, decide_eq_true_eq]

/-- A backend that is chosen for an existing VM is of the class that is chosen. -/
theorem backendClass_of_getBackend {forExisting : Bool} (h : s.getBackend forExisting = some b) :
    match b with
    | .libvirt _ => s.backendClass = some .libvirt
    | .harvester => s.backendClass = some .harvester
    | .cloud c => s.backendClass = some (.cloud c) := by
  unfold Site.getBackend at h
  cases hc : s.backendClass with
  | none =>
    rw [hc] at h
    cases h
  | some k =>
    rw [hc] at h
    cases k with
    | libvirt =>
      obtain ⟨host, _, rfl⟩ := Option.map_eq_some_iff.mp h
      rfl
    | harvester =>
      dsimp only at h
      split at h
      · cases h
        rfl
      · cases h
    | cloud c =>
      dsimp only at h
      split at h
      · cases h
        rfl
      · cases h

/-- **A good VM is kept** iff what is asked about it answers, and it is what is found. -/
theorem vmIsReusable_iff (hg : s.Good) {forExisting : Bool} (hb : s.getBackend forExisting = some b) :
    s.vmIsReusable b = .ok true ↔ s.Asked b := by
  have hclass := backendClass_of_getBackend hb
  cases b with
  | libvirt host => exact vmIsReusable_libvirt_iff hg.answers
  | harvester => exact vmIsReusable_harvester_iff hg.answers (hg.onHarvester hclass)
  | cloud c =>
    obtain ⟨v, hv, hst⟩ := hg.onCloud c hclass
    have hrun : s.api.vm.any (·.state = c.running) = true := by
      rw [hv, Option.any_some, hst, decide_eq_true rfl]
    unfold Site.vmIsReusable Site.Asked
    cases hans : s.api.answer with
    | answers => simp only [CloudClass.request, hrun, hg.answers, Bool.and_true]
    | refuses msg => simp [CloudClass.request]
    | silent msg => simp [CloudClass.request]

/-- No check dies. -/
theorem vmIsReusable_ne_exit : s.vmIsReusable b ≠ .error (.raised .systemExit) := fun h => by
  unfold Site.vmIsReusable at h
  cases b with
  | libvirt host =>
    dsimp only at h
    split at h <;> cases h
  | harvester => cases h
  | cloud c =>
    dsimp only at h
    unfold CloudClass.request at h
    cases ha : s.api.answer with
    | answers => simp [ha] at h
    | refuses msg => simp [ha] at h
    | silent msg => cases hc : c.cli <;> simp [ha, hc] at h

/-- What a check raises that no handler catches: a cloud that is asked over HTTP does not answer. -/
theorem exists_of_vmIsReusable_uncaught (h : s.vmIsReusable b = .error .uncaught) :
    ∃ c msg, b = .cloud c ∧ s.api.answer = .silent msg ∧ c.cli = false := by
  unfold Site.vmIsReusable at h
  cases b with
  | libvirt host =>
    dsimp only at h
    split at h <;> cases h
  | harvester => cases h
  | cloud c =>
    dsimp only at h
    unfold CloudClass.request at h
    cases ha : s.api.answer with
    | answers => simp [ha] at h
    | refuses msg => simp [ha] at h
    | silent msg =>
      refine ⟨c, msg, rfl, rfl, ?_⟩
      by_contra hc
      simp [ha, hc] at h

/-- The VM of the node is not to be made again: it runs as the lab says, or its backend cannot say. -/
def Site.Keeps (s : Site) : VMBackend → Prop
  | .libvirt host => s.noVirsh host = true ∨ (s.reachableForKeep = true ∧
      (s.hypervisor host).reachable = true ∧ s.Runs "running".toList (s.hypervisor host).domain)
  | .harvester => s.reachableForKeep = true ∧ s.api.answer = .answers ∧
      s.Runs "Running".toList s.api.vm
  | .cloud c => s.api.answer = .answers → s.reachableForKeep = true ∧
      ∃ v, s.api.vm = some v ∧ v.state = c.running

/-- **When the check says that a VM be made again.** -/
theorem vmIsReusable_eq_false_iff : s.vmIsReusable b = .ok false ↔ ¬ s.Keeps b := by
  cases b with
  | libvirt host =>
    unfold Site.Keeps
    by_cases hv : s.noVirsh host = true
    · unfold Site.vmIsReusable
      dsimp only
      rw [if_pos hv]
      exact ⟨fun h => (by cases h), fun h => absurd (Or.inl hv) h⟩
    · by_cases ha : s.reachableForKeep = true
      · have hiff : s.vmIsReusable (.libvirt host) = .ok true ↔ s.Asked (.libvirt host) :=
          vmIsReusable_libvirt_iff ha
        unfold Site.Asked Site.vmIsReusable at hiff
        unfold Site.vmIsReusable
        dsimp only at hiff ⊢
        rw [if_neg hv, Except.ok.injEq] at hiff ⊢
        rw [← Bool.not_eq_true, hiff]
        simp [hv, ha]
      · unfold Site.vmIsReusable
        dsimp only
        rw [if_neg hv, Bool.eq_false_iff.mpr ha, Bool.and_false]
        simp [hv]
  | harvester =>
    unfold Site.Keeps Site.vmIsReusable Site.Runs
    dsimp only
    rw [Except.ok.injEq]
    generalize "Running".toList = running
    cases hvm : s.api.vm with
    | none => simp
    | some v =>
      simp only [Option.any_some, Option.bind_some, Bool.and_eq_false_iff, decide_eq_false_iff_not,
        Option.some.injEq, exists_eq_left', not_and_or, Bool.not_eq_true]
      tauto
  | cloud c =>
    unfold Site.Keeps Site.vmIsReusable
    dsimp only
    cases ha : s.api.answer with
    | answers =>
      simp only [CloudClass.request, Except.ok.injEq]
      cases hvm : s.api.vm with
      | none => simp
      | some v => simp [imp_iff_not_or, or_comm]
    | refuses msg => simp [CloudClass.request]
    | silent msg => simp [CloudClass.request]

end LabInABox.Backend
