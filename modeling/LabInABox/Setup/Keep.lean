import LabInABox.Backend.Reuse
import LabInABox.Setup.Touched

/-!
# What `--keep` asks of the backends

Model of `_create_one_vm` and `phase_create_vms` (`scripts/setup_lab.py`) with the requests they make of
the backends: `destroy_vm` (`scripts/destroy_vm.py`) up to its `delete_vm`, and `provision_vm`
(`scripts/setup_vm.py`) up to its `create_vm`.

* An entry of the log is one of the run (`Setup.Event`) or a request that a VM be deleted or made.
* What a step raises when its backend does not decide it is a parameter (`Rest`).
* An exception that no handler catches ends the phase.

Results:
* `createVms_events`: while every exception is one the handlers catch, the log is that of `Setup.CreateVms`.
* `leavesAlone_iff`: when a run with `--keep` leaves a good VM alone, whatever cannot be asked.
-/

namespace LabInABox.Setup

open Text Backend

/-! ## Requests -/

/-- Where a request goes. -/
inductive Place
  | kvm (host : Text)
  | api
  deriving DecidableEq

/-- An entry of the log of the nodes. -/
inductive Entry
  | event (e : Event)
  | delete (vmName : Text) (place : Place)
  | create (vmName : Text) (place : Place)
  deriving DecidableEq

/-- The place of a backend. -/
def place : VMBackend → Place
  | .libvirt host => .kvm host
  | .harvester | .cloud _ => .api

/-- What the steps raise that the backend does not decide. -/
structure Rest where
  /-- `check_ssh_conn`, of an existing node. -/
  checkSshConn : Option Raised
  /-- The DNS clean-up of `destroy_vm`. -/
  cleanUp : Option Thrown
  /-- The request of `delete_vm` to an API that has the VM. -/
  deletion : Option Thrown
  /-- `provision_vm` before `create_vm`. -/
  preparation : Option Thrown
  /-- `create_vm` and what follows. -/
  creation : Except Thrown (List Text)

variable (s : Site) (rest : Rest) (keep : Bool) (vmName : Text)

/-- `delete_vm` of the backend. Harvester and the clouds die when the API refuses; a cloud first looks for
the VM. -/
def deleteVm : VMBackend → Attempt Entry Thrown
  | .libvirt host =>
    if s.noVirsh host then ([], some (.raised (.runtimeError noVirshMsg)))
    else ([.delete vmName (.kvm host)], none)
  | .harvester =>
    ([.delete vmName .api],
      if s.api.answer = .answers then rest.deletion else some (.raised .systemExit))
  | .cloud c =>
    match c.request s.api.answer with
    | some t => ([], some t)
    | none => if s.api.vm.isSome then ([.delete vmName .api], rest.deletion) else ([], none)

/-- `destroy_vm`, of a node that is not existing. -/
def destroyVm : Attempt Entry Thrown :=
  match s.getBackend true with
  | none => ([], some (.raised .systemExit))
  | some b => andThen ([], rest.cleanUp) fun _ => deleteVm s rest vmName b

/-- `provision_vm`, of a node that is not existing. -/
def provisionVm : List Entry × Except Thrown (List Text) :=
  match s.getBackend false with
  | none => ([], .error (.raised .systemExit))
  | some b =>
    match rest.preparation with
    | some t => ([], .error t)
    | none => ([.create vmName (place b)], rest.creation)

/-! ## Creating the nodes -/

/-- The destroy before a node is made again. -/
def destroyedVm : Attempt Entry Thrown :=
  match destroyVm s rest vmName with
  | (log, some (.raised (.runtimeError e))) => (log ++ [.event (.error (destroyMsg vmName e))], none)
  | (log, some .uncaught) => (log, some .uncaught)
  | (log, some (.raised .systemExit)) | (log, none) => (log, none)

/-- The provisioning of a node. -/
def provisionedVm : Attempt Entry Thrown :=
  match provisionVm s rest vmName with
  | (log, .ok msgs) =>
    (log ++ msgs.map (.event ∘ .error) ++ [.event (.node vmName "created".toList)], none)
  | (log, .error (.raised r)) =>
    (log ++ [.event (.node vmName FAILED), .event (.error (provisionMsg vmName r))], none)
  | (log, .error .uncaught) => (log, some .uncaught)

/-- The `--keep` check: `false` without it. -/
def keepAsked : Except Thrown Bool :=
  if keep then
    match s.getBackend true with
    | none => .error (.raised .systemExit)
    | some b => s.vmIsReusable b
  else .ok false

/-- `_create_one_vm`. -/
def createVm (x : Text × NodeCfg) : Attempt Entry Thrown :=
  let turn : Entry := .event (.turn (.node x.1))
  if x.2.existing then
    match rest.checkSshConn with
    | some r => ([turn], some (.raised r))
    | none => ([turn, .event (.node x.1 "existing".toList)], none)
  else
    match keepAsked s keep with
    | .ok true => ([turn, .event (.node x.1 "reused".toList)], none)
    | .error (.raised (.runtimeError e)) =>
      ([turn, .event (.node x.1 FAILED), .event (.error (keepMsg x.1 e))], none)
    | .error .uncaught => ([turn], some .uncaught)
    | .ok false | .error (.raised .systemExit) =>
      andThen (andThen ([turn], none) fun _ => destroyedVm s rest x.1)
        fun _ => provisionedVm s rest x.1

/-! ## Runs -/

/-- The events of a log. -/
def eventsOf (log : List Entry) : Log := log.filterMap fun | .event e => some e | _ => none

/-- `phase_create_vms`, where each node is on its site. -/
def CreateVmsAt (sites : Text → Site) (rests : Text → Rest) (lab : Lab) (keep : Bool) :
    Nat → Attempt Entry Thrown → Prop :=
  Pooled (fun x => createVm (sites x.1) (rests x.1) keep x) (·.1 ∈ lab.creators) lab.nodes

/-- What a handler takes an exception for. -/
def caught : Thrown → Raised
  | .raised r => r
  | .uncaught => .systemExit

/-- The world of a run whose nodes are on their sites. -/
def asked (sites : Text → Site) (rests : Text → Rest) (w : World) : World :=
  { w with
    checkSshConn := fun n => (rests n).checkSshConn
    vmIsReusable := fun n => (keepAsked (sites n) true).mapError caught
    destroyVm := fun n => (destroyVm (sites n) (rests n) n).2.map caught
    provisionVm := fun n => (provisionVm (sites n) (rests n) n).2.mapError caught
    locateKvmHost := fun n => if (sites n).locateKvmHost.isSome then none else some .systemExit }

/-- No exception escapes the turn of a node but those that a handler catches. -/
def Catches (s : Site) (rest : Rest) (vmName : Text) : Prop :=
  keepAsked s true ≠ .error .uncaught ∧ (destroyVm s rest vmName).2 ≠ some .uncaught ∧
    (provisionVm s rest vmName).2 ≠ .error .uncaught

/-- The entry is a request about a VM. -/
def Entry.isRequest (vmName : Text) : Entry → Bool
  | .event _ => false
  | .delete n _ | .create n _ => n = vmName

/-- A node is left alone: no request is made about its VM, its turn is recorded as a VM that was reused or
as a failure, and after a failure nothing is run against it. -/
structure LeftAlone (sites : Text → Site) (rests : Text → Rest) (lab : Lab) (vmName : Text)
    (p : Attempt Entry Thrown) : Prop where
  requests : ∀ e ∈ p.1, e.isRequest vmName = false
  recorded : .event (.turn (.node vmName)) ∈ p.1 →
    .event (.node vmName "reused".toList) ∈ p.1 ∨ .event (.node vmName FAILED) ∈ p.1
  after : p.2 = none → ∀ (w : World) (op : Op),
    .touch op vmName ∈ (afterCreate (asked sites rests w) lab true (eventsOf p.1, none)).1 →
      vmName ∉ failedNodes (eventsOf p.1)

/-! ## When a node is left alone -/

/-- The VM is asked about, and it is the good one that is found. -/
def Reuses (s : Site) : Prop := ∃ b, s.getBackend true = some b ∧ s.Asked b

/-- What is asked about the VM raises `RuntimeError`, or no backend is found for it and none to make it
on. -/
def FailsQuietly (s : Site) : Prop :=
  match s.getBackend true with
  | none => s.getBackend false = none
  | some (.libvirt host) => s.noVirsh host = true
  | some .harvester => False
  | some (.cloud c) =>
    match s.api.answer with
    | .answers => False
    | .refuses _ => True
    | .silent _ => c.cli = true

/-- Nothing of the rest of a run comes back to a failed node: it is in no cluster that is rebooted, unless
the reboot cannot find it, and stands for no cluster of other nodes. -/
def Parked (lab : Lab) (x : Text × NodeCfg) (s : Site) : Prop :=
  if lab.kclusters ≠ [] ∧ x.2.inCluster = true then
    lab.isHarvesterNode x.2 = false ∧ s.locateKvmHost = none
  else ∀ k ∈ lab.kclusters, x.1 ∈ clusterHosts lab k → x.2.kcluster = some k.1

/-- A good VM is found, or the node fails and is not come back to. -/
def Spares (lab : Lab) (x : Text × NodeCfg) (s : Site) : Prop :=
  Reuses s ∨ (FailsQuietly s ∧ Parked lab x s)

variable {s : Site} {rest : Rest} {keep : Bool} {vmName : Text} {x : Text × NodeCfg} {lab : Lab}
  {sites : Text → Site} {rests : Text → Rest} {parallel : Nat} {p : Attempt Entry Thrown}

/-! ## The turn of a node -/

/-- The entry is one of the turn of a node. -/
def Entry.Of (vmName : Text) : Entry → Prop
  | .event (.turn item) => item = .node vmName
  | .event (.node n _) | .delete n _ | .create n _ => n = vmName
  | .event (.error _) => True
  | .event _ => False

theorem of_mem_deleteVm {b : VMBackend} {e : Entry} (h : e ∈ (deleteVm s rest vmName b).1) :
    e.Of vmName := by
  unfold deleteVm at h
  cases b with
  | libvirt host =>
    dsimp only at h
    split at h
    · exact absurd h List.not_mem_nil
    · rw [List.mem_singleton.mp h]
      rfl
  | harvester =>
    rw [List.mem_singleton.mp h]
    rfl
  | cloud c =>
    dsimp only at h
    split at h
    · exact absurd h List.not_mem_nil
    · split at h
      · rw [List.mem_singleton.mp h]
        rfl
      · exact absurd h List.not_mem_nil

theorem of_mem_destroyVm {e : Entry} (h : e ∈ (destroyVm s rest vmName).1) : e.Of vmName := by
  unfold destroyVm at h
  split at h
  · exact absurd h List.not_mem_nil
  · rcases mem_andThen h with h | ⟨_, h⟩
    · exact absurd h List.not_mem_nil
    · exact of_mem_deleteVm h

/-- The handler adds at most a message. -/
theorem mem_destroyedVm {e : Entry} (h : e ∈ (destroyedVm s rest vmName).1) :
    e ∈ (destroyVm s rest vmName).1 ∨ ∃ msg, e = .event (.error msg) := by
  unfold destroyedVm at h
  split at h
  · rename_i heq
    rw [heq]
    exact (List.mem_append.mp h).imp id fun h => ⟨_, List.mem_singleton.mp h⟩
  · rename_i heq
    rw [heq]
    exact Or.inl h
  · rename_i heq
    rw [heq]
    exact Or.inl h
  · rename_i heq
    rw [heq]
    exact Or.inl h

theorem destroyedVm_returns (h : (destroyVm s rest vmName).2 ≠ some .uncaught) :
    (destroyedVm s rest vmName).2 = none := by
  unfold destroyedVm
  revert h
  rcases destroyVm s rest vmName with ⟨log, _ | (_ | e) | _⟩
  · exact fun _ => rfl
  · exact fun _ => rfl
  · exact fun _ => rfl
  · exact fun h => absurd rfl h

theorem of_mem_destroyedVm {e : Entry} (h : e ∈ (destroyedVm s rest vmName).1) : e.Of vmName := by
  rcases mem_destroyedVm h with h | ⟨msg, rfl⟩
  · exact of_mem_destroyVm h
  · trivial

/-- The provisioning asks for a VM to be made, and reports. -/
theorem mem_provisionedVm {e : Entry} (h : e ∈ (provisionedVm s rest vmName).1) :
    (∃ p, e = .create vmName p) ∨ (∃ status, e = .event (.node vmName status)) ∨
      ∃ msg, e = .event (.error msg) := by
  have hd : ∀ {log t}, provisionVm s rest vmName = (log, t) → e ∈ log → ∃ p, e = .create vmName p :=
    fun heq h => by
      unfold provisionVm at heq
      split at heq
      · cases heq
        exact absurd h List.not_mem_nil
      · split at heq
        · cases heq
          exact absurd h List.not_mem_nil
        · cases heq
          exact ⟨_, List.mem_singleton.mp h⟩
  unfold provisionedVm at h
  split at h
  · rename_i heq
    simp only [List.mem_append, List.mem_map, Function.comp_apply, List.mem_singleton] at h
    rcases h with (h | ⟨msg, _, rfl⟩) | rfl
    · exact Or.inl (hd heq h)
    · exact Or.inr (Or.inr ⟨msg, rfl⟩)
    · exact Or.inr (Or.inl ⟨_, rfl⟩)
  · rename_i heq
    simp only [List.mem_append, List.mem_cons, List.not_mem_nil, or_false] at h
    rcases h with h | rfl | rfl
    · exact Or.inl (hd heq h)
    · exact Or.inr (Or.inl ⟨_, rfl⟩)
    · exact Or.inr (Or.inr ⟨_, rfl⟩)
  · rename_i heq
    exact Or.inl (hd heq h)

theorem of_mem_provisionedVm {e : Entry} (h : e ∈ (provisionedVm s rest vmName).1) :
    e.Of vmName := by
  rcases mem_provisionedVm h with ⟨p, rfl⟩ | ⟨status, rfl⟩ | ⟨msg, rfl⟩
  · rfl
  · rfl
  · trivial

/-- **What the turn of a node writes** is about the node. -/
theorem of_mem_createVm {e : Entry} (h : e ∈ (createVm s rest keep x).1) : e.Of x.1 := by
  have hmade : e ∈ (andThen (andThen ([.event (.turn (.node x.1))], none)
      fun _ => destroyedVm s rest x.1) fun _ => provisionedVm s rest x.1).1 → e.Of x.1 := fun h => by
    rcases mem_andThen h with h | ⟨_, h⟩
    · rcases mem_andThen h with h | ⟨_, h⟩
      · rw [List.mem_singleton.mp h]
        rfl
      · exact of_mem_destroyedVm h
    · exact of_mem_provisionedVm h
  unfold createVm at h
  dsimp only at h
  split at h
  · split at h
    · rw [List.mem_singleton.mp h]
      rfl
    · simp only [List.mem_cons, List.not_mem_nil, or_false] at h
      rcases h with rfl | rfl <;> rfl
  · split at h
    · simp only [List.mem_cons, List.not_mem_nil, or_false] at h
      rcases h with rfl | rfl <;> rfl
    · simp only [List.mem_cons, List.not_mem_nil, or_false] at h
      rcases h with rfl | rfl | rfl
      · rfl
      · rfl
      · trivial
    · rw [List.mem_singleton.mp h]
      rfl
    · exact hmade h
    · exact hmade h

/-- What a turn comes to with `--keep`, by what the check answers. -/
theorem createVm_of_reusable (hex : x.2.existing = false) (h : keepAsked s true = .ok true) :
    createVm s rest true x =
      ([.event (.turn (.node x.1)), .event (.node x.1 "reused".toList)], none) := by
  unfold createVm
  rw [hex, if_neg Bool.false_ne_true, h]

theorem createVm_of_error {e : Text} (hex : x.2.existing = false)
    (h : keepAsked s true = .error (.raised (.runtimeError e))) :
    createVm s rest true x = ([.event (.turn (.node x.1)), .event (.node x.1 FAILED),
      .event (.error (keepMsg x.1 e))], none) := by
  unfold createVm
  rw [hex, if_neg Bool.false_ne_true, h]

theorem createVm_of_uncaught (hex : x.2.existing = false) (h : keepAsked s true = .error .uncaught) :
    createVm s rest true x = ([.event (.turn (.node x.1))], some .uncaught) := by
  unfold createVm
  rw [hex, if_neg Bool.false_ne_true, h]

theorem createVm_of_remade (hex : x.2.existing = false)
    (h : keepAsked s true = .ok false ∨ keepAsked s true = .error (.raised .systemExit)) :
    createVm s rest true x = andThen (andThen ([.event (.turn (.node x.1))], none)
      fun _ => destroyedVm s rest x.1) fun _ => provisionedVm s rest x.1 := by
  unfold createVm
  rw [hex, if_neg Bool.false_ne_true]
  rcases h with h | h <;> rw [h]

theorem keepAsked_of_backend {b : VMBackend} (h : s.getBackend true = some b) :
    keepAsked s true = s.vmIsReusable b := by
  unfold keepAsked
  rw [if_pos rfl, h]

theorem keepAsked_of_none (h : s.getBackend true = none) :
    keepAsked s true = .error (.raised .systemExit) := by
  unfold keepAsked
  rw [if_pos rfl, h]

theorem subset_destroyedVm : (destroyVm s rest vmName).1 ⊆ (destroyedVm s rest vmName).1 := by
  unfold destroyedVm
  split
  · rename_i heq
    rw [heq]
    exact List.subset_append_left _ _
  · rename_i heq
    rw [heq]
    exact List.Subset.refl _
  · rename_i heq
    rw [heq]
    exact List.Subset.refl _
  · rename_i heq
    rw [heq]
    exact List.Subset.refl _

/-- A node whose check says so is destroyed. -/
theorem mem_createVm_of_destroyVm (hex : x.2.existing = false) (h : keepAsked s true = .ok false)
    {e : Entry} (he : e ∈ (destroyVm s rest x.1).1) : e ∈ (createVm s rest true x).1 := by
  rw [createVm_of_remade hex (Or.inl h), andThen_none]
  exact subset_andThen _ _ (List.mem_append_right _ (subset_destroyedVm he))

/-- **A good VM that is found** is reused. -/
theorem createVm_of_reuses (hg : s.Good) (hex : x.2.existing = false) (h : Reuses s) :
    createVm s rest true x =
      ([.event (.turn (.node x.1)), .event (.node x.1 "reused".toList)], none) := by
  obtain ⟨b, hb, hasked⟩ := h
  refine createVm_of_reusable hex ?_
  rw [keepAsked_of_backend hb]
  exact (vmIsReusable_iff hg hb).mpr hasked

/-- **A node that fails quietly** is recorded, and no request is made. -/
theorem createVm_of_failsQuietly (hex : x.2.existing = false) (h : FailsQuietly s) :
    ∃ msg, createVm s rest true x = ([.event (.turn (.node x.1)), .event (.node x.1 FAILED),
      .event (.error msg)], none) := by
  unfold FailsQuietly at h
  split at h
  · rename_i hb
    rw [createVm_of_remade hex (Or.inr (keepAsked_of_none hb))]
    unfold destroyedVm destroyVm provisionedVm provisionVm
    rw [hb, h]
    exact ⟨_, rfl⟩
  · rename_i host hb
    have hask : keepAsked s true = .error (.raised (.runtimeError noVirshMsg)) := by
      rw [keepAsked_of_backend hb]
      exact if_pos h
    exact ⟨_, createVm_of_error hex hask⟩
  · exact h.elim
  · rename_i c hb
    have hask := keepAsked_of_backend hb
    unfold Site.vmIsReusable at hask
    dsimp only at hask
    cases ha : s.api.answer with
    | answers =>
      rw [ha] at h
      exact h.elim
    | refuses msg =>
      rw [ha] at hask
      exact ⟨_, createVm_of_error hex hask⟩
    | silent msg =>
      rw [ha] at h hask
      have hcli : c.cli = true := h
      dsimp only [CloudClass.request] at hask
      rw [if_pos hcli] at hask
      exact ⟨_, createVm_of_error hex hask⟩

/-- Nothing else goes wrong on a node. -/
def obliging : Rest := ⟨none, none, none, none, .ok []⟩

/-- **Any other turn** asks for a VM to be deleted or made, or ends the phase. -/
theorem createVm_of_neither (hg : s.Good) (hex : x.2.existing = false) (hr : ¬ Reuses s)
    (hf : ¬ FailsQuietly s) :
    (∃ e ∈ (createVm s obliging true x).1, e.isRequest x.1 = true) ∨
      createVm s obliging true x = ([.event (.turn (.node x.1))], some .uncaught) := by
  have hdel : ∀ place, .delete x.1 place ∈ (destroyVm s obliging x.1).1 →
      keepAsked s true = .ok false →
      ∃ e ∈ (createVm s obliging true x).1, e.isRequest x.1 = true := fun place hmem hask =>
    ⟨_, mem_createVm_of_destroyVm hex hask hmem, decide_eq_true rfl⟩
  cases hb : s.getBackend true with
  | none =>
    -- the node is placed anew, on a host that can be reached
    unfold FailsQuietly at hf
    rw [hb] at hf
    obtain ⟨b, hb'⟩ := Option.ne_none_iff_exists'.mp hf
    refine Or.inl ⟨.create x.1 (place b), ?_, decide_eq_true rfl⟩
    rw [createVm_of_remade hex (Or.inr (keepAsked_of_none hb))]
    unfold destroyedVm destroyVm provisionedVm provisionVm
    rw [hb, hb']
    exact List.mem_cons_of_mem _ List.mem_cons_self
  | some b =>
    have hask := keepAsked_of_backend hb
    have hkeep : ¬ s.vmIsReusable b = .ok true := fun h =>
      hr ⟨b, hb, (vmIsReusable_iff hg hb).mp h⟩
    have hdestroy : (destroyVm s obliging x.1).1 = (deleteVm s obliging x.1 b).1 := by
      unfold destroyVm
      rw [hb]
      exact List.nil_append _
    unfold FailsQuietly at hf
    rw [hb] at hf
    cases b with
    | libvirt host =>
      have hv : ¬ s.noVirsh host = true := hf
      refine Or.inl (hdel (.kvm host) ?_ ?_)
      · rw [hdestroy]
        unfold deleteVm
        dsimp only
        rw [if_neg hv]
        exact List.mem_cons_self
      · rw [hask]
        unfold Site.vmIsReusable at hkeep ⊢
        dsimp only at hkeep ⊢
        rw [if_neg hv] at hkeep ⊢
        exact congrArg _ (Bool.eq_false_iff.mpr fun h => hkeep (congrArg _ h))
    | harvester =>
      refine Or.inl (hdel .api ?_ ?_)
      · rw [hdestroy]
        exact List.mem_cons_self
      · rw [hask]
        unfold Site.vmIsReusable at hkeep ⊢
        exact congrArg _ (Bool.eq_false_iff.mpr fun h => hkeep (congrArg _ h))
    | cloud c =>
      right
      refine createVm_of_uncaught hex ?_
      rw [hask]
      unfold Site.vmIsReusable
      dsimp only
      cases ha : s.api.answer with
      | answers => exact absurd ((vmIsReusable_iff hg hb).mpr ha) hkeep
      | refuses msg =>
        rw [ha] at hf
        exact absurd trivial hf
      | silent msg =>
        rw [ha] at hf
        have hcli : ¬ c.cli = true := hf
        dsimp only [CloudClass.request]
        rw [if_neg hcli]

/-! ## The log of a run -/

theorem mem_eventsOf {log : List Entry} {e : Event} : e ∈ eventsOf log ↔ .event e ∈ log := by
  simp only [eventsOf, List.mem_filterMap]
  constructor
  · rintro ⟨entry, he, h⟩
    cases entry with
    | event e' =>
      cases h
      exact he
    | delete n place => cases h
    | create n place => cases h
  · exact fun h => ⟨_, h, rfl⟩

theorem eq_of_name_eq {y : Text × NodeCfg} (hx : x ∈ lab.nodes) (hy : y ∈ lab.nodes)
    (h : y.1 = x.1) : y = x :=
  List.inj_on_of_nodup_map lab.nodup_nodes hy hx h

/-- **What a run writes about a node** comes from its turn, all of which is written. -/
theorem mem_createVm_of_mem (h : CreateVmsAt sites rests lab keep parallel p) (hx : x ∈ lab.nodes)
    {e : Entry} (he : e ∈ p.1) (hof : ∀ n, e.Of n → n = x.1) :
    e ∈ (createVm (sites x.1) (rests x.1) keep x).1 ∧
      (createVm (sites x.1) (rests x.1) keep x).1 ⊆ p.1 := by
  obtain ⟨y, hy, hmem, hsub⟩ := Pooled.mem h he
  obtain rfl := eq_of_name_eq hx hy (hof _ (of_mem_createVm hmem))
  exact ⟨hmem, hsub⟩

theorem touch_not_mem (h : CreateVmsAt sites rests lab keep parallel p) (op : Op) (host : Text) :
    .touch op host ∉ eventsOf p.1 := fun hmem => by
  obtain ⟨y, _, hmem, _⟩ := Pooled.mem h (mem_eventsOf.mp hmem)
  exact of_mem_createVm hmem

theorem of_request {e : Entry} {n : Text} (h : e.isRequest vmName = true) (hof : e.Of n) :
    n = vmName := by
  cases e with
  | event e => cases h
  | delete m place => exact hof.symm.trans (of_decide_eq_true h)
  | create m place => exact hof.symm.trans (of_decide_eq_true h)

/-! ## The run without its requests -/

theorem eventsOf_destroyVm : eventsOf (destroyVm s rest vmName).1 = [] := by
  have hdel : ∀ b, eventsOf (deleteVm s rest vmName b).1 = [] := fun b => by
    unfold deleteVm
    cases b with
    | libvirt host =>
      dsimp only
      split <;> rfl
    | harvester => rfl
    | cloud c =>
      dsimp only
      split
      · rfl
      · split <;> rfl
  unfold destroyVm
  split
  · rfl
  · cases rest.cleanUp with
    | none => exact hdel _
    | some t => rfl

theorem eventsOf_provisionVm : eventsOf (provisionVm s rest vmName).1 = [] := by
  unfold provisionVm
  split
  · rfl
  · split <;> rfl

theorem eventsOf_append (log log' : List Entry) :
    eventsOf (log ++ log') = eventsOf log ++ eventsOf log' := List.filterMap_append

theorem destroyedVm_events {w : World}
    (h : (destroyVm (sites vmName) (rests vmName) vmName).2 ≠ some .uncaught) :
    (destroyedVm (sites vmName) (rests vmName) vmName).2 = none ∧
      eventsOf (destroyedVm (sites vmName) (rests vmName) vmName).1 =
        destroyed (asked sites rests w) vmName := by
  have hev : eventsOf (destroyVm (sites vmName) (rests vmName) vmName).1 = [] := eventsOf_destroyVm
  have hw : (asked sites rests w).destroyVm vmName =
    (destroyVm (sites vmName) (rests vmName) vmName).2.map caught := rfl
  unfold destroyedVm destroyed
  rw [hw]
  revert h hev
  rcases destroyVm (sites vmName) (rests vmName) vmName with ⟨log, _ | (_ | e) | _⟩
  · exact fun _ hev => ⟨rfl, hev⟩
  · exact fun _ hev => ⟨rfl, hev⟩
  · refine fun _ hev => ⟨rfl, ?_⟩
    dsimp only at hev ⊢
    rw [eventsOf_append, hev]
    rfl
  · exact fun h => absurd rfl h

theorem provisionedVm_events {w : World}
    (h : (provisionVm (sites vmName) (rests vmName) vmName).2 ≠ .error .uncaught) :
    (provisionedVm (sites vmName) (rests vmName) vmName).2 = none ∧
      eventsOf (provisionedVm (sites vmName) (rests vmName) vmName).1 =
        provisioned (asked sites rests w) vmName := by
  have hev : eventsOf (provisionVm (sites vmName) (rests vmName) vmName).1 = [] := eventsOf_provisionVm
  have hw : (asked sites rests w).provisionVm vmName =
    (provisionVm (sites vmName) (rests vmName) vmName).2.mapError caught := rfl
  have hmsgs : ∀ msgs : List Text, eventsOf (msgs.map (.event ∘ .error)) = msgs.map .error := fun msgs => by
    rw [eventsOf, List.filterMap_map, ← List.filterMap_eq_map]
    rfl
  unfold provisionedVm provisioned
  rw [hw]
  revert h hev
  rcases provisionVm (sites vmName) (rests vmName) vmName with ⟨log, (r | _) | msgs⟩
  · refine fun _ hev => ⟨rfl, ?_⟩
    dsimp only at hev ⊢
    rw [eventsOf_append, hev]
    rfl
  · exact fun h => absurd rfl h
  · refine fun _ hev => ⟨rfl, ?_⟩
    dsimp only at hev ⊢
    rw [eventsOf_append, eventsOf_append, hev, hmsgs]
    rfl

/-- **While no exception escapes the handlers**, the events of a turn are those of `Setup.createOneVm`. -/
theorem createVm_events {w : World} (h : Catches (sites x.1) (rests x.1) x.1) :
    createOneVm (asked sites rests w) keep x =
      (eventsOf (createVm (sites x.1) (rests x.1) keep x).1,
        (createVm (sites x.1) (rests x.1) keep x).2.map caught) := by
  obtain ⟨hkeep, hdestroy, hprovision⟩ := h
  obtain ⟨hdret, hdev⟩ := destroyedVm_events (w := w) hdestroy
  obtain ⟨hpret, hpev⟩ := provisionedVm_events (w := w) hprovision
  have hcheck : keepCheck (asked sites rests w) keep x.1 =
      (keepAsked (sites x.1) keep).mapError caught := by
    cases keep <;> rfl
  have hne : keepAsked (sites x.1) keep ≠ .error .uncaught := by
    cases keep with
    | true => exact hkeep
    | false => exact fun h => by cases h
  have hmade : ([.turn (.node x.1)] ++ (destroyed (asked sites rests w) x.1 ++
      provisioned (asked sites rests w) x.1), (none : Option Raised)) =
      (eventsOf (andThen (andThen ([.event (.turn (.node x.1))], none)
        fun _ => destroyedVm (sites x.1) (rests x.1) x.1)
        fun _ => provisionedVm (sites x.1) (rests x.1) x.1).1,
      (andThen (andThen ([.event (.turn (.node x.1))], none)
        fun _ => destroyedVm (sites x.1) (rests x.1) x.1)
        fun _ => provisionedVm (sites x.1) (rests x.1) x.1).2.map caught) := by
    have hret : (andThen (([.event (.turn (.node x.1))], none) : Attempt Entry Thrown)
        fun _ => destroyedVm (sites x.1) (rests x.1) x.1).2 = none :=
      andThen_returns_iff.mpr ⟨rfl, hdret⟩
    refine Prod.ext ?_ ?_
    · dsimp only
      rw [andThen_log hret, andThen_none, eventsOf_append, eventsOf_append, hdev, hpev,
        List.append_assoc]
      rfl
    · dsimp only
      rw [andThen_returns_iff.mpr ⟨hret, hpret⟩]
      rfl
  unfold createOneVm createVm
  cases x.2.existing with
  | true =>
    have hw : (asked sites rests w).checkSshConn x.1 = (rests x.1).checkSshConn := rfl
    rw [if_pos rfl, if_pos rfl, hw]
    cases (rests x.1).checkSshConn with
    | none => rfl
    | some r => rfl
  | false =>
    rw [if_neg Bool.false_ne_true, if_neg Bool.false_ne_true, hcheck]
    revert hne
    rcases keepAsked (sites x.1) keep with ((_ | e) | _) | (_ | _)
    · exact fun _ => hmade
    · exact fun _ => rfl
    · exact fun h => absurd rfl h
    · exact fun _ => hmade
    · exact fun _ => rfl

/-- So are those of a run. -/
theorem createVms_events {w : World} (h : ∀ x ∈ lab.nodes, Catches (sites x.1) (rests x.1) x.1)
    (hrun : CreateVmsAt sites rests lab keep parallel p) :
    CreateVms (asked sites rests w) lab keep parallel (eventsOf p.1, p.2.map caught) :=
  createVms_iff.mpr (Pooled.map (fun x hx => createVm_events (h x hx)) hrun)

/-! ## Nodes that are left alone -/

/-- **A parked node** that failed is not come back to. -/
theorem not_touched_of_parked {w : World} {op : Op} {created : Log}
    (hc : ∀ op host, .touch op host ∉ created) (hx : x ∈ lab.nodes) (hex : x.2.existing = false)
    (hf : x.1 ∈ failedNodes created) (hp : Parked lab x (sites x.1)) :
    .touch op x.1 ∉ (afterCreate (asked sites rests w) lab true (created, none)).1 := fun ht => by
  have hlocate : (sites x.1).locateKvmHost = none →
      (asked sites rests w).locateKvmHost x.1 ≠ none := fun h => by
    change (if (sites x.1).locateKvmHost.isSome then none else some Raised.systemExit) ≠ none
    rw [h]
    exact Option.some_ne_none _
  unfold Parked at hp
  rcases touch_afterCreate ht with
    ht | ⟨hne, ht⟩ | ⟨failed, hsub, ⟨k, hk, hret, ht⟩ | ⟨y, hy, ht⟩ | ⟨y, hy, ht⟩⟩
  · exact hc _ _ ht
  · obtain ⟨_, y, hy, hin, hxy, hloc⟩ := touch_rebootAndWait ht
    obtain rfl := eq_of_name_eq hx hy hxy.symm
    rw [if_pos ⟨hne, hin⟩] at hp
    exact hlocate hp.2 (hloc hex hp.1)
  · obtain ⟨hall, hhost⟩ := touch_installCluster ht
    have hmem : x ∈ lab.members k.1 := by
      rcases hhost with ⟨y, hy, hxy⟩ | hhost
      · obtain rfl := eq_of_name_eq hx (lab.mem_members.mp hy).1 hxy.symm
        exact hy
      · split at hp
        · rename_i hin
          exact absurd (locateKvmHost_of_returns hret hx hin.2 hex hp.1) (hlocate hp.2)
        · exact lab.mem_members.mpr ⟨hx, hp k hk hhost⟩
    exact hall x hmem (hsub hf)
  · obtain ⟨hyf, hxy⟩ := touch_vmAddons ht
    exact hyf (hxy ▸ hsub hf)
  · obtain ⟨hyf, hxy⟩ := touch_postCommands ht
    exact hyf (hxy ▸ hsub hf)

/-- **A spared node** is left alone in every run. -/
theorem leftAlone_of_spares (hx : x ∈ lab.nodes) (hex : x.2.existing = false)
    (hg : (sites x.1).Good) (h : Spares lab x (sites x.1))
    (hrun : CreateVmsAt sites rests lab true parallel p) : LeftAlone sites rests lab x.1 p := by
  have hmem : ∀ {e}, e ∈ p.1 → (∀ n, e.Of n → n = x.1) →
      e ∈ (createVm (sites x.1) (rests x.1) true x).1 := fun he hof =>
    (mem_createVm_of_mem hrun hx he hof).1
  have hsub : .event (.turn (.node x.1)) ∈ p.1 →
      (createVm (sites x.1) (rests x.1) true x).1 ⊆ p.1 := fun he =>
    (mem_createVm_of_mem hrun hx he fun _ hof => (Item.node.inj hof).symm).2
  rcases h with hr | ⟨hf, hp⟩
  · have hturn : createVm (sites x.1) (rests x.1) true x = _ := createVm_of_reuses hg hex hr
    rw [hturn] at hmem hsub
    refine ⟨fun e he => ?_, fun ht => Or.inl ?_, fun _ w op _ hfail => ?_⟩
    · by_contra hreq
      have hreq : e.isRequest x.1 = true := by simpa using hreq
      have := hmem he fun n => of_request hreq
      simp only [List.mem_cons, List.not_mem_nil, or_false] at this
      rcases this with rfl | rfl <;> cases hreq
    · exact hsub ht (List.mem_cons_of_mem _ List.mem_cons_self)
    · have := hmem (mem_eventsOf.mp (mem_failedNodes.mp hfail)) fun n hof => hof.symm
      simp [FAILED] at this
  · have hquiet : ∃ msg, createVm (sites x.1) (rests x.1) true x = _ := createVm_of_failsQuietly hex hf
    obtain ⟨msg, hturn⟩ := hquiet
    rw [hturn] at hmem hsub
    refine ⟨fun e he => ?_, fun ht => Or.inr ?_, fun _ w op ht hfail => ?_⟩
    · by_contra hreq
      have hreq : e.isRequest x.1 = true := by simpa using hreq
      have := hmem he fun n => of_request hreq
      simp only [List.mem_cons, List.not_mem_nil, or_false] at this
      rcases this with rfl | rfl | rfl <;> cases hreq
    · exact hsub ht (List.mem_cons_of_mem _ List.mem_cons_self)
    · exact not_touched_of_parked (touch_not_mem hrun) hx hex hfail hp ht

/-- A node on the one KVM host, which answers and has a good VM for it. -/
def keptSite : Site where
  common := ⟨none, none⟩
  node := ⟨none, none⟩
  accounts := Backend.noAccounts
  BACKEND := none
  kvmHost := []
  KVM_HOSTS := []
  REMOTE_HOST := "kvm1".toList
  VM_CPU := 2
  VM_MEM := 4096
  VM_DSK := 20
  mymac := "52:54:00:00:00:0A".toList
  myip := "192.0.2.10".toList
  localVirsh := true
  resolves := true
  hypervisor := fun _ =>
    ⟨true, some ⟨"running".toList, some "52:54:00:00:00:0a".toList⟩, some (8, 16384, 204800)⟩
  api := ⟨.answers, none⟩
  gethostbyname := some "192.0.2.10".toList
  ssh := true

theorem good_keptSite : keptSite.Good where
  answers := by decide
  onHost := fun _ => ⟨"kvm1".toList, by decide, _, rfl, rfl, by decide⟩
  onHarvester := fun h => absurd h (by decide)
  onCloud := fun c h => by
    have hclass : keptSite.backendClass = some .libvirt := by decide
    cases hclass.symm.trans h

theorem reuses_keptSite : Reuses keptSite :=
  ⟨.libvirt "kvm1".toList, by decide, rfl, rfl, _, rfl, rfl, by decide⟩

/-- The turn of a node that is there already, or is kept. -/
theorem createVm_keptSite (x : Text × NodeCfg) :
    (createVm keptSite obliging true x).2 = none ∧
      .event (.node x.1 FAILED) ∉ (createVm keptSite obliging true x).1 := by
  cases hex : x.2.existing with
  | true =>
    have hturn : createVm keptSite obliging true x =
        ([.event (.turn (.node x.1)), .event (.node x.1 "existing".toList)], none) := by
      unfold createVm
      rw [hex, if_pos rfl]
      rfl
    rw [hturn]
    simp [FAILED]
  | false =>
    rw [createVm_of_reuses good_keptSite hex reuses_keptSite]
    simp [FAILED]

/-- The run in which a node is on a site and every other one is there already or is kept. -/
def amongKept (vmName : Text) (s : Site) : Text → Site := fun n => if n = vmName then s else keptSite

/-- What it comes to, one by one. -/
def amongKeptRun (lab : Lab) (vmName : Text) (s : Site) : Attempt Entry Thrown :=
  runAll (fun y => createVm (amongKept vmName s y.1) obliging true y) lab.nodes

theorem createVmsAt_amongKept :
    CreateVmsAt (amongKept vmName s) (fun _ => obliging) lab true 0 (amongKeptRun lab vmName s) :=
  Pooled.sequential

theorem amongKept_self : amongKept vmName s vmName = s := if_pos rfl

theorem amongKept_other {y : Text × NodeCfg} (hx : x ∈ lab.nodes) (hy : y ∈ lab.nodes) (hne : y ≠ x) :
    amongKept x.1 s y.1 = keptSite :=
  if_neg fun hn => hne (eq_of_name_eq hx hy hn)

/-- The turn of the node comes. -/
theorem mem_amongKeptRun (hx : x ∈ lab.nodes) {e : Entry} (he : e ∈ (createVm s obliging true x).1) :
    e ∈ (amongKeptRun lab x.1 s).1 := by
  obtain ⟨pre, post, hsplit⟩ := List.append_of_mem hx
  unfold amongKeptRun
  rw [hsplit]
  refine mem_runAll_of_returns (fun y hy => ?_) (by rw [amongKept_self]; exact he)
  have hnd := lab.nodup_nodes
  rw [hsplit, List.map_append, List.map_cons] at hnd
  have hne : y ≠ x := fun hyx => (List.nodup_append.mp hnd).2.2 _ (List.mem_map_of_mem hy) _
    List.mem_cons_self (congrArg Prod.fst hyx)
  rw [amongKept_other hx (hsplit ▸ List.mem_append_left _ hy) hne]
  exact (createVm_keptSite y).1

theorem amongKeptRun_returns (hx : x ∈ lab.nodes) (h : (createVm s obliging true x).2 = none) :
    (amongKeptRun lab x.1 s).2 = none := by
  refine runAll_returns_iff.mpr fun y hy => ?_
  by_cases hyx : y = x
  · rw [hyx, amongKept_self]
    exact h
  · rw [amongKept_other hx hy hyx]
    exact (createVm_keptSite y).1

/-- No other node fails. -/
theorem not_failed_amongKept {y : Text × NodeCfg} (hx : x ∈ lab.nodes) (hy : y ∈ lab.nodes)
    (hne : y ≠ x) : y.1 ∉ failedNodes (eventsOf (amongKeptRun lab x.1 s).1) := fun hf => by
  have hev := mem_eventsOf.mp (mem_failedNodes.mp hf)
  have hmem := (mem_createVm_of_mem createVmsAt_amongKept hy hev fun n hof => hof.symm).1
  rw [amongKept_other hx hy hne] at hmem
  exact (createVm_keptSite y).2 hmem

/-- Every other node is located. -/
theorem located_amongKept {y : Text × NodeCfg} {w : World} (hx : x ∈ lab.nodes) (hy : y ∈ lab.nodes)
    (h : y = x → s.locateKvmHost.isSome) :
    (asked (amongKept x.1 s) (fun _ => obliging) w).locateKvmHost y.1 = none := by
  refine if_pos ?_
  by_cases hyx : y = x
  · rw [hyx, amongKept_self]
    exact h hyx
  · rw [amongKept_other hx hy hyx]
    decide

/-- In every run of a lab, whatever its other nodes are on and whatever else goes wrong, the node is left
alone. -/
def LeavesAlone (lab : Lab) (x : Text × NodeCfg) (s : Site) : Prop :=
  ∀ (sites : Text → Site) (rests : Text → Rest) (parallel : Nat) (p : Attempt Entry Thrown),
    sites x.1 = s → CreateVmsAt sites rests lab true parallel p → LeftAlone sites rests lab x.1 p

theorem leftAlone_amongKept (h : LeavesAlone lab x s) :
    LeftAlone (amongKept x.1 s) (fun _ => obliging) lab x.1 (amongKeptRun lab x.1 s) :=
  h _ _ 0 _ amongKept_self createVmsAt_amongKept

/-- A node that is left alone, but not found good, fails quietly. -/
theorem failsQuietly_of_leavesAlone (hx : x ∈ lab.nodes) (hex : x.2.existing = false) (hg : s.Good)
    (h : LeavesAlone lab x s) (hr : ¬ Reuses s) : FailsQuietly s := by
  have hleft := leftAlone_amongKept h
  by_contra hf
  rcases createVm_of_neither hg hex hr hf with ⟨e, he, hreq⟩ | hturn
  · exact Bool.false_ne_true ((hleft.requests e (mem_amongKeptRun hx he)).symm.trans hreq)
  · have hmem : ∀ {status}, .event (.node x.1 status) ∉ (amongKeptRun lab x.1 s).1 := fun he => by
      have hmem := (mem_createVm_of_mem createVmsAt_amongKept hx he fun n hof => hof.symm).1
      rw [amongKept_self, hturn] at hmem
      simp at hmem
    have hcame : .event (.turn (.node x.1)) ∈ (amongKeptRun lab x.1 s).1 :=
      mem_amongKeptRun hx (by simp [hturn])
    exact (hleft.recorded hcame).elim (absurd · hmem) (absurd · hmem)

/-- **It is not come back to.** -/
theorem parked_of_leavesAlone (hx : x ∈ lab.nodes) (hex : x.2.existing = false)
    (h : LeavesAlone lab x s) (hf : FailsQuietly s) : Parked lab x s := by
  have hleft := leftAlone_amongKept h
  have hquiet : ∃ msg, createVm s obliging true x = _ := createVm_of_failsQuietly hex hf
  obtain ⟨msg, hturn⟩ := hquiet
  have hret : (amongKeptRun lab x.1 s).2 = none := amongKeptRun_returns hx (by rw [hturn])
  have hfailed : x.1 ∈ failedNodes (eventsOf (amongKeptRun lab x.1 s).1) :=
    mem_failedNodes.mpr (mem_eventsOf.mpr (mem_amongKeptRun hx (by simp [hturn])))
  unfold Parked
  split
  · rename_i hin
    by_contra hpark
    have hloc : ∀ y ∈ lab.nodes, lab.isHarvesterNode y.2 = false →
        (asked (amongKept x.1 s) (fun _ => obliging) answering).locateKvmHost y.1 = none :=
      fun y hy hh => located_amongKept hx hy fun hyx =>
        Option.isSome_iff_ne_none.mpr fun hnone => hpark ⟨hyx ▸ hh, hnone⟩
    exact hleft.after hret answering .sshWait (touched_of_inCluster rfl hin.1 hx hin.2
      fun y hy _ => ⟨rfl, fun _ hh => ⟨hloc y hy hh, rfl⟩⟩) hfailed
  · rename_i hin
    intro k hk hhost
    by_contra hother
    let w := asked (amongKept x.1 s) (fun _ => obliging) (onlyInstalls k.1)
    have hinst : Installs w k.1 :=
      have hw := installs_onlyInstalls k.1
      ⟨hw.this, hw.others, hw.placeable⟩
    have hreboot : (rebootAndWaitKeptNodes w lab true).2 = none :=
      rebootAndWaitKeptNodes_returns fun _ y hy hyin => ⟨rfl, fun _ _ =>
        ⟨located_amongKept hx hy fun hyx => absurd ⟨List.ne_nil_of_mem hk, hyx ▸ hyin⟩ hin, rfl⟩⟩
    have hall : ∀ y ∈ lab.members k.1, y.1 ∉ failedNodes (eventsOf (amongKeptRun lab x.1 s).1) :=
      fun y hy => by
        obtain ⟨hy, hyk⟩ := lab.mem_members.mp hy
        exact not_failed_amongKept hx hy fun hyx => hother (hyx ▸ hyk)
    obtain ⟨op, ht⟩ := touched_of_named hinst hreboot hk hall hhost
    exact hleft.after hret (onlyInstalls k.1) op ht hfailed

/-- **When `--keep` leaves a good VM alone**, whatever cannot be asked: the VM is found, or the node fails
quietly and is not come back to. -/
theorem leavesAlone_iff (hx : x ∈ lab.nodes) (hex : x.2.existing = false) (hg : s.Good) :
    LeavesAlone lab x s ↔ Spares lab x s := by
  refine ⟨fun h => ?_, fun h sites rests parallel p hs hrun =>
    leftAlone_of_spares hx hex (hs.symm ▸ hg) (hs.symm ▸ h) hrun⟩
  by_cases hr : Reuses s
  · exact Or.inl hr
  · have hf := failsQuietly_of_leavesAlone hx hex hg h hr
    exact Or.inr ⟨hf, parked_of_leavesAlone hx hex h hf⟩

/-- A lab of one node. -/
def oneNode : Lab where
  nodes := [("a".toList, ⟨false, none, "server".toList, []⟩)]
  kclusters := []
  nodup_nodes := by decide
  nodup_kclusters := by decide
  harvester_nodes := by decide

/-- Its node. -/
def nodeA : Text × NodeCfg := ("a".toList, ⟨false, none, "server".toList, []⟩)

theorem leavesAlone_iff_kept : LeavesAlone oneNode nodeA keptSite :=
  (leavesAlone_iff List.mem_cons_self rfl good_keptSite).mpr (Or.inl reuses_keptSite)

/-- Two KVM hosts. The VM is on the first, which does not answer; the other has room. -/
def silentOwner : Site :=
  { keptSite with
    KVM_HOSTS := "kvm1 kvm2".toList
    hypervisor := fun h =>
      if h = "kvm1".toList then { keptSite.hypervisor h with reachable := false }
      else { keptSite.hypervisor h with domain := none } }

/-- The one host does not answer. -/
def silentHost : Site :=
  { keptSite with hypervisor := fun h => { keptSite.hypervisor h with reachable := false } }

/-- A VM in a cloud that is asked over HTTP and does not answer. -/
def silentCloud : Site :=
  { keptSite with
    node := ⟨some (.text "hetzner".toList), none⟩
    api := ⟨.silent [], some ⟨"running".toList, none⟩⟩ }

theorem good_silentOwner : silentOwner.Good where
  answers := good_keptSite.answers
  onHost := fun _ => ⟨"kvm1".toList, by decide, _, rfl, rfl, by decide⟩
  onHarvester := good_keptSite.onHarvester
  onCloud := good_keptSite.onCloud

theorem good_silentHost : silentHost.Good where
  answers := good_keptSite.answers
  onHost := fun _ => ⟨"kvm1".toList, by decide, _, rfl, rfl, by decide⟩
  onHarvester := good_keptSite.onHarvester
  onCloud := good_keptSite.onCloud

theorem backendClass_silentCloud : silentCloud.backendClass = some (.cloud HetznerBackend) := by
  decide

theorem good_silentCloud : silentCloud.Good where
  answers := good_keptSite.answers
  onHost := fun h => by cases backendClass_silentCloud.symm.trans h
  onHarvester := fun h => by cases backendClass_silentCloud.symm.trans h
  onCloud := fun c h => by
    cases backendClass_silentCloud.symm.trans h
    exact ⟨_, rfl, rfl⟩

/-- **What has the VM does not answer**: the VM is made again on another host; its deletion is asked for;
the run ends without a word about it. -/
theorem not_leavesAlone :
    (silentOwner.Good ∧ ¬ LeavesAlone oneNode nodeA silentOwner) ∧
    (silentHost.Good ∧ ¬ LeavesAlone oneNode nodeA silentHost) ∧
    silentCloud.Good ∧ ¬ LeavesAlone oneNode nodeA silentCloud := by
  have hmade : .create "a".toList (.kvm "kvm2".toList) ∈
      (amongKeptRun oneNode "a".toList silentOwner).1 := by decide
  have hdeleted : .delete "a".toList (.kvm "kvm1".toList) ∈
      (amongKeptRun oneNode "a".toList silentHost).1 := by decide
  refine ⟨⟨good_silentOwner, fun h => ?_⟩, ⟨good_silentHost, fun h => ?_⟩, good_silentCloud, fun h => ?_⟩
  · cases (leftAlone_amongKept h).requests _ hmade
  · cases (leftAlone_amongKept h).requests _ hdeleted
  · rcases (leftAlone_amongKept h).recorded (by decide) with hin | hin
    · exact absurd hin (by decide)
    · exact absurd hin (by decide)

end LabInABox.Setup
