import LabInABox.Setup.Keep

/-!
# The tools of the MCP endpoint

Model of the tools of `mcp/mcp_server.py` and of `destroy_lab` (`scripts/destroy_lab.py`), as far as the
requests they make of the backends go.

* The tools that change something are registered only when `MCP_ALLOW_MUTATIONS` says so. Each of them
  first compares `confirm` with its target.
* `deploy_lab` and `rebuild_lab` run `setup_lab` one node at a time, with and without `--keep`.
* What a call finds is a `Server`: the lab files, which of them pass the preflight, and the site of each
  node. What else goes wrong in it is the call's own (`Trouble`).

Results:
* `confirmed_of_delete`: a tool asks for a deletion only after its own target was confirmed.
* `nonDestructive_iff`: when `deploy_lab` asks for the deletion of no VM that was there.
-/

namespace LabInABox.Setup

open Text Backend

/-! ## The tools -/

/-- A tool of the endpoint. -/
inductive Tool
  | readOnly (name : Text)
  | deployLab
  | rebuildLab
  | destroyLab
  | destroyVm (vmName : Text)
  deriving DecidableEq

/-- A call of a tool. -/
structure Call where
  tool : Tool
  jsonFile : Text
  confirm : Text

/-- `os.path.basename(path)`. -/
def basename (path : Text) : Text := (path.splitOn '/').getLastD []

theorem basename_eq_self {t : Text} (h : '/' ∉ t) : basename t = t := by
  rw [basename, List.splitOn_eq_singleton h]
  rfl

/-- What is put at the end of a path is put at the end of the name. -/
theorem basename_append (p : Text) {s : Text} (hs : '/' ∉ s) : basename (p ++ s) = basename p ++ s := by
  by_cases hp : '/' ∈ p
  · obtain ⟨as, bs, hsplit, hmem⟩ := List.eq_append_cons_of_mem (List.mem_reverse.mpr hp)
    have hp' : p = bs.reverse ++ '/' :: as.reverse := by
      rw [← List.reverse_reverse p, hsplit, List.reverse_append, List.reverse_cons, List.append_assoc]
      rfl
    have hlast {t : Text} (ht : '/' ∉ t) : basename (bs.reverse ++ '/' :: t) = t := by
      rw [basename, List.splitOn_append_cons_self, List.splitOn_eq_singleton ht, List.getLastD_concat]
    have has : '/' ∉ as.reverse := fun h => hmem (List.mem_reverse.mp h)
    rw [hp', List.append_assoc, List.cons_append, hlast has, hlast]
    rw [List.mem_append, not_or]
    exact ⟨has, hs⟩
  · rw [basename_eq_self hp, basename_eq_self]
    rw [List.mem_append, not_or]
    exact ⟨hp, hs⟩

/-- The target of a call. -/
def Call.target (c : Call) : Text :=
  match c.tool with
  | .destroyVm vmName => vmName ++ '@' :: basename c.jsonFile
  | _ => basename c.jsonFile

/-- What a call finds. -/
structure Server where
  MCP_ALLOW_MUTATIONS : Text
  /-- `primary.load_definition(json_file)`, unless it raises. -/
  loadDefinition : Text → Option Lab
  /-- `validate_lab_definition`, of a file. -/
  validates : Text → Bool
  sites : Text → Text → Site

/-- What goes wrong in a call besides: before the nodes are created, and at each. -/
structure Trouble where
  before : Option Raised
  rests : Text → Rest

/-- `register_mutating_tools` registers them. -/
def Server.allowsMutations (srv : Server) : Bool :=
  lower srv.MCP_ALLOW_MUTATIONS ∈ ["1".toList, "true".toList, "yes".toList]

variable (srv : Server) (trouble : Trouble)

/-- The requests of `setup_lab`, after the file was loaded and passed the preflight. -/
def Server.setUp (keep : Bool) (jsonFile : Text) : List Entry :=
  match srv.loadDefinition jsonFile with
  | none => []
  | some lab =>
    if srv.validates jsonFile && trouble.before.isNone then
      (runAll (fun x => createVm (srv.sites jsonFile x.1) (trouble.rests x.1) keep x) lab.nodes).1
    else []

/-- `destroy_vm(definition, config, defaults, vm_name)`: an existing node is refused. -/
def Server.destroyNode (jsonFile : Text) (lab : Lab) (vmName : Text) : Attempt Entry Thrown :=
  if (lab.nodes.lookup vmName).any NodeCfg.existing then ([], none)
  else destroyVm (srv.sites jsonFile vmName) (trouble.rests vmName) vmName

/-- The body of the loop of `destroy_lab`. -/
def Server.destroyEach (jsonFile : Text) (lab : Lab) (vmName : Text) : Attempt Entry Thrown :=
  match srv.destroyNode trouble jsonFile lab vmName with
  | (log, some .uncaught) => (log, some .uncaught)
  | (log, _) => (log, none)

/-- What a tool that changes something does once it was confirmed. -/
def Server.mutate (c : Call) : List Entry :=
  match c.tool with
  | .readOnly _ => []
  | .deployLab => srv.setUp trouble true c.jsonFile
  | .rebuildLab => srv.setUp trouble false c.jsonFile
  | .destroyLab =>
    match srv.loadDefinition c.jsonFile with
    | none => []
    | some lab => (runAll (srv.destroyEach trouble c.jsonFile lab) (lab.nodes.map Prod.fst)).1
  | .destroyVm vmName =>
    match srv.loadDefinition c.jsonFile with
    | none => []
    | some lab => (srv.destroyNode trouble c.jsonFile lab vmName).1

/-- **The requests of a call**: those of a registered tool whose target is confirmed. -/
def Server.call (c : Call) : List Entry :=
  if srv.allowsMutations ∧ c.confirm = c.target then srv.mutate trouble c else []

/-! ## What a deployment may ask -/

/-- The VM of the node is there. -/
def hasVm (s : Site) : Place → Bool
  | .kvm host => (s.hypervisor host).domain.isSome
  | .api => s.api.vm.isSome

/-- **No call asks for the deletion of a VM that is there** but those of the three destructive tools, once
their own target is confirmed. -/
def NonDestructive : Prop :=
  ∀ (c : Call) (trouble : Trouble) (vmName : Text) (place : Place),
    .delete vmName place ∈ srv.call trouble c → hasVm (srv.sites c.jsonFile vmName) place = true →
      (c.tool = .rebuildLab ∨ c.tool = .destroyLab ∨ ∃ n, c.tool = .destroyVm n) ∧
        c.confirm = c.target

/-- The `--keep` check of the node ends the run: its cloud is asked over HTTP and does not answer. -/
def Stops (s : Site) (x : Text × NodeCfg) : Prop :=
  x.2.existing = false ∧ ∃ c msg, s.getBackend true = some (.cloud c) ∧
    s.api.answer = .silent msg ∧ c.cli = false

/-- Every VM the run comes to is absent, or is one that is not to be made again. -/
def VmsKept (lab : Lab) (sites : Text → Site) : Prop :=
  ∀ pre x post, lab.nodes = pre ++ x :: post → (∀ y ∈ pre, ¬ Stops (sites y.1) y) →
    x.2.existing = false → ∀ b, (sites x.1).getBackend true = some b →
      hasVm (sites x.1) (place b) = true → (sites x.1).Keeps b

variable {srv trouble} {c : Call} {lab : Lab} {s : Site} {rest : Rest} {x : Text × NodeCfg}
  {vmName : Text} {p : Place}

/-- A deletion is asked for where the VM is looked for. -/
theorem delete_mem_destroyVm (h : .delete vmName p ∈ (destroyVm s rest vmName).1) :
    ∃ b, s.getBackend true = some b ∧ p = place b := by
  unfold destroyVm at h
  split at h
  · exact absurd h List.not_mem_nil
  · rename_i b hb
    refine ⟨b, hb, ?_⟩
    rcases mem_andThen h with h | ⟨_, h⟩
    · exact absurd h List.not_mem_nil
    · unfold deleteVm at h
      cases b with
      | libvirt host =>
        dsimp only at h
        split at h
        · exact absurd h List.not_mem_nil
        · exact (Entry.delete.inj (List.mem_singleton.mp h)).2
      | harvester => exact (Entry.delete.inj (List.mem_singleton.mp h)).2
      | cloud cls =>
        dsimp only at h
        split at h
        · exact absurd h List.not_mem_nil
        · split at h
          · exact (Entry.delete.inj (List.mem_singleton.mp h)).2
          · exact absurd h List.not_mem_nil

/-- A turn asks for a deletion only when the check said that the VM be made again. -/
theorem delete_mem_createVm (h : .delete vmName p ∈ (createVm s rest true x).1) :
    vmName = x.1 ∧ x.2.existing = false ∧
      ∃ b, s.getBackend true = some b ∧ p = place b ∧ ¬ s.Keeps b := by
  have hname : vmName = x.1 := of_mem_createVm h
  subst hname
  have hex : x.2.existing = false := by
    by_contra hex
    unfold createVm at h
    dsimp only at h
    rw [if_pos (by simpa using hex)] at h
    cases hc : rest.checkSshConn <;> simp [hc] at h
  have hmade : .delete x.1 p ∈ (andThen (andThen (([.event (.turn (.node x.1))], none) :
      Attempt Entry Thrown) fun _ => destroyedVm s rest x.1) fun _ => provisionedVm s rest x.1).1 →
      .delete x.1 p ∈ (destroyVm s rest x.1).1 := fun h => by
    rcases mem_andThen h with h | ⟨_, h⟩
    · rcases mem_andThen h with h | ⟨_, h⟩
      · cases List.mem_singleton.mp h
      · rcases mem_destroyedVm h with h | ⟨msg, h⟩
        · exact h
        · cases h
    · rcases mem_provisionedVm h with ⟨_, h⟩ | ⟨_, h⟩ | ⟨_, h⟩ <;> cases h
  refine ⟨rfl, hex, ?_⟩
  cases hask : keepAsked s true with
  | error t =>
    cases t with
    | uncaught => simp [createVm_of_uncaught hex hask] at h
    | raised r =>
      cases r with
      | runtimeError e => simp [createVm_of_error hex hask] at h
      | systemExit =>
        rw [createVm_of_remade hex (Or.inr hask)] at h
        obtain ⟨b, hb, _⟩ := delete_mem_destroyVm (hmade h)
        exact absurd (keepAsked_of_backend hb ▸ hask) vmIsReusable_ne_exit
  | ok reusable =>
    cases reusable with
    | true => simp [createVm_of_reusable hex hask] at h
    | false =>
      rw [createVm_of_remade hex (Or.inl hask)] at h
      obtain ⟨b, hb, hp⟩ := delete_mem_destroyVm (hmade h)
      rw [keepAsked_of_backend hb] at hask
      exact ⟨b, hb, hp, vmIsReusable_eq_false_iff.mp hask⟩

/-- It then does ask for it, where nothing else goes wrong and the VM is there. -/
theorem delete_mem_of_not_keeps {b : VMBackend} (hex : x.2.existing = false)
    (hb : s.getBackend true = some b) (hvm : hasVm s (place b) = true) (hk : ¬ s.Keeps b) :
    .delete x.1 (place b) ∈ (createVm s obliging true x).1 := by
  have hask := vmIsReusable_eq_false_iff.mpr hk
  refine mem_createVm_of_destroyVm hex ((keepAsked_of_backend hb).trans hask) ?_
  unfold destroyVm
  rw [hb]
  change _ ∈ [] ++ (deleteVm s obliging x.1 b).1
  unfold deleteVm
  cases b with
  | libvirt host =>
    have hv : ¬ s.noVirsh host = true := fun hv => hk (Or.inl hv)
    dsimp only
    rw [if_neg hv]
    exact List.mem_cons_self
  | harvester => exact List.mem_cons_self
  | cloud cls =>
    have ha : s.api.answer = .answers := by
      by_contra ha
      exact hk fun h => absurd h ha
    have hvm : s.api.vm.isSome = true := hvm
    dsimp only
    rw [ha, hvm]
    exact List.mem_cons_self

/-- A turn that does not end the run. -/
theorem createVm_returns (h : ¬ Stops s x) : (createVm s obliging true x).2 = none := by
  cases hex : x.2.existing with
  | true =>
    unfold createVm
    rw [hex]
    rfl
  | false =>
    have hprov : (provisionedVm s obliging x.1).2 = none := by
      unfold provisionedVm provisionVm
      cases s.getBackend false <;> rfl
    have hmade : (destroyVm s obliging x.1).2 ≠ some .uncaught →
        (andThen (andThen (([.event (.turn (.node x.1))], none) : Attempt Entry Thrown)
          fun _ => destroyedVm s obliging x.1) fun _ => provisionedVm s obliging x.1).2 = none :=
      fun hd => andThen_returns_iff.mpr ⟨andThen_returns_iff.mpr ⟨rfl, destroyedVm_returns hd⟩, hprov⟩
    cases hask : keepAsked s true with
    | error t =>
      cases t with
      | uncaught =>
        exfalso
        cases hb : s.getBackend true with
        | none => cases (keepAsked_of_none hb).symm.trans hask
        | some b =>
          obtain ⟨c, msg, rfl, ha, hc⟩ :=
            exists_of_vmIsReusable_uncaught ((keepAsked_of_backend hb).symm.trans hask)
          exact h ⟨hex, c, msg, hb, ha, hc⟩
      | raised r =>
        cases r with
        | runtimeError e => rw [createVm_of_error hex hask]
        | systemExit =>
          rw [createVm_of_remade hex (Or.inr hask)]
          refine hmade fun hd => ?_
          cases hb : s.getBackend true with
          | none =>
            unfold destroyVm at hd
            rw [hb] at hd
            cases hd
          | some b => exact vmIsReusable_ne_exit ((keepAsked_of_backend hb).symm.trans hask)
    | ok reusable =>
      cases reusable with
      | true => rw [createVm_of_reusable hex hask]
      | false =>
        rw [createVm_of_remade hex (Or.inl hask)]
        refine hmade fun hd => ?_
        unfold destroyVm at hd
        cases hb : s.getBackend true with
        | none =>
          rw [hb] at hd
          cases hd
        | some b =>
          rw [hb] at hd
          have hd : (deleteVm s obliging x.1 b).2 = some .uncaught := hd
          have hask := (keepAsked_of_backend hb).symm.trans hask
          unfold deleteVm at hd
          unfold Site.vmIsReusable at hask
          cases b with
          | libvirt host =>
            dsimp only at hd
            split at hd <;> cases hd
          | harvester =>
            dsimp only at hd
            split at hd <;> cases hd
          | cloud c =>
            dsimp only at hd hask
            cases hr : c.request s.api.answer with
            | none =>
              rw [hr] at hd
              dsimp only at hd
              split at hd <;> cases hd
            | some t =>
              rw [hr] at hask
              cases hask

/-- **A deletion is asked for only after the target was confirmed**, and by no tool that only reads. -/
theorem confirmed_of_delete (h : .delete vmName p ∈ srv.call trouble c) :
    srv.allowsMutations = true ∧ c.confirm = c.target ∧ .delete vmName p ∈ srv.mutate trouble c := by
  unfold Server.call at h
  split at h
  · rename_i hc
    exact ⟨hc.1, hc.2, h⟩
  · exact absurd h List.not_mem_nil

/-- The turn of a node that stops the run raises. -/
theorem not_stops_of_returns (h : (createVm s rest true x).2 = none) : ¬ Stops s x := fun hs => by
  obtain ⟨hex, cls, msg, hb, ha, hcli⟩ := hs
  have hask : keepAsked s true = .error .uncaught := by
    rw [keepAsked_of_backend hb]
    unfold Site.vmIsReusable
    dsimp only
    rw [ha]
    simp [CloudClass.request, hcli]
  rw [createVm_of_uncaught hex hask] at h
  cases h

/-- **What a deployment asks to delete** is a VM the check said is to be made again. -/
theorem exists_of_delete_mem_setUp {jsonFile : Text}
    (h : .delete vmName p ∈ srv.setUp trouble true jsonFile) :
    ∃ lab pre x post b, srv.loadDefinition jsonFile = some lab ∧ srv.validates jsonFile = true ∧
      lab.nodes = pre ++ x :: post ∧ (∀ y ∈ pre, ¬ Stops (srv.sites jsonFile y.1) y) ∧
      x.2.existing = false ∧ (srv.sites jsonFile x.1).getBackend true = some b ∧
      vmName = x.1 ∧ p = place b ∧ ¬ (srv.sites jsonFile x.1).Keeps b := by
  unfold Server.setUp at h
  split at h
  · exact absurd h List.not_mem_nil
  · rename_i lab hload
    split at h
    · rename_i hv
      obtain ⟨pre, x, post, hsplit, hmem, hpre⟩ := exists_split_of_mem_runAll h
      obtain ⟨hname, hex, b, hb, hp, hk⟩ := delete_mem_createVm hmem
      exact ⟨lab, pre, x, post, b, hload, (Bool.and_eq_true_iff.mp hv).1, hsplit,
        fun y hy => not_stops_of_returns (hpre y hy), hex, hb, hname, hp, hk⟩
    · exact absurd h List.not_mem_nil

/-- Such a VM is asked to be deleted, where nothing else goes wrong. -/
theorem delete_mem_setUp {jsonFile : Text} {pre post : List (Text × NodeCfg)} {b : VMBackend}
    (hload : srv.loadDefinition jsonFile = some lab) (hvalid : srv.validates jsonFile = true)
    (hsplit : lab.nodes = pre ++ x :: post)
    (hpre : ∀ y ∈ pre, ¬ Stops (srv.sites jsonFile y.1) y) (hex : x.2.existing = false)
    (hb : (srv.sites jsonFile x.1).getBackend true = some b)
    (hvm : hasVm (srv.sites jsonFile x.1) (place b) = true)
    (hk : ¬ (srv.sites jsonFile x.1).Keeps b) :
    .delete x.1 (place b) ∈ srv.setUp ⟨none, fun _ => obliging⟩ true jsonFile := by
  have hgate : (srv.validates jsonFile && (none : Option Raised).isNone) = true := by
    rw [hvalid]
    rfl
  unfold Server.setUp
  rw [hload]
  dsimp only
  rw [if_pos hgate, hsplit]
  exact mem_runAll_of_returns (fun y hy => createVm_returns (hpre y hy))
    (delete_mem_of_not_keeps hex hb hvm hk)

/-- **When the endpoint is non-destructive**: its tools change nothing, or in every lab that passes the
preflight each VM that is there runs as the lab says, or its backend cannot say. -/
theorem nonDestructive_iff : NonDestructive srv ↔ (srv.allowsMutations = true →
    ∀ jsonFile lab, srv.loadDefinition jsonFile = some lab → srv.validates jsonFile = true →
      VmsKept lab (srv.sites jsonFile)) := by
  constructor
  · intro h hallow jsonFile lab hload hvalid pre x post hsplit hpre hex b hb hvm
    by_contra hk
    let c : Call := ⟨.deployLab, jsonFile, basename jsonFile⟩
    have hdel : .delete x.1 (place b) ∈ srv.call ⟨none, fun _ => obliging⟩ c := by
      unfold Server.call
      rw [if_pos ⟨hallow, rfl⟩]
      exact delete_mem_setUp hload hvalid hsplit hpre hex hb hvm hk
    obtain ⟨htool, _⟩ := h c _ x.1 (place b) hdel hvm
    rcases htool with htool | htool | ⟨n, htool⟩ <;> cases htool
  · intro h c trouble vmName p hdel hvm
    obtain ⟨hallow, hconfirm, hdel⟩ := confirmed_of_delete hdel
    refine ⟨?_, hconfirm⟩
    unfold Server.mutate at hdel
    cases ht : c.tool with
    | readOnly name =>
      rw [ht] at hdel
      exact absurd hdel List.not_mem_nil
    | rebuildLab => exact Or.inl rfl
    | destroyLab => exact Or.inr (Or.inl rfl)
    | destroyVm n => exact Or.inr (Or.inr ⟨n, rfl⟩)
    | deployLab =>
      rw [ht] at hdel
      obtain ⟨lab, pre, x, post, b, hload, hvalid, hsplit, hpre, hex, hb, rfl, rfl, hk⟩ :=
        exists_of_delete_mem_setUp hdel
      exact absurd (h hallow c.jsonFile lab hload hvalid pre x post hsplit hpre hex b hb hvm) hk

/-- The endpoint of a lab of one node, whose VM is shut off. -/
def stoppedServer : Server where
  MCP_ALLOW_MUTATIONS := "true".toList
  loadDefinition := fun _ => some oneNode
  validates := fun _ => true
  sites := fun _ _ =>
    { keptSite with hypervisor := fun h => { keptSite.hypervisor h with
        domain := some ⟨"shut off".toList, some "52:54:00:00:00:0a".toList⟩ } }

/-- **A VM that is shut off is deleted** by a confirmed `deploy_lab`. -/
theorem not_nonDestructive : ¬ NonDestructive stoppedServer := fun h => by
  have hdel : .delete "a".toList (.kvm "kvm1".toList) ∈ stoppedServer.call ⟨none, fun _ => obliging⟩
      ⟨.deployLab, "/srv/labs/lab.json".toList, "lab.json".toList⟩ := by decide
  obtain ⟨htool, _⟩ := h _ _ _ _ hdel (by decide)
  rcases htool with htool | htool | ⟨n, htool⟩ <;> cases htool

end LabInABox.Setup
