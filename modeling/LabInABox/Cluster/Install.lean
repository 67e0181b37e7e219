import LabInABox.Cluster.Lab

/-!
# Installing a cluster on its nodes

Model of `K8sDistro.install_cluster` (`libs/k8s.py`) and of the installers of K3s, RKE2 and kubeadm: a
fold over the lab's nodes that hands the join token and the address of the first server from node to
node.

* Remote commands succeed. What they print is a parameter: the node token of a host (K3s, RKE2), the
  join command and certificate key (kubeadm). What is kept of a node's install is the service it starts
  and what it was given to join with (`Started`); packages, the node's configuration and reboots do not
  decide what a node becomes.
* `Forms` says that the install completes, with every node in its declared role, one server that
  bootstrapped the cluster, every other node joined to it, and the wait on a server.

Results:
* `foldlM_installNode_join`: once there is a token, every further node is given the same.
* `formed_iff`: what the nodes must be for a run of that shape to form the cluster.
* `forms_iff`: K3s forms the cluster exactly when its first node is its only server, RKE2 exactly when
  its first node is a server, kubeadm when besides that `clu_rel` names a minor and `clu_cni` a plugin.
* `agent_first_not_formed`: an agent listed before the server.
-/

namespace LabInABox.Cluster

open Text

/-! ## Nodes and roles -/

/-- The role of a node in its cluster. -/
inductive Role
  | server
  | agent
  deriving DecidableEq

/-- `node_cfg.get("KUBERNETES_NODE_TYPE") or node_cfg.get("INSTALL_RKE2_TYPE", "server")`. -/
def Node.nodeType (n : Node) : Text :=
  if n.kubernetesNodeType = [] then n.installRke2Type.getD "server".toList else n.kubernetesNodeType

/-- The role a node declares. -/
def Node.role (n : Node) : Role := if n.nodeType = "agent".toList then .agent else .server

/-- The nodes of a kcluster, in the order of the definition. -/
def Lab.members (lab : Lab) (cluName : Text) : List (Text × Node) :=
  lab.nodes.filter fun n => n.2.kcluster = some cluName

/-- What an install starts on a node. -/
inductive Service
  | k3s
  | k3sAgent
  | rke2 (nodeType : Role)
  | controlPlane
  | worker
  deriving DecidableEq

/-- The role a node has with its service. -/
def Service.role : Service → Role
  | k3s => .server
  | k3sAgent => .agent
  | rke2 nodeType => nodeType
  | controlPlane => .server
  | worker => .agent

/-- A node that was installed: what it joined with, none when it bootstrapped the cluster. -/
structure Started (γ : Type*) where
  host : Text
  service : Service
  joined : Option γ
  deriving DecidableEq

/-- Why an install ends. -/
inductive Failure
  | noMinor (cluRel : Text)
  | badCni (name : Text)
  | typeError
  deriving DecidableEq

/-! ## The fold over the nodes -/

/-- `install_server` and `install_agent`: the node, and the token and address to pass on. -/
structure Installer (τ γ : Type*) where
  installServer : Text → Option τ → Option Text →
    Except Failure (Started γ × Option τ × Option Text)
  installAgent : Text → Option τ → Option Text → Except Failure (Started γ × Option τ × Option Text)

/-- The variables of the loop. -/
structure Loop (τ γ : Type*) where
  token : Option τ
  rancher1Ip : Option Text
  nodeCount : Nat
  started : List (Started γ)

/-- What a run leaves: the nodes it started, and the server and count of `wait_nodes_ready`. -/
structure Outcome (γ : Type*) where
  started : List (Started γ)
  waited : Option (Text × Nat)
  deriving DecidableEq

section Fold

variable {τ γ : Type*} (inst : Installer τ γ) (lab : Lab) (cluName : Text)

/-- The loop body of `install_cluster`, on a node of the kcluster. -/
def installNode (s : Loop τ γ) (n : Text × Node) : Except Failure (Loop τ γ) :=
  let install := if n.2.nodeType = "agent".toList then inst.installAgent else inst.installServer
  (install n.1 s.token s.rancher1Ip).map fun (node, token, rancher1Ip) =>
    ⟨token, rancher1Ip, s.nodeCount + 1, s.started ++ [node]⟩

/-- `install_cluster(definition, clu_name, clu_ctx)`. -/
def installCluster : Except Failure (Outcome γ) :=
  let loop := lab.nodes.foldlM (fun s n =>
    if n.2.kcluster = some cluName then installNode inst s n else pure s) ⟨none, none, 0, []⟩
  loop.map fun s =>
    -- an empty address is falsy
    ⟨s.started, (s.rancher1Ip.filter (· ≠ [])).map fun server => (server, s.nodeCount)⟩

end Fold

/-! ## K3s -/

/-- `K3sDistro._install(hostname, clu_name, clu_ctx, token, rancher1_ip)`. -/
def k3sInstall (nodeToken : Text → Text) (hostname : Text) (token rancher1Ip : Option Text) :
    Except Failure (Started (Text × Text) × Option Text × Option Text) :=
  match token, rancher1Ip with
  | none, _ => .ok (⟨hostname, .k3s, none⟩, some (nodeToken hostname), some hostname)
  | some token, some address =>
    -- `K3S_URL` and `K3S_TOKEN` make the node an agent
    .ok (⟨hostname, .k3sAgent, some (address, token)⟩, some token, some address)
  | some _, none => .error .typeError

/-- `K3sDistro`: both installs take the same path. -/
def k3sInstaller (nodeToken : Text → Text) : Installer Text (Text × Text) where
  installServer := k3sInstall nodeToken
  installAgent := k3sInstall nodeToken

/-! ## RKE2 -/

/-- `RKE2Distro._install(hostname, clu_name, clu_ctx, node_type, token, rancher1_ip)`. -/
def rke2Install (nodeToken : Text → Text) (nodeType : Role) (hostname : Text)
    (token rancher1Ip : Option Text) :
    Except Failure (Started (Text × Text) × Option Text × Option Text) :=
  match token with
  | none => .ok (⟨hostname, .rke2 nodeType, none⟩, some (nodeToken hostname), some hostname)
  | some token =>
    .ok (⟨hostname, .rke2 nodeType, some (rancher1Ip.getD "None".toList, token)⟩, some token,
      rancher1Ip)

/-- `RKE2Distro`. -/
def rke2Installer (nodeToken : Text → Text) : Installer Text (Text × Text) where
  installServer := rke2Install nodeToken .server
  installAgent := rke2Install nodeToken .agent

/-! ## kubeadm -/

/-- What `_init` returns to join with: the join command carries the token and the address. -/
structure Join where
  join : Text
  certificateKey : Text
  deriving DecidableEq

/-- `re.search(r"(\d+)\.(\d+)", clu_rel)`: the groups of the first match. -/
def searchMinor : Text → Option (Text × Text)
  | [] => none
  | c :: cs =>
    if isDecimal c = true then
      match cs.dropWhile isDecimal with
      | '.' :: ds =>
        if ds.takeWhile isDecimal = [] then searchMinor cs
        else some (c :: cs.takeWhile isDecimal, ds.takeWhile isDecimal)
      | _ => searchMinor cs
    else searchMinor cs

/-- `minor(clu_rel)`. -/
def minor (cluRel : Text) : Except Failure Text :=
  match searchMinor cluRel with
  | none => .error (.noMinor cluRel)
  | some (major, minor) => .ok ('v' :: major ++ '.' :: minor)

/-- `CNI_MANIFESTS`. -/
def cniManifests : List (Text × Text) :=
  [("flannel".toList,
      "https://github.com/flannel-io/flannel/releases/latest/download/kube-flannel.yml".toList),
    ("calico".toList,
      "https://raw.githubusercontent.com/projectcalico/calico/v3.28.2/manifests/calico.yaml".toList)]

/-- `CNI_POD_CIDRS`. -/
def cniPodCidrs : List (Text × Text) :=
  [("flannel".toList, "10.244.0.0/16".toList), ("calico".toList, "192.168.0.0/16".toList)]

/-- `cni(clu_ctx)`. -/
def cni (ctx : Kcluster) : Except Failure Text :=
  let value := ctx.get "clu_cni".toList
  let name := lower (strip (if value = [] then "flannel".toList else value))
  if name ∈ cniManifests.map Prod.fst ++ ["none".toList] then .ok name else .error (.badCni name)

/-- `pod_cidr(clu_ctx)`. -/
def podCidr (ctx : Kcluster) : Except Failure Text :=
  let value := ctx.get "clu_pod_cidr".toList
  if value = [] then
    (cni ctx).map fun name => (cniPodCidrs.lookup name).getD "10.244.0.0/16".toList
  else .ok value

/-- `prepare_node(hostname, clu_rel)`. -/
def prepareNode (ctx : Kcluster) : Except Failure Text := minor (ctx.get "clu_rel".toList)

/-- `_init(hostname, clu_name, clu_ctx)`. -/
def kubeadmInit (printJoin : Text → Join) (ctx : Kcluster) (hostname : Text) :
    Except Failure (Started Join × Option Join × Option Text) := do
  let _ ← minor (ctx.get "clu_rel".toList)
  let _ ← podCidr ctx
  let _ ← cni ctx
  return (⟨hostname, .controlPlane, none⟩, some (printJoin hostname), some hostname)

/-- `KubeadmDistro.install_server`. -/
def kubeadmServer (printJoin : Text → Join) (ctx : Kcluster) (hostname : Text) (token : Option Join)
    (rancher1Ip : Option Text) : Except Failure (Started Join × Option Join × Option Text) := do
  let _ ← prepareNode ctx
  match token with
  | none => kubeadmInit printJoin ctx hostname
  | some token => return (⟨hostname, .controlPlane, some token⟩, some token, rancher1Ip)

/-- `KubeadmDistro.install_agent`. -/
def kubeadmAgent (ctx : Kcluster) (hostname : Text) (token : Option Join)
    (rancher1Ip : Option Text) : Except Failure (Started Join × Option Join × Option Text) := do
  let _ ← prepareNode ctx
  match token with
  -- `token["join"]`
  | none => .error .typeError
  | some token => return (⟨hostname, .worker, some token⟩, some token, rancher1Ip)

/-- `KubeadmDistro`. -/
def kubeadmInstaller (printJoin : Text → Join) (ctx : Kcluster) : Installer Join Join where
  installServer := kubeadmServer printJoin ctx
  installAgent := kubeadmAgent ctx

/-! ## A formed cluster -/

/-- The nodes are installed in their declared roles, one server bootstrapped the cluster, the others
joined with its `credential`, and the wait was on a server. -/
structure Formed {γ : Type*} (credential : Text → γ) (members : List (Text × Node))
    (o : Outcome γ) : Prop where
  roles : o.started.map (fun s => (s.host, s.service.role)) = members.map fun n => (n.1, n.2.role)
  bootstrap : ∃ b ∈ o.started, b.joined = none ∧ b.service.role = .server ∧
    ∀ s ∈ o.started, s ≠ b → s.joined = some (credential b.host)
  waited : ∃ n ∈ members, n.2.role = .server ∧ o.waited = some (n.1, members.length)

/-- The install completes and leaves a formed cluster. -/
def Forms {τ γ : Type*} (inst : Installer τ γ) (credential : Text → γ) (lab : Lab) (cluName : Text) :
    Prop :=
  ∃ o, installCluster inst lab cluName = .ok o ∧ Formed credential (lab.members cluName) o

section Fold

variable {τ γ : Type*} {inst : Installer τ γ} {lab : Lab} {cluName : Text}

/-- The node joins as a `service` for its role, with the credential `cred`. -/
def joinedAs (service : Role → Service) (cred : γ) (n : Text × Node) : Started γ :=
  ⟨n.1, service n.2.role, some cred⟩

theorem installCluster_eq : installCluster inst lab cluName =
    ((lab.members cluName).foldlM (installNode inst) ⟨none, none, 0, []⟩).map fun s =>
      ⟨s.started, (s.rancher1Ip.filter (· ≠ [])).map fun server => (server, s.nodeCount)⟩ := by
  unfold installCluster Lab.members
  rw [List.foldlM_filter]
  simp only [decide_eq_true_eq]

/-- **Every further node** joins with what the first one passed on. -/
theorem foldlM_installNode_join {token : τ} {address : Text} {service : Role → Service} {cred : γ}
    (hjoin : ∀ n k started, installNode inst ⟨some token, some address, k, started⟩ n =
      .ok ⟨some token, some address, k + 1, started ++ [joinedAs service cred n]⟩) :
    ∀ (ns : List (Text × Node)) (k : Nat) (started : List (Started γ)),
      ns.foldlM (installNode inst) ⟨some token, some address, k, started⟩ =
        .ok ⟨some token, some address, k + ns.length, started ++ ns.map (joinedAs service cred)⟩
  | [], k, started => by
    rw [List.map_nil, List.append_nil]
    rfl
  | n :: ns, k, started => by
    rw [List.foldlM_cons, hjoin]
    change ns.foldlM (installNode inst) _ = _
    rw [foldlM_installNode_join hjoin ns, List.map_cons, List.append_assoc, List.length_cons]
    congr 2
    omega

/-- **A run**: the first node bootstraps, and the others join. -/
theorem installCluster_cons {a : Text × Node} {rest : List (Text × Node)}
    (hm : lab.members cluName = a :: rest) {token : τ} {first : Service} {service : Role → Service}
    {cred : γ}
    (hfirst : installNode inst ⟨none, none, 0, []⟩ a =
      .ok ⟨some token, some a.1, 1, [⟨a.1, first, none⟩]⟩)
    (hjoin : ∀ n k started, installNode inst ⟨some token, some a.1, k, started⟩ n =
      .ok ⟨some token, some a.1, k + 1, started ++ [joinedAs service cred n]⟩) :
    installCluster inst lab cluName =
      .ok ⟨⟨a.1, first, none⟩ :: rest.map (joinedAs service cred),
        if a.1 = [] then none else some (a.1, (a :: rest).length)⟩ := by
  rw [installCluster_eq, hm, List.foldlM_cons, hfirst]
  change (rest.foldlM (installNode inst) _).map _ = _
  rw [foldlM_installNode_join hjoin, List.length_cons, Nat.add_comm 1]
  by_cases ha : a.1 = []
  · rw [if_pos ha, ha]
    rfl
  · rw [if_neg ha]
    change Except.ok (Outcome.mk _ (((some a.1).filter _).map _)) = _
    rw [Option.filter_some_pos (by simpa using ha)]
    rfl

/-- **What the nodes must be** for such a run to form the cluster. -/
theorem formed_iff {a : Text × Node} {rest : List (Text × Node)} {first : Service}
    {service : Role → Service} {credential : Text → γ} :
    Formed credential (a :: rest) ⟨⟨a.1, first, none⟩ ::
        rest.map (joinedAs service (credential a.1)),
        if a.1 = [] then none else some (a.1, (a :: rest).length)⟩ ↔
      (a.2.role = .server ∧ a.1 ≠ []) ∧ first.role = .server ∧
        ∀ n ∈ rest, (service n.2.role).role = n.2.role := by
  constructor
  · intro h
    obtain ⟨⟨-, hrole⟩, hrest⟩ : (a.1 = a.1 ∧ first.role = a.2.role) ∧
        ∀ n ∈ rest, (service n.2.role).role = n.2.role := by
      have hr := h.roles
      rw [List.map_cons, List.map_cons, List.cons.injEq, Prod.mk.injEq, List.map_map,
        List.map_inj_left] at hr
      exact ⟨hr.1, fun n hn => congrArg Prod.snd (hr.2 n hn)⟩
    obtain ⟨b, hb, hnone, hserver, _⟩ := h.bootstrap
    have hfirst : first.role = .server := by
      rcases List.mem_cons.mp hb with rfl | hb
      · exact hserver
      · obtain ⟨n, _, rfl⟩ := List.mem_map.mp hb
        exact absurd hnone nofun
    refine ⟨⟨hrole.symm.trans hfirst, fun ha => ?_⟩, hfirst, hrest⟩
    obtain ⟨n, _, _, hw⟩ := h.waited
    rw [if_pos ha] at hw
    exact absurd hw nofun
  · rintro ⟨⟨hrole, ha⟩, hfirst, hrest⟩
    refine ⟨?_, ⟨_, List.mem_cons_self, rfl, hfirst, fun s hs hne => ?_⟩,
      a, List.mem_cons_self, hrole, if_neg ha⟩
    · rw [List.map_cons, List.map_cons, List.map_map, hfirst, hrole]
      exact congrArg _ (List.map_congr_left fun n hn => Prod.ext rfl (hrest n hn))
    · obtain ⟨n, _, rfl⟩ := List.mem_map.mp (List.mem_of_ne_of_mem hne hs)
      rfl

theorem not_forms_of_nil {credential : Text → γ} (hm : lab.members cluName = []) :
    ¬ Forms inst credential lab cluName := by
  rintro ⟨o, _, h⟩
  obtain ⟨n, hn, _⟩ := h.waited
  rw [hm] at hn
  exact absurd hn List.not_mem_nil

/-- **When a run of that shape forms the cluster.** -/
theorem forms_cons_iff {a : Text × Node} {rest : List (Text × Node)}
    (hm : lab.members cluName = a :: rest) {token : τ} {first : Service} {service : Role → Service}
    {credential : Text → γ}
    (hfirst : installNode inst ⟨none, none, 0, []⟩ a =
      .ok ⟨some token, some a.1, 1, [⟨a.1, first, none⟩]⟩)
    (hjoin : ∀ n k started, installNode inst ⟨some token, some a.1, k, started⟩ n =
      .ok ⟨some token, some a.1, k + 1, started ++ [joinedAs service (credential a.1) n]⟩) :
    Forms inst credential lab cluName ↔ (a.2.role = .server ∧ a.1 ≠ []) ∧ first.role = .server ∧
      ∀ n ∈ rest, (service n.2.role).role = n.2.role := by
  unfold Forms
  rw [installCluster_cons hm hfirst hjoin, hm]
  simp only [Except.ok.injEq, exists_eq_left', formed_iff]

/-- A run whose first node cannot be installed forms no cluster. -/
theorem not_forms_of_error {a : Text × Node} {rest : List (Text × Node)} {credential : Text → γ}
    (hm : lab.members cluName = a :: rest) {e : Failure}
    (hfirst : installNode inst ⟨none, none, 0, []⟩ a = .error e) :
    ¬ Forms inst credential lab cluName := by
  rintro ⟨o, ho, _⟩
  rw [installCluster_eq, hm, List.foldlM_cons, hfirst] at ho
  exact absurd ho nofun

end Fold

/-! ## The three distributions -/

section Distros

variable (lab : Lab) (cluName : Text) (nodeToken : Text → Text) (printJoin : Text → Join)
  (ctx : Kcluster)

/-- The first node of the kcluster is a server, and has a name. -/
def FirstIsServer : Prop :=
  ∃ a ∈ (lab.members cluName).head?, a.2.role = .server ∧ a.1 ≠ []

variable {lab cluName nodeToken printJoin ctx}

theorem k3s_forms_iff : Forms (k3sInstaller nodeToken) (fun h => (h, nodeToken h)) lab cluName ↔
    FirstIsServer lab cluName ∧ ∀ n ∈ (lab.members cluName).tail, n.2.role = .agent := by
  unfold FirstIsServer
  cases hm : lab.members cluName with
  | nil => simp [not_forms_of_nil hm]
  | cons a rest =>
    have hfirst : installNode (k3sInstaller nodeToken) ⟨none, none, 0, []⟩ a =
        .ok ⟨some (nodeToken a.1), some a.1, 1, [⟨a.1, .k3s, none⟩]⟩ := by
      simp only [installNode, k3sInstaller, ite_self]
      rfl
    have hjoin : ∀ n k started, installNode (k3sInstaller nodeToken)
        ⟨some (nodeToken a.1), some a.1, k, started⟩ n =
        .ok ⟨some (nodeToken a.1), some a.1, k + 1,
          started ++ [joinedAs (fun _ => .k3sAgent) (a.1, nodeToken a.1) n]⟩ := by
      intro n k started
      simp only [installNode, k3sInstaller, ite_self]
      rfl
    rw [@forms_cons_iff _ _ _ _ _ a rest hm _ _ _ (fun h => (h, nodeToken h)) hfirst hjoin]
    simp [Service.role, eq_comm]

theorem rke2_forms_iff : Forms (rke2Installer nodeToken) (fun h => (h, nodeToken h)) lab cluName ↔
    FirstIsServer lab cluName := by
  unfold FirstIsServer
  cases hm : lab.members cluName with
  | nil => simp [not_forms_of_nil hm]
  | cons a rest =>
    have hfirst : installNode (rke2Installer nodeToken) ⟨none, none, 0, []⟩ a =
        .ok ⟨some (nodeToken a.1), some a.1, 1, [⟨a.1, .rke2 a.2.role, none⟩]⟩ := by
      unfold installNode rke2Installer Node.role
      by_cases ht : a.2.nodeType = "agent".toList
      · simp only [if_pos ht]
        rfl
      · simp only [if_neg ht]
        rfl
    have hjoin : ∀ n k started, installNode (rke2Installer nodeToken)
        ⟨some (nodeToken a.1), some a.1, k, started⟩ n =
        .ok ⟨some (nodeToken a.1), some a.1, k + 1,
          started ++ [joinedAs .rke2 (a.1, nodeToken a.1) n]⟩ := by
      intro n k started
      unfold installNode rke2Installer joinedAs Node.role
      by_cases ht : n.2.nodeType = "agent".toList
      · simp only [if_pos ht]
        rfl
      · simp only [if_neg ht]
        rfl
    rw [@forms_cons_iff _ _ _ _ _ a rest hm _ _ _ (fun h => (h, nodeToken h)) hfirst hjoin]
    simp only [List.head?_cons, Option.mem_some_iff, exists_eq_left']
    exact ⟨fun h => h.1, fun h => ⟨h, h.1, fun n _ => rfl⟩⟩

theorem kubeadm_install_error {e : Failure} (he : minor (ctx.get "clu_rel".toList) = .error e)
    (s : Loop Join Join) (n : Text × Node) :
    installNode (kubeadmInstaller printJoin ctx) s n = .error e := by
  unfold installNode kubeadmInstaller kubeadmServer kubeadmAgent prepareNode
  rw [he]
  by_cases ht : n.2.nodeType = "agent".toList
  · simp only [if_pos ht]
    rfl
  · simp only [if_neg ht]
    rfl

/-- An agent cannot be the first node. -/
theorem kubeadm_first_agent {a : Text × Node} {m : Text}
    (hmin : minor (ctx.get "clu_rel".toList) = .ok m) (ht : a.2.nodeType = "agent".toList) :
    installNode (kubeadmInstaller printJoin ctx) ⟨none, none, 0, []⟩ a = .error .typeError := by
  unfold installNode kubeadmInstaller kubeadmAgent prepareNode
  rw [hmin]
  simp only [if_pos ht]
  rfl

theorem kubeadm_first_server {a : Text × Node} {m : Text}
    (hmin : minor (ctx.get "clu_rel".toList) = .ok m) (ht : a.2.nodeType ≠ "agent".toList) :
    installNode (kubeadmInstaller printJoin ctx) ⟨none, none, 0, []⟩ a =
      (cni ctx).map fun _ =>
        ⟨some (printJoin a.1), some a.1, 1, [⟨a.1, .controlPlane, none⟩]⟩ := by
  unfold installNode kubeadmInstaller kubeadmServer kubeadmInit prepareNode podCidr
  rw [hmin]
  simp only [if_neg ht]
  by_cases hv : ctx.get "clu_pod_cidr".toList = []
  · rw [if_pos hv]
    cases cni ctx <;> rfl
  · rw [if_neg hv]
    cases cni ctx <;> rfl

/-- The service a kubeadm node joins as. -/
def kubeadmService : Role → Service
  | .server => .controlPlane
  | .agent => .worker

theorem kubeadm_join {m : Text} (hmin : minor (ctx.get "clu_rel".toList) = .ok m) (token : Join)
    (address : Text) (n : Text × Node) (k : Nat) (started : List (Started Join)) :
    installNode (kubeadmInstaller printJoin ctx) ⟨some token, some address, k, started⟩ n =
      .ok ⟨some token, some address, k + 1, started ++ [joinedAs kubeadmService token n]⟩ := by
  unfold installNode kubeadmInstaller kubeadmServer kubeadmAgent prepareNode joinedAs Node.role
  rw [hmin]
  by_cases ht : n.2.nodeType = "agent".toList
  · simp only [if_pos ht]
    rfl
  · simp only [if_neg ht]
    rfl

theorem kubeadm_forms_iff : Forms (kubeadmInstaller printJoin ctx) printJoin lab cluName ↔
    FirstIsServer lab cluName ∧ (∃ m, minor (ctx.get "clu_rel".toList) = .ok m) ∧
      ∃ name, cni ctx = .ok name := by
  unfold FirstIsServer
  cases hm : lab.members cluName with
  | nil => simp [not_forms_of_nil hm]
  | cons a rest =>
    simp only [List.head?_cons, Option.mem_some_iff, exists_eq_left']
    cases hmin : minor (ctx.get "clu_rel".toList) with
    | error e =>
      refine iff_of_false (not_forms_of_error hm (kubeadm_install_error hmin _ a)) ?_
      rintro ⟨_, ⟨m, h⟩, _⟩
      exact absurd h nofun
    | ok m =>
      by_cases ht : a.2.nodeType = "agent".toList
      · refine iff_of_false (not_forms_of_error hm (kubeadm_first_agent hmin ht)) ?_
        rintro ⟨⟨h, _⟩, _⟩
        rw [Node.role, if_pos ht] at h
        exact absurd h nofun
      have hfirst := @kubeadm_first_server printJoin ctx a m hmin ht
      cases hc : cni ctx with
      | error e =>
        rw [hc] at hfirst
        refine iff_of_false (not_forms_of_error hm hfirst) ?_
        rintro ⟨_, _, name, h⟩
        exact absurd h nofun
      | ok name =>
        rw [hc] at hfirst
        rw [forms_cons_iff hm hfirst (kubeadm_join hmin _ _)]
        refine ⟨fun h => ⟨h.1, ⟨m, rfl⟩, name, rfl⟩, fun h => ⟨h.1, rfl, fun n _ => ?_⟩⟩
        cases n.2.role <;> rfl

variable (lab cluName nodeToken printJoin ctx)

/-- **When the cluster is formed**, with each of the three distributions. -/
theorem forms_iff :
    (Forms (k3sInstaller nodeToken) (fun h => (h, nodeToken h)) lab cluName ↔
      FirstIsServer lab cluName ∧ ∀ n ∈ (lab.members cluName).tail, n.2.role = .agent) ∧
    (Forms (rke2Installer nodeToken) (fun h => (h, nodeToken h)) lab cluName ↔
      FirstIsServer lab cluName) ∧
    (Forms (kubeadmInstaller printJoin ctx) printJoin lab cluName ↔
      FirstIsServer lab cluName ∧ (∃ m, minor (ctx.get "clu_rel".toList) = .ok m) ∧
        ∃ name, cni ctx = .ok name) :=
  ⟨k3s_forms_iff, rke2_forms_iff, kubeadm_forms_iff⟩

end Distros

/-- A kcluster whose agent is listed before its server. -/
def agentFirstLab : Lab where
  kclusters := [("c1".toList, ⟨[("clu_rel".toList, "v1.33".toList)], []⟩)]
  nodes := [("a1".toList, ⟨some "c1".toList, "agent".toList, none, []⟩),
    ("s1".toList, ⟨some "c1".toList, [], none, []⟩)]
  sections := []
  nodup_kclusters := by decide
  nodup_nodes := by decide

theorem agent_first_not_formed :
    (∃ n ∈ agentFirstLab.members "c1".toList, n.2.role = .server) ∧
      ¬ Forms (k3sInstaller id) (fun h => (h, id h)) agentFirstLab "c1".toList ∧
      ¬ Forms (rke2Installer id) (fun h => (h, id h)) agentFirstLab "c1".toList ∧
      ∀ printJoin, installCluster (kubeadmInstaller printJoin (agentFirstLab.cluSection "c1".toList))
        agentFirstLab "c1".toList = .error .typeError := by
  have hfirst : ¬ FirstIsServer agentFirstLab "c1".toList := by
    rintro ⟨a, ha, hr, _⟩
    obtain rfl := Option.some.inj ha
    exact absurd hr (by decide)
  refine ⟨by decide, fun h => hfirst (k3s_forms_iff.mp h).1,
    fun h => hfirst (rke2_forms_iff.mp h), fun printJoin => ?_⟩
  have hmin : minor ((agentFirstLab.cluSection "c1".toList).get "clu_rel".toList) =
      .ok "v1.33".toList := by decide
  rw [installCluster_eq]
  change (Except.map _ (List.foldlM _ _ [_, _])) = _
  rw [List.foldlM_cons, kubeadm_first_agent hmin rfl]
  rfl

end LabInABox.Cluster
