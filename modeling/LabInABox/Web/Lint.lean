import LabInABox.Reporting
import LabInABox.Backend.Select
import LabInABox.Ipalloc.Allocate
import LabInABox.Web.Placements

/-!
# Which VMs the builder and the preflight report

Model of `lintLab` (`webui/htdocs/app.js`) over an opened lab, beside the checks of each node in
`validate_lab_definition` (`libs/lab_creation.py`): that a VM has no address to be given, that two VMs
share a `myip` or a `mymac`, and that a VM names a kcluster that is not there.

* The VMs come as the file has them, but JavaScript lists names that are array indices before the others.
* A sentence about two VMs is about the later one.
* The preflight raises at a value that has no hash, and where the allocator raises. What it checks besides
  is taken to return, and so is the printing of a value by JavaScript.
* How a value is printed and which numbers are equal are parameters, and so are the machine, its credentials
  files and whether the builder has loaded its schema. The configuration has no `BACKEND`.

Results:
* `mem_lintFaults_iff`, `mem_preflight_iff`: which VMs each of the two reports.
* `blocks_alike_iff`: exactly when they report the same.
* `cloud_account_blocked`: a VM on a cloud account is not accepted by the builder.
-/

namespace LabInABox.Web.Lint

open Text Reporting
open Schema (Json)
open Backend (jqOr isEmpty pyOr isIn CLOUD_BACKEND_NAMES Accounts)

/-! ## What is compared -/

/-- What a sentence says of a VM. -/
inductive Fault
  | noAddress
  | sameIp
  | sameMac
  | unknownCluster
  deriving DecidableEq

/-- What the two languages make of a value. -/
structure Values where
  /-- `String(value)`. -/
  string : Json → Text
  /-- `a == b`, in Python. -/
  same : Json → Json → Bool
  string_text : ∀ t, string (.text t) = t
  same_text : ∀ t u, same (.text t) (.text u) = decide (t = u)
  equivalence : Equivalence fun a b => same a b = true

/-- A lab definition, with the nodes whose value is null: they have no fields. -/
structure Definition where
  lab : Lab
  null : List Text
  blank : ∀ name ∈ null, ∀ o, lab.nodesObj.get name = some o → o = ⟨Obj.empty, none⟩

/-- `"myip"`. -/
def myipField : FieldName := ⟨"myip".toList, by decide⟩

/-- `"mymac"`. -/
def mymacField : FieldName := ⟨"mymac".toList, by decide⟩

/-- `"backend"`. -/
def backendField : FieldName := ⟨"backend".toList, by decide⟩

/-- `"cloud_account"`. -/
def cloudAccountField : FieldName := ⟨"cloud_account".toList, by decide⟩

/-- `"mygw"`. -/
def mygw : Text := "mygw".toList

/-- `"mymask"`. -/
def mymask : Text := "mymask".toList

/-! ## The order of keys -/

/-- The number of a key that is an array index. -/
def arrayIndex (k : Text) : Option Nat :=
  let n := Nat.ofDigitChars 10 k 0
  if Nat.toDigits 10 n = k ∧ n < 4294967295 then some n else none

section Order

variable {β : Type}

/-- The entries of an object, as `Object.keys` lists them. -/
def keyOrder (es : List (Text × β)) : List (Text × β) :=
  (es.filter fun e => (arrayIndex e.1).isSome).insertionSort
      (fun e e' => (arrayIndex e.1).getD 0 ≤ (arrayIndex e'.1).getD 0) ++
    es.filter fun e => !(arrayIndex e.1).isSome

theorem keyOrder_perm (es : List (Text × β)) : (keyOrder es).Perm es :=
  ((List.perm_insertionSort _ _).append_right _).trans (List.filter_append_perm _ _)

theorem nodup_keyOrder {es : List (Text × β)} (h : (es.map Prod.fst).Nodup) :
    ((keyOrder es).map Prod.fst).Nodup :=
  ((keyOrder_perm es).map Prod.fst).nodup_iff.mpr h

/-- The object, read by JavaScript. -/
def parsed (o : Obj Text β) : Obj Text β := ⟨keyOrder o.entries, nodup_keyOrder o.nodup⟩

end Order

/-- The lab, read by JavaScript. -/
def opened (lab : Lab) : Lab := { lab with nodes := lab.nodes.map parsed, kclusters := lab.kclusters.map parsed }

/-! ## The builder -/

/-- A block of a VM. -/
structure Vm where
  name : Text
  cfg : Obj FieldName Json
  parent : Option Nat

/-- `i.type === "node"`. -/
def vmOf : Item → Option Vm
  | .node _ name cfg parent => some ⟨name, cfg, parent⟩
  | _ => none

/-- `has(o, k)`, of what `o[k]` is. -/
def has : Option Json → Bool
  | none | some .null => false
  | some (.text t) => t ≠ []
  | some _ => true

/-- `LOCAL_BACKENDS`. -/
def LOCAL_BACKENDS : List Text := [[], "libvirt".toList, "harvester".toList]

/-- `has(n.cfg, "backend") ? n.cfg.backend : (model.common.backend || "")`. -/
def lintBackend (common : Obj Text Json) (cfg : Obj FieldName Json) : Json :=
  let backend := cfg.get backendField
  let shared := Backend.get (common.get backendField.1)
  if has backend then Backend.get backend else if isTruthy shared then shared else .text []

section Builder

variable (v : Values)

/-- The sentence about the kcluster of a VM. -/
def clusterFaults (clusterNames : List Text) (n : Vm) : List (Text × Fault) :=
  let kcluster := n.cfg.get kclusterField
  if n.parent.isNone && has kcluster && !isIn clusterNames (Backend.get kcluster) then
    [(n.name, .unknownCluster)]
  else []

/-- The sentence about a VM without an address. -/
def addressFaults (common : Obj Text Json) (n : Vm) : List (Text × Fault) :=
  if !has (n.cfg.get myipField) && isIn LOCAL_BACKENDS (lintBackend common n.cfg) &&
      !(has (common.get mygw) && has (common.get mymask)) then [(n.name, .noAddress)]
  else []

/-- `k + "=" + String(n.cfg[k]).toLowerCase()`. -/
def seenKey (k : FieldName) (value : Json) : Text := k.1 ++ '=' :: lower (v.string value)

/-- A turn of the loop over `myip` and `mymac`. -/
def lintKey (k : FieldName) (fault : Fault) (seen : Obj Text Text) (n : Vm) :
    Obj Text Text × List (Text × Fault) :=
  let value := n.cfg.get k
  let key := seenKey v k (Backend.get value)
  if has value then
    if (seen.get key).getD [] ≠ [] then (seen, [(n.name, fault)]) else (seen.set key n.name, [])
  else (seen, [])

/-- A turn of the loop over the VMs. -/
def lintSeen (seen : Obj Text Text) (n : Vm) : Option (Obj Text Text × List (Text × Fault)) :=
  let ip := lintKey v myipField .sameIp seen n
  let mac := lintKey v mymacField .sameMac ip.1 n
  some (mac.1, ip.2 ++ mac.2)

/-- The errors of `lintLab(model)` on these grounds; `base` tells whether `state.base` is loaded. -/
def lintFaults (base : Bool) (model : Model) : List (Text × Fault) :=
  let nodes := model.items.filterMap vmOf
  let clusterNames := model.items.filterMap clusterName
  nodes.flatMap (clusterFaults clusterNames) ++
    (if base then nodes.flatMap (addressFaults model.common) else []) ++
    (reports (lintSeen v) Obj.empty nodes).getD []

end Builder

/-! ## The preflight -/

/-- The value has no hash. -/
def unhashable : Json → Bool
  | .list _ | .mapping _ => true
  | _ => false

/-- `str(value or "")`. -/
def orEmpty (field : Option Json) : Text := (pyOr (Backend.get field) (.text [])).str

/-- What a node says of its backend. -/
def nodeChoice (o : Owner) : Backend.Fields := ⟨o.fields.get backendField, o.fields.get cloudAccountField⟩

/-- What the loop over the nodes remembers. -/
structure Seen where
  ips : List Json
  previewed : List Text
  macs : List Text

namespace Definition

variable (d : Definition)

/-- What the common section says of the backend. -/
def choice : Backend.Fields :=
  ⟨d.lab.commonObj.get backendField.1, d.lab.commonObj.get cloudAccountField.1⟩

/-- The definition, as the allocator reads it. -/
def addresses : Ipalloc.Definition where
  common := ⟨orEmpty (d.lab.commonObj.get mygw), orEmpty (d.lab.commonObj.get mymask),
    orEmpty (d.lab.commonObj.get "mydns".toList), orEmpty (d.lab.commonObj.get "mydomain".toList)⟩
  nodes := d.lab.nodesObj.entries.map fun n =>
    (n.1, if n.1 ∈ d.null then none else some (orEmpty (n.2.fields.get myipField)))
  nodup := by
    rw [List.map_map]
    exact d.lab.nodesObj.nodup

end Definition

section Preflight

variable (v : Values) (host : Ipalloc.Host) (accounts : Accounts) (d : Definition)

/-- `is_cloud_node`. -/
def isCloudNode (o : Owner) : Bool :=
  isIn CLOUD_BACKEND_NAMES (Backend.nodeBackendEff accounts none d.choice (nodeChoice o))

/-- The node has no `myip`, and is on no cloud. -/
def asks (o : Owner) : Bool := isEmpty (jqOr (o.fields.get myipField)) && !isCloudNode accounts d o

/-- `would_get`, unless the allocator raises. Without a network it answers `None` as well. -/
def wouldGet (previewed : List Text) (vmName : Text) : Option (Option Text) :=
  (Ipalloc.allocate host (fun _ => false) vmName d.addresses previewed d.addresses.common.mydomain
    false).toOption

/-- The addresses previewed with that of a node, unless the allocator raises. -/
def preview (previewed : List Text) (n : Text × Owner) : Option (List Text) :=
  if asks accounts d n.2 then (wouldGet host d previewed n.1).map fun a => previewed ++ a.toList
  else some previewed

/-- A value that makes the checks of a node raise. -/
def raises (o : Owner) : Bool :=
  unhashable (jqOr (o.fields.get backendField)) || unhashable (jqOr (o.fields.get myipField)) ||
    unhashable (jqOr (o.fields.get kclusterField))

/-- The errors about a node. -/
def nodeFaults (s : Seen) (n : Text × Owner) : List Fault :=
  let myip := jqOr (n.2.fields.get myipField)
  let mymac := jqOr (n.2.fields.get mymacField)
  let kcluster := jqOr (n.2.fields.get kclusterField)
  (if asks accounts d n.2 && (wouldGet host d s.previewed n.1 == some none) then [.noAddress] else []) ++
    (if !isEmpty myip && s.ips.any (v.same · myip) then [.sameIp] else []) ++
    (if !isEmpty mymac && decide (lower mymac.str ∈ s.macs) then [.sameMac] else []) ++
    if !isEmpty kcluster && !isIn d.lab.kclustersObj.keys kcluster then [.unknownCluster] else []

/-- What is remembered of a node, the addresses previewed so far with its own being `previewed`. -/
def remember (s : Seen) (previewed : List Text) (o : Owner) : Seen :=
  let myip := jqOr (o.fields.get myipField)
  let mymac := jqOr (o.fields.get mymacField)
  ⟨if !isEmpty myip && !s.ips.any (v.same · myip) then s.ips ++ [myip] else s.ips, previewed,
    if !isEmpty mymac && !decide (lower mymac.str ∈ s.macs) then s.macs ++ [lower mymac.str] else s.macs⟩

/-- The checks of a node, unless they raise. -/
def checkNode (s : Seen) (n : Text × Owner) : Option (Seen × List (Text × Fault)) :=
  if raises n.2 then none
  else
    (preview host accounts d s.previewed n).map fun previewed =>
      (remember v s previewed n.2, (nodeFaults v host accounts d s n).map (Prod.mk n.1))

/-- The errors of `validate_lab_definition` on these grounds, unless it raises. -/
def preflight : Option (List (Text × Fault)) :=
  if unhashable (jqOr (d.lab.commonObj.get backendField.1)) then none
  else reports (checkNode v host accounts d) ⟨[], [], []⟩ d.lab.nodesObj.entries

/-- **The two block a lab alike**: each says of a VM what the other does. -/
def BlocksAlike (palette : Palette) (base : Bool) : Prop :=
  ∀ name fault, (name, fault) ∈ lintFaults v base (decompileLab palette (opened d.lab)) ↔
    ∃ faults, preflight v host accounts d = some faults ∧ (name, fault) ∈ faults

end Preflight

/-! ## What the builder reports -/

section BuilderSide

variable (v : Values) (base : Bool) (d : Definition)

/-- The builder takes the kcluster of a VM for one that is not there. -/
def UnknownToBuilder (o : Owner) : Prop :=
  has (o.fields.get kclusterField) = true ∧
    isIn d.lab.kclustersObj.keys (Backend.get (o.fields.get kclusterField)) = false

/-- The lab has no `mygw` or no `mymask`. -/
def NoNetwork : Prop := (has (d.lab.commonObj.get mygw) && has (d.lab.commonObj.get mymask)) = false

/-- The builder takes a VM for one on the hypervisors. -/
def IsLocal (o : Owner) : Prop := isIn LOCAL_BACKENDS (lintBackend d.lab.commonObj o.fields) = true

/-- The builder finds no address for a VM. -/
def UnaddressedInBuilder (o : Owner) : Prop :=
  has (o.fields.get myipField) = false ∧ IsLocal d o ∧ NoNetwork d

/-- A VM, in the order of a list, comes after one of which something holds. -/
def ComesAfter (l : List (Text × Owner)) (n : Text × Owner) (first : Text × Owner → Prop) : Prop :=
  ∃ pre post, l = pre ++ n :: post ∧ ∃ m ∈ pre, first m

/-- The builder has seen the value of a VM before, in lower case, with a VM that has a name. -/
def SharedInBuilder (k : FieldName) (n : Text × Owner) : Prop :=
  has (n.2.fields.get k) = true ∧ ComesAfter (keyOrder d.lab.nodesObj.entries) n fun m =>
    m.1 ≠ [] ∧ has (m.2.fields.get k) = true ∧
      lower (v.string (Backend.get (m.2.fields.get k))) = lower (v.string (Backend.get (n.2.fields.get k)))

/-- What the builder reports of a VM. -/
def ReportedByBuilder (n : Text × Owner) : Fault → Prop
  | .noAddress => base = true ∧ UnaddressedInBuilder d n.2
  | .sameIp => SharedInBuilder v d myipField n
  | .sameMac => SharedInBuilder v d mymacField n
  | .unknownCluster => UnknownToBuilder d n.2

end BuilderSide

/-! ### The blocks of the VMs -/

section Vms

variable {palette : Palette} {lab : Lab}

/-- The block of a VM of a lab. -/
def blockOf (clusters : List Item) (n : Text × Owner) : Vm := ⟨n.1, (placed clusters n.2).1, (placed clusters n.2).2⟩

theorem filterMap_vmOf : (decompileLab palette lab).items.filterMap vmOf =
    lab.nodesObj.entries.map (blockOf (clusterItems palette lab)) := by
  have hvms : (decompileLab palette lab).items.filterMap vmOf =
      lab.nodesObj.entries.filterMap fun n => some (blockOf (clusterItems palette lab) n) := by
    refine filterMap_nodeItems (fun i hi => ?_) (fun _ _ _ _ => rfl) fun _ _ _ => rfl
    cases i with
    | cluster => rfl
    | node => exact absurd rfl hi
    | addon => rfl
  rw [hvms, List.filterMap_eq_map']

/-- A VM that joins no block names no kcluster of the lab, and keeps what it names. -/
theorem placed_cases (o : Owner) :
    ((placed (clusterItems palette lab) o).2 = none ∧
      (placed (clusterItems palette lab) o).1.get kclusterField = o.fields.get kclusterField) ∨
    ((placed (clusterItems palette lab) o).2 ≠ none ∧
      isIn lab.kclustersObj.keys (Backend.get (o.fields.get kclusterField)) = true) := by
  have hk : (copy Subtype.val o.fields).get kclusterField = o.fields.get kclusterField := by
    rw [get_copy, if_neg (by decide)]
  unfold placed
  dsimp only
  rw [hk]
  cases hf : (clusterItems palette lab).find? (isNamed (o.fields.get kclusterField)) with
  | none => exact Or.inl ⟨rfl, hk⟩
  | some c =>
    obtain ⟨t, ht, hct⟩ := isNamed_iff.mp (List.find?_some hf)
    have hmem : t ∈ lab.kclustersObj.keys := by
      rw [← filterMap_clusterName]
      exact List.mem_filterMap.mpr ⟨c, mem_items_of_clusterItems (List.mem_of_find?_eq_some hf), hct⟩
    refine Or.inr ⟨by simp, List.any_eq_true.mpr ⟨t, hmem, ?_⟩⟩
    rw [ht]
    exact decide_eq_true rfl

theorem mem_clusterFaults {n : Text × Owner} {r : Text × Fault} :
    r ∈ clusterFaults lab.kclustersObj.keys (blockOf (clusterItems palette lab) n) ↔
      r = (n.1, .unknownCluster) ∧ has (n.2.fields.get kclusterField) = true ∧
        isIn lab.kclustersObj.keys (Backend.get (n.2.fields.get kclusterField)) = false := by
  unfold clusterFaults blockOf
  dsimp only
  rcases @placed_cases palette lab n.2 with ⟨hparent, hk⟩ | ⟨hparent, hin⟩
  · rw [hparent, hk]
    simp only [Option.isNone_none, Bool.true_and]
    split <;> simp_all
  · have hsome : ((placed (clusterItems palette lab) n.2).2).isNone = false := by
      simpa [Option.isSome_iff_ne_none] using hparent
    rw [hsome, hin]
    simp

end Vms

/-! ### The values seen before -/

section SeenBefore

variable {v : Values} {k : FieldName} {fault : Fault} {seen : Obj Text Text} {n : Vm} {key : Text}

/-- A VM was seen with a value. -/
def Knows (key : Text) (seen : Obj Text Text) : Prop := (seen.get key).getD [] ≠ []

/-- The VM leaves the key of a value. -/
def Leaves (v : Values) (key : Text) (k : FieldName) (n : Vm) : Prop :=
  n.name ≠ [] ∧ has (n.cfg.get k) = true ∧ seenKey v k (Backend.get (n.cfg.get k)) = key

theorem lintKey_knows : Knows key (lintKey v k fault seen n).1 ↔ Knows key seen ∨ Leaves v key k n := by
  unfold lintKey Leaves
  by_cases hhas : has (n.cfg.get k) = true
  · rw [if_pos hhas]
    by_cases hseen : (seen.get (seenKey v k (Backend.get (n.cfg.get k)))).getD [] ≠ []
    · rw [if_pos hseen, or_iff_left_of_imp]
      rintro ⟨-, -, rfl⟩
      exact hseen
    · rw [if_neg hseen]
      unfold Knows
      rw [Obj.get_set]
      by_cases hkey : key = seenKey v k (Backend.get (n.cfg.get k))
      · subst hkey
        simp [hseen, hhas]
      · simp [hkey, Ne.symm hkey]
  · rw [if_neg hhas]
    simp [hhas]

theorem mem_lintKey {r : Text × Fault} : r ∈ (lintKey v k fault seen n).2 ↔ r = (n.name, fault) ∧
    has (n.cfg.get k) = true ∧ Knows (seenKey v k (Backend.get (n.cfg.get k))) seen := by
  unfold lintKey Knows
  dsimp only
  split
  · split <;> simp_all
  · simp_all

theorem seenKey_eq_iff {a b : Json} : seenKey v k a = seenKey v k b ↔ lower (v.string a) = lower (v.string b) := by
  unfold seenKey
  rw [List.append_cancel_left_eq, List.cons.injEq, and_iff_right rfl]

/-- The keys of the two fields are never the same. -/
theorem seenKey_ne (a b : Json) : seenKey v myipField a ≠ seenKey v mymacField b := by
  intro h
  simp [seenKey, myipField, mymacField] at h

/-- What the loop over the VMs knows of a value of one of the two fields. -/
theorem lintSeen_knows {a : Json} {r : Obj Text Text × List (Text × Fault)} (h : lintSeen v seen n = some r)
    (hk : k = myipField ∨ k = mymacField) : Knows (seenKey v k a) r.1 ↔
      Knows (seenKey v k a) seen ∨ Leaves v (seenKey v k a) k n := by
  obtain rfl := Option.some.inj h
  simp only [lintKey_knows]
  rcases hk with rfl | rfl
  · have hmac : ¬ Leaves v (seenKey v myipField a) mymacField n := fun hl => seenKey_ne _ _ hl.2.2.symm
    rw [or_iff_left hmac]
  · have hip : ¬ Leaves v (seenKey v mymacField a) myipField n := fun hl => seenKey_ne _ _ hl.2.2
    rw [or_iff_left hip]

theorem mem_lintSeen {r : Obj Text Text × List (Text × Fault)} {b : Text × Fault} (h : lintSeen v seen n = some r) :
    b ∈ r.2 ↔ b.1 = n.name ∧
      ((b.2 = .sameIp ∧ has (n.cfg.get myipField) = true ∧
          Knows (seenKey v myipField (Backend.get (n.cfg.get myipField))) seen) ∨
        (b.2 = .sameMac ∧ has (n.cfg.get mymacField) = true ∧
          Knows (seenKey v mymacField (Backend.get (n.cfg.get mymacField))) seen)) := by
  obtain rfl := Option.some.inj h
  have hip : ¬ Leaves v (seenKey v mymacField (Backend.get (n.cfg.get mymacField))) myipField n :=
    fun hl => seenKey_ne _ _ hl.2.2
  simp only [List.mem_append, mem_lintKey, lintKey_knows, or_iff_left hip, Prod.ext_iff, and_assoc, and_or_left]

variable {clusters : List Item} {ns : List (Text × Owner)} {m : Text × Owner} {name : Text}

/-- The field whose value makes two VMs share something. -/
def IsOf (k : FieldName) (fault : Fault) : Prop :=
  (fault = .sameIp ∧ k = myipField) ∨ (fault = .sameMac ∧ k = mymacField)

theorem get_blockOf (clusters : List Item) (m : Text × Owner) (hk : IsOf k fault) :
    (blockOf clusters m).cfg.get k = m.2.fields.get k := by
  rcases hk with ⟨-, rfl⟩ | ⟨-, rfl⟩ <;> exact get_placed clusters m.2 (by decide) (by decide)

theorem reportsAt_seen_iff (hk : IsOf k fault) :
    ReportsAt (fun s m => lintSeen v s (blockOf clusters m)) Obj.empty ns m (name, fault) ↔
      name = m.1 ∧ has (m.2.fields.get k) = true ∧ ComesAfter ns m fun m' => m'.1 ≠ [] ∧
        has (m'.2.fields.get k) = true ∧
        lower (v.string (Backend.get (m'.2.fields.get k))) = lower (v.string (Backend.get (m.2.fields.get k))) := by
  have hrun : ∃ bs, reports (fun s m => lintSeen v s (blockOf clusters m)) Obj.empty ns = some bs :=
    exists_reports (fun _ _ => ⟨_, rfl⟩) _ _
  have hknows : ∀ s m' r, lintSeen v s (blockOf clusters m') = some r →
      (Knows (seenKey v k (Backend.get (m.2.fields.get k))) r.1 ↔
        Knows (seenKey v k (Backend.get (m.2.fields.get k))) s ∨
          Leaves v (seenKey v k (Backend.get (m.2.fields.get k))) k (blockOf clusters m')) :=
    fun s m' r hr => lintSeen_knows hr (hk.imp And.right And.right)
  have hreport : ∀ s r, lintSeen v s (blockOf clusters m) = some r → ((name, fault) ∈ r.2 ↔
      (name = m.1 ∧ has (m.2.fields.get k) = true) ∧ Knows (seenKey v k (Backend.get (m.2.fields.get k))) s) := by
    intro s r hr
    rw [mem_lintSeen hr, and_assoc, ← get_blockOf clusters m hk]
    refine and_congr_right fun _ => ?_
    rcases hk with ⟨rfl, rfl⟩ | ⟨rfl, rfl⟩ <;> simp
  have hempty : ∀ key, ¬ Knows key Obj.empty := fun _ h => h rfl
  obtain ⟨bs, hrun⟩ := hrun
  rw [reportsAt_iff hrun hknows hreport, and_assoc]
  unfold ComesAfter Leaves
  simp only [hempty, false_or, get_blockOf clusters _ hk, seenKey_eq_iff]
  rfl

/-- **The values the builder has seen before**, over the VMs of a lab as its blocks have them. -/
theorem mem_seen_iff :
    (name, fault) ∈ (reports (lintSeen v) Obj.empty (ns.map (blockOf clusters))).getD [] ↔
      ∃ o k, IsOf k fault ∧ has (o.fields.get k) = true ∧ ComesAfter ns (name, o) fun m => m.1 ≠ [] ∧
        has (m.2.fields.get k) = true ∧
        lower (v.string (Backend.get (m.2.fields.get k))) = lower (v.string (Backend.get (o.fields.get k))) := by
  have hrun : ∃ bs, reports (fun s m => lintSeen v s (blockOf clusters m)) Obj.empty ns = some bs :=
    exists_reports (fun _ _ => ⟨_, rfl⟩) _ _
  obtain ⟨bs, hrun⟩ := hrun
  rw [reports_map, hrun, Option.getD_some, mem_reports_iff hrun]
  constructor
  · rintro ⟨m, pre, post, s, r, hl, hafter, hr, hb⟩
    have hfault : ∃ k, IsOf k fault := by
      rcases ((mem_lintSeen hr).mp hb).2 with ⟨hf, -⟩ | ⟨hf, -⟩
      · exact ⟨myipField, Or.inl ⟨hf, rfl⟩⟩
      · exact ⟨mymacField, Or.inr ⟨hf, rfl⟩⟩
    obtain ⟨k, hk⟩ := hfault
    obtain ⟨rfl, hhas, hafter⟩ := (reportsAt_seen_iff hk).mp ⟨pre, post, s, r, hl, hafter, hr, hb⟩
    exact ⟨m.2, k, hk, hhas, hafter⟩
  · rintro ⟨o, k, hk, hhas, hafter⟩
    exact ⟨(name, o), (reportsAt_seen_iff hk).mpr ⟨rfl, hhas, hafter⟩⟩

end SeenBefore

/-! ### The errors -/

section Builder

variable {palette : Palette} {v : Values} {base : Bool} {d : Definition} {name : Text} {fault : Fault}

theorem getD_parsed (os : Option (Obj Text Owner)) :
    (os.map parsed).getD Obj.empty = parsed (os.getD Obj.empty) := by
  cases os with
  | none => rfl
  | some o => rfl

theorem mem_keys_parsed {o : Obj Text Owner} {k : Text} : k ∈ (parsed o).keys ↔ k ∈ o.keys :=
  ((keyOrder_perm o.entries).map Prod.fst).mem_iff

theorem isIn_keys_parsed (o : Obj Text Owner) (value : Json) : isIn (parsed o).keys value = isIn o.keys value := by
  rw [Bool.eq_iff_iff, isIn, isIn, List.any_eq_true, List.any_eq_true]
  simp only [mem_keys_parsed]

theorem mem_addressFaults {clusters : List Item} {n : Text × Owner} {r : Text × Fault} :
    r ∈ addressFaults (copy id d.lab.commonObj) (blockOf clusters n) ↔
      r = (n.1, .noAddress) ∧ UnaddressedInBuilder d n.2 := by
  have hcommon : ∀ k, k ≠ proto → (copy id d.lab.commonObj).get k = d.lab.commonObj.get k := fun k hk => by
    rw [get_copy, id, if_neg hk]
  have hip : (blockOf clusters n).cfg.get myipField = n.2.fields.get myipField :=
    get_placed clusters n.2 (by decide) (by decide)
  have hbackend : (blockOf clusters n).cfg.get backendField = n.2.fields.get backendField :=
    get_placed clusters n.2 (by decide) (by decide)
  have hlocal : lintBackend (copy id d.lab.commonObj) (blockOf clusters n).cfg =
      lintBackend d.lab.commonObj n.2.fields := by
    unfold lintBackend
    rw [hbackend, hcommon _ (by decide)]
  unfold addressFaults UnaddressedInBuilder IsLocal NoNetwork
  rw [hip, hlocal, hcommon _ (by decide), hcommon _ (by decide)]
  simp only [List.mem_ite_nil_right, List.mem_singleton, Bool.and_eq_true, Bool.not_eq_true', and_assoc, and_comm]
  rfl

theorem mem_keyOrder {n : Text × Owner} : n ∈ keyOrder d.lab.nodesObj.entries ↔ n ∈ d.lab.nodesObj.entries :=
  (keyOrder_perm _).mem_iff

theorem ComesAfter.mem {l : List (Text × Owner)} {n : Text × Owner} {first : Text × Owner → Prop}
    (h : ComesAfter l n first) : n ∈ l := by
  obtain ⟨pre, post, rfl, -⟩ := h
  simp

/-- **What the builder reports.** -/
theorem mem_lintFaults_iff : (name, fault) ∈ lintFaults v base (decompileLab palette (opened d.lab)) ↔
    ∃ o, (name, o) ∈ d.lab.nodesObj.entries ∧ ReportedByBuilder v base d (name, o) fault := by
  have hnodes : (opened d.lab).nodesObj.entries = keyOrder d.lab.nodesObj.entries :=
    congrArg Obj.entries (getD_parsed d.lab.nodes)
  have hkeys : ∀ value, isIn (opened d.lab).kclustersObj.keys value = isIn d.lab.kclustersObj.keys value := fun value =>
    (congrArg (fun o => isIn (Obj.keys o) value) (getD_parsed d.lab.kclusters)).trans (isIn_keys_parsed _ value)
  have hcommon : (decompileLab palette (opened d.lab)).common = copy id d.lab.commonObj := rfl
  have hcluster : (name, fault) ∈ (keyOrder d.lab.nodesObj.entries).flatMap (fun n =>
      clusterFaults (opened d.lab).kclustersObj.keys (blockOf (clusterItems palette (opened d.lab)) n)) ↔
      ∃ o, (name, o) ∈ d.lab.nodesObj.entries ∧ fault = .unknownCluster ∧ UnknownToBuilder d o := by
    rw [List.mem_flatMap]
    simp only [mem_clusterFaults, mem_keyOrder, hkeys, Prod.ext_iff]
    constructor
    · rintro ⟨n, hn, ⟨rfl, rfl⟩, hu⟩
      exact ⟨n.2, hn, rfl, hu⟩
    · rintro ⟨o, hn, rfl, hu⟩
      exact ⟨(name, o), hn, ⟨rfl, rfl⟩, hu⟩
  have haddress : (name, fault) ∈ (keyOrder d.lab.nodesObj.entries).flatMap (fun n =>
      addressFaults (copy id d.lab.commonObj) (blockOf (clusterItems palette (opened d.lab)) n)) ↔
      ∃ o, (name, o) ∈ d.lab.nodesObj.entries ∧ fault = .noAddress ∧ UnaddressedInBuilder d o := by
    rw [List.mem_flatMap]
    simp only [mem_addressFaults, mem_keyOrder, Prod.ext_iff]
    constructor
    · rintro ⟨n, hn, ⟨rfl, rfl⟩, hu⟩
      exact ⟨n.2, hn, rfl, hu⟩
    · rintro ⟨o, hn, rfl, hu⟩
      exact ⟨(name, o), hn, ⟨rfl, rfl⟩, hu⟩
  unfold lintFaults
  dsimp only
  rw [filterMap_vmOf, filterMap_clusterName, hnodes, hcommon, List.mem_append, List.mem_append, List.flatMap_map,
    List.flatMap_map, hcluster, List.mem_ite_nil_right, haddress, mem_seen_iff]
  have hmem : ∀ {o : Owner} {first : Text × Owner → Prop},
      ComesAfter (keyOrder d.lab.nodesObj.entries) (name, o) first → (name, o) ∈ d.lab.nodesObj.entries :=
    fun h => mem_keyOrder.mp h.mem
  cases fault with
  | noAddress =>
    simp only [IsOf, ReportedByBuilder, reduceCtorEq, false_and, or_self, and_false, exists_false, or_false, false_or,
      true_and]
    exact ⟨fun ⟨hbase, o, ho, hu⟩ => ⟨o, ho, hbase, hu⟩, fun ⟨o, ho, hbase, hu⟩ => ⟨hbase, o, ho, hu⟩⟩
  | unknownCluster => simp [IsOf, ReportedByBuilder]
  | sameIp =>
    simp only [IsOf, ReportedByBuilder, SharedInBuilder, reduceCtorEq, true_and, false_and, or_false, and_false,
      exists_false, false_or, exists_eq_left]
    exact exists_congr fun o => (and_iff_right_of_imp fun h => hmem h.2).symm
  | sameMac =>
    simp only [IsOf, ReportedByBuilder, SharedInBuilder, reduceCtorEq, true_and, false_and, false_or, and_false,
      exists_false, exists_eq_left]
    exact exists_congr fun o => (and_iff_right_of_imp fun h => hmem h.2).symm

end Builder

/-! ## What the preflight reports -/

section PreflightSide

variable (v : Values) (host : Ipalloc.Host) (accounts : Accounts) (d : Definition)

/-- A value without a hash makes the preflight raise, or the allocator does. -/
def Raises : Prop :=
  unhashable (jqOr (d.lab.commonObj.get backendField.1)) = true ∨ (∃ n ∈ d.lab.nodesObj.entries, raises n.2 = true) ∨
    d.lab.nodesObj.entries.foldlM (preview host accounts d) [] = none

/-- The node has no `myip`, is on no cloud, and the allocator has no address left for it, behind those it gave to
the nodes before. -/
def NoneLeft (n : Text × Owner) : Prop :=
  asks accounts d n.2 = true ∧ ∃ pre post previewed, d.lab.nodesObj.entries = pre ++ n :: post ∧
    pre.foldlM (preview host accounts d) [] = some previewed ∧ wouldGet host d previewed n.1 = some none

/-- The preflight has seen an equal `myip` before. -/
def SharedIp (n : Text × Owner) : Prop :=
  isEmpty (jqOr (n.2.fields.get myipField)) = false ∧ ComesAfter d.lab.nodesObj.entries n fun m =>
    isEmpty (jqOr (m.2.fields.get myipField)) = false ∧
      v.same (jqOr (m.2.fields.get myipField)) (jqOr (n.2.fields.get myipField)) = true

/-- The preflight has seen the `mymac` before, in lower case. -/
def SharedMac (n : Text × Owner) : Prop :=
  isEmpty (jqOr (n.2.fields.get mymacField)) = false ∧ ComesAfter d.lab.nodesObj.entries n fun m =>
    isEmpty (jqOr (m.2.fields.get mymacField)) = false ∧
      lower (jqOr (m.2.fields.get mymacField)).str = lower (jqOr (n.2.fields.get mymacField)).str

/-- The preflight takes the kcluster of a node for one that is not defined. -/
def Undefined (o : Owner) : Prop :=
  isEmpty (jqOr (o.fields.get kclusterField)) = false ∧
    isIn d.lab.kclustersObj.keys (jqOr (o.fields.get kclusterField)) = false

/-- What the preflight reports of a node. -/
def ReportedByPreflight (n : Text × Owner) : Fault → Prop
  | .noAddress => NoneLeft host accounts d n
  | .sameIp => SharedIp v d n
  | .sameMac => SharedMac d n
  | .unknownCluster => Undefined d n.2

end PreflightSide

section Preflight

variable {v : Values} {host : Ipalloc.Host} {accounts : Accounts} {d : Definition} {s s' : Seen}
  {n : Text × Owner} {ns : List (Text × Owner)} {name : Text} {fault : Fault}

theorem checkNode_eq_some {r : Seen × List (Text × Fault)} : checkNode v host accounts d s n = some r ↔
    raises n.2 = false ∧ ∃ previewed, preview host accounts d s.previewed n = some previewed ∧
      r = (remember v s previewed n.2, (nodeFaults v host accounts d s n).map (Prod.mk n.1)) := by
  unfold checkNode
  split
  · rename_i hraises
    simp [hraises]
  · rename_i hraises
    rw [Option.map_eq_some_iff, Bool.eq_false_of_not_eq_true hraises, and_iff_right rfl]
    exact exists_congr fun previewed => and_congr_right fun _ => eq_comm

/-- **Where the checks raise.** -/
theorem reports_eq_none_iff : reports (checkNode v host accounts d) s ns = none ↔
    (∃ n ∈ ns, raises n.2 = true) ∨ ns.foldlM (preview host accounts d) s.previewed = none := by
  induction ns generalizing s with
  | nil => simp [reports]
  | cons n ns ih =>
    rw [reports, List.foldlM_cons, List.exists_mem_cons_iff]
    cases hraises : raises n.2 with
    | true =>
      have hcheck : checkNode v host accounts d s n = none := if_pos hraises
      rw [hcheck]
      simp
    | false =>
      cases hp : preview host accounts d s.previewed n with
      | none =>
        have hcheck : checkNode v host accounts d s n = none := by
          rw [checkNode, hraises, hp]
          rfl
        rw [hcheck]
        simp
      | some previewed =>
        have hcheck : checkNode v host accounts d s n =
            some (remember v s previewed n.2, (nodeFaults v host accounts d s n).map (Prod.mk n.1)) :=
          checkNode_eq_some.mpr ⟨hraises, previewed, hp, rfl⟩
        rw [hcheck, Option.bind_some, Option.map_eq_none_iff, ih]
        simp [remember]

/-- The addresses previewed, behind the nodes that were checked. -/
theorem previewed_of_after (h : after (checkNode v host accounts d) s ns = some s') :
    ns.foldlM (preview host accounts d) s.previewed = some s'.previewed := by
  induction ns generalizing s with
  | nil =>
    obtain rfl := Option.some.inj h
    rfl
  | cons n ns ih =>
    rw [after, Option.bind_eq_some_iff] at h
    obtain ⟨r, hr, hafter⟩ := h
    obtain ⟨-, previewed, hp, rfl⟩ := checkNode_eq_some.mp hr
    rw [List.foldlM_cons, hp]
    exact ih hafter

theorem preflight_eq_none_iff : preflight v host accounts d = none ↔ Raises host accounts d := by
  unfold preflight Raises
  split
  · rename_i h
    exact iff_of_true rfl (Or.inl h)
  · rename_i h
    rw [reports_eq_none_iff, or_iff_right h]

/-- What the loop over the nodes knows of a `myip`. -/
theorem checkNode_knows_ip {r : Seen × List (Text × Fault)} {ip : Json} (h : checkNode v host accounts d s n = some r) :
    r.1.ips.any (v.same · ip) = true ↔ s.ips.any (v.same · ip) = true ∨
      (isEmpty (jqOr (n.2.fields.get myipField)) = false ∧ v.same (jqOr (n.2.fields.get myipField)) ip = true) := by
  obtain ⟨-, previewed, -, rfl⟩ := checkNode_eq_some.mp h
  unfold remember
  dsimp only
  cases hempty : isEmpty (jqOr (n.2.fields.get myipField)) with
  | true => simp
  | false =>
    cases hseen : s.ips.any (v.same · (jqOr (n.2.fields.get myipField))) with
    | false => simp [List.any_append]
    | true =>
      -- An equal value is there already, and what equals the one equals the other.
      rw [if_neg (by simp), and_iff_right rfl, or_iff_left_of_imp]
      intro hsame
      obtain ⟨a, ha, heq⟩ := List.any_eq_true.mp hseen
      exact List.any_eq_true.mpr ⟨a, ha, v.equivalence.trans heq hsame⟩

/-- What the loop over the nodes knows of a `mymac`. -/
theorem checkNode_knows_mac {r : Seen × List (Text × Fault)} {mac : Text}
    (h : checkNode v host accounts d s n = some r) : mac ∈ r.1.macs ↔ mac ∈ s.macs ∨
      (isEmpty (jqOr (n.2.fields.get mymacField)) = false ∧ lower (jqOr (n.2.fields.get mymacField)).str = mac) := by
  obtain ⟨-, previewed, -, rfl⟩ := checkNode_eq_some.mp h
  unfold remember
  dsimp only
  cases hempty : isEmpty (jqOr (n.2.fields.get mymacField)) with
  | true => simp
  | false =>
    by_cases hseen : lower (jqOr (n.2.fields.get mymacField)).str ∈ s.macs
    · rw [if_neg (by simp [hseen]), and_iff_right rfl, or_iff_left_of_imp]
      rintro rfl
      exact hseen
    · rw [if_pos (by simp [hseen]), List.mem_append, List.mem_singleton, and_iff_right rfl, eq_comm (a := mac)]

/-- What an error about a node says of it, and of those before it. -/
def IsFaultOf (v : Values) (host : Ipalloc.Host) (accounts : Accounts) (d : Definition) (s : Seen) (n : Text × Owner) :
    Fault → Prop
  | .noAddress => asks accounts d n.2 = true ∧ wouldGet host d s.previewed n.1 = some none
  | .sameIp => isEmpty (jqOr (n.2.fields.get myipField)) = false ∧
      s.ips.any (v.same · (jqOr (n.2.fields.get myipField))) = true
  | .sameMac => isEmpty (jqOr (n.2.fields.get mymacField)) = false ∧ lower (jqOr (n.2.fields.get mymacField)).str ∈ s.macs
  | .unknownCluster => Undefined d n.2

theorem mem_nodeFaults : fault ∈ nodeFaults v host accounts d s n ↔ IsFaultOf v host accounts d s n fault := by
  unfold nodeFaults
  cases fault <;> simp [IsFaultOf, Undefined]

theorem mem_checkNode {r : Seen × List (Text × Fault)} (h : checkNode v host accounts d s n = some r) :
    (name, fault) ∈ r.2 ↔ name = n.1 ∧ IsFaultOf v host accounts d s n fault := by
  obtain ⟨-, previewed, -, rfl⟩ := checkNode_eq_some.mp h
  rw [List.mem_map, ← mem_nodeFaults]
  constructor
  · rintro ⟨f, hf, heq⟩
    obtain ⟨rfl, rfl⟩ := Prod.mk.inj heq
    exact ⟨rfl, hf⟩
  · rintro ⟨rfl, hf⟩
    exact ⟨fault, hf, rfl⟩

/-- **What the preflight reports of a node.** -/
theorem reportsAt_check_iff {faults : List (Text × Fault)}
    (h : reports (checkNode v host accounts d) ⟨[], [], []⟩ d.lab.nodesObj.entries = some faults) :
    ReportsAt (checkNode v host accounts d) ⟨[], [], []⟩ d.lab.nodesObj.entries n (name, fault) ↔
      name = n.1 ∧ n ∈ d.lab.nodesObj.entries ∧ ReportedByPreflight v host accounts d n fault := by
  cases fault with
  | noAddress =>
    constructor
    · rintro ⟨pre, post, s, r, hl, hafter, hr, hb⟩
      obtain ⟨hname, hasks, hget⟩ := (mem_checkNode hr).mp hb
      refine ⟨hname, by rw [hl]; simp, hasks, pre, post, s.previewed, hl, previewed_of_after hafter, hget⟩
    · rintro ⟨hname, -, hasks, pre, post, previewed, hl, hpre, hget⟩
      rw [hl] at h
      obtain ⟨s, r, hafter, hr⟩ := exists_step h
      obtain rfl : previewed = s.previewed := Option.some.inj (hpre.symm.trans (previewed_of_after hafter))
      exact ⟨pre, post, s, r, hl, hafter, hr, (mem_checkNode hr).mpr ⟨hname, hasks, hget⟩⟩
  | sameIp =>
    rw [reportsAt_iff h (fun s m r hr => checkNode_knows_ip hr) fun s r hr =>
      (mem_checkNode hr).trans and_assoc.symm, and_assoc]
    simp only [List.any_nil, Bool.false_eq_true, false_or]
    refine and_congr_right fun _ => ?_
    exact (and_iff_right_of_imp fun hshared => ComesAfter.mem hshared.2).symm
  | sameMac =>
    rw [reportsAt_iff h (fun s m r hr => checkNode_knows_mac hr) fun s r hr =>
      (mem_checkNode hr).trans and_assoc.symm, and_assoc]
    simp only [List.not_mem_nil, false_or]
    refine and_congr_right fun _ => ?_
    exact (and_iff_right_of_imp fun hshared => ComesAfter.mem hshared.2).symm
  | unknownCluster =>
    constructor
    · rintro ⟨pre, post, s, r, hl, hafter, hr, hb⟩
      obtain ⟨hname, hundefined⟩ := (mem_checkNode hr).mp hb
      exact ⟨hname, by rw [hl]; simp, hundefined⟩
    · rintro ⟨hname, hn, hundefined⟩
      obtain ⟨pre, post, hl⟩ := List.append_of_mem hn
      rw [hl] at h
      obtain ⟨s, r, hafter, hr⟩ := exists_step h
      exact ⟨pre, post, s, r, hl, hafter, hr, (mem_checkNode hr).mpr ⟨hname, hundefined⟩⟩

/-- **What the preflight reports.** -/
theorem mem_preflight_iff {faults : List (Text × Fault)} (h : preflight v host accounts d = some faults) :
    (name, fault) ∈ faults ↔
      ∃ o, (name, o) ∈ d.lab.nodesObj.entries ∧ ReportedByPreflight v host accounts d (name, o) fault := by
  unfold preflight at h
  split at h
  · cases h
  · rw [mem_reports_iff h]
    simp only [reportsAt_check_iff h]
    constructor
    · rintro ⟨n, rfl, hn, hr⟩
      exact ⟨n.2, hn, hr⟩
    · rintro ⟨o, hn, hr⟩
      exact ⟨(name, o), rfl, hn, hr⟩

end Preflight

/-! ## Where they agree -/

section Agree

variable (v : Values) (host : Ipalloc.Host) (accounts : Accounts) (d : Definition) (base : Bool)

/-- The builder finds nothing. -/
def Quiet : Prop := ∀ n ∈ d.lab.nodesObj.entries, ∀ fault, ¬ ReportedByBuilder v base d n fault

/-- **What makes them agree** about a lab that the preflight gets through. -/
structure Alike : Prop where
  /-- `_empty(False)`, but not `!has(n.cfg, "kcluster")`. -/
  kcluster : ∀ n ∈ d.lab.nodesObj.entries, n.2.fields.get kclusterField ≠ some (.bool false)
  ip : ∀ n ∈ d.lab.nodesObj.entries, SharedInBuilder v d myipField n ↔ SharedIp v d n
  mac : ∀ n ∈ d.lab.nodesObj.entries, SharedInBuilder v d mymacField n ↔ SharedMac d n
  /-- A VM the builder finds no address for is on no cloud by its account. -/
  account : base = true → ∀ n ∈ d.lab.nodesObj.entries, UnaddressedInBuilder d n.2 →
    ∀ ct ∈ Backend.accountCloudtype accounts d.choice (nodeChoice n.2), ct ∉ CLOUD_BACKEND_NAMES
  /-- The allocator is only out of addresses where the builder sees that it has none. -/
  left : ∀ n ∈ d.lab.nodesObj.entries, NoneLeft host accounts d n → base = true ∧ UnaddressedInBuilder d n.2

variable {v host accounts d base} {o : Owner} {n : Text × Owner}

theorem has_eq_false_iff {field : Option Json} :
    has field = false ↔ field = none ∨ field = some .null ∨ field = some (.text []) := by
  rcases field with _ | value
  · simp [has]
  · cases value <;> simp [has]

theorem mem_of_isIn {names : List Text} {value : Json} (h : isIn names value = true) :
    ∃ t ∈ names, value = .text t := by
  obtain ⟨t, ht, htext⟩ := List.any_eq_true.mp h
  exact ⟨t, ht, Backend.eq_text_of_isText htext⟩

theorem isIn_text {names : List Text} {t : Text} : isIn names (.text t) = true ↔ t ∈ names := by
  constructor
  · intro h
    obtain ⟨u, hu, heq⟩ := mem_of_isIn h
    exact Json.text.inj heq ▸ hu
  · exact fun h => List.any_eq_true.mpr ⟨t, h, decide_eq_true rfl⟩

/-- A backend named for a VM that the builder takes for local is one of its local ones. -/
theorem IsLocal.named (h : IsLocal d o) {t : Text} (hne : t ≠ [])
    (ht : Backend.namedBackend d.choice (nodeChoice o) = .text t) : t ∈ LOCAL_BACKENDS := by
  unfold IsLocal lintBackend at h
  unfold Backend.namedBackend Definition.choice nodeChoice at ht
  dsimp only at h ht
  cases hhas : has (o.fields.get backendField) with
  | true =>
    rw [if_pos hhas] at h
    obtain ⟨u, hu, heq⟩ := mem_of_isIn h
    have hfield : o.fields.get backendField = some (.text u) := by
      cases hf : o.fields.get backendField with
      | none => rw [hf] at hhas; cases hhas
      | some value => rw [hf] at heq; exact congrArg some heq
    rw [hfield] at ht hhas
    have hu' : u ≠ [] := by simpa [has] using hhas
    have htruthy : Backend.truthy (jqOr (some (.text u))) = true := decide_eq_true hu'
    rw [pyOr, if_pos htruthy] at ht
    exact Json.text.inj ht ▸ hu
  | false =>
    rw [hhas, if_neg Bool.false_ne_true] at h
    have hfalsy : Backend.truthy (jqOr (o.fields.get backendField)) = false := by
      rcases has_eq_false_iff.mp hhas with hf | hf | hf <;> rw [hf] <;> rfl
    rw [pyOr, hfalsy, if_neg Bool.false_ne_true] at ht
    have hshared : d.lab.commonObj.get backendField.1 = some (.text t) := by
      cases hf : d.lab.commonObj.get backendField.1 with
      | none => rw [hf] at ht; exact absurd (Json.text.inj ht).symm hne
      | some value =>
        rw [hf] at ht
        cases value with
        | null => exact absurd (Json.text.inj ht).symm hne
        | bool b =>
          cases b with
          | false => exact absurd (Json.text.inj ht).symm hne
          | true => cases ht
        | _ => exact congrArg some ht
    have htruthy : isTruthy (.text t) = true := decide_eq_true hne
    rw [hshared, Backend.get, Option.getD_some, if_pos htruthy] at h
    exact isIn_text.mp h

theorem not_mem_cloud {t : Text} (h : t ∈ LOCAL_BACKENDS) : t ∉ CLOUD_BACKEND_NAMES := by
  have hall : ∀ t ∈ LOCAL_BACKENDS, t ∉ CLOUD_BACKEND_NAMES := by decide
  exact hall t h

/-- **A VM that the builder takes for local is on a cloud exactly by its account.** -/
theorem isCloudNode_iff (h : IsLocal d o) : isCloudNode accounts d o = true ↔
    ∃ ct ∈ Backend.accountCloudtype accounts d.choice (nodeChoice o), ct ∈ CLOUD_BACKEND_NAMES := by
  unfold isCloudNode Backend.nodeBackendEff
  cases hct : Backend.accountCloudtype accounts d.choice (nodeChoice o) with
  | some ct =>
    have hne : ct ≠ [] := by
      unfold Backend.accountCloudtype at hct
      split at hct
      · cases hct
      · exact accounts.load_ne hct
    have htruthy : Backend.truthy (.text ct) = true := decide_eq_true hne
    rw [Option.elim_some, pyOr, if_pos htruthy, isIn_text]
    simp
  | none =>
    refine iff_of_false (fun hin => ?_) (by simp)
    rw [Option.elim_none, pyOr, if_neg (by decide)] at hin
    obtain ⟨t, ht, heq⟩ := mem_of_isIn hin
    cases htruthy : Backend.truthy (Backend.namedBackend d.choice (nodeChoice o)) with
    | true =>
      rw [pyOr, if_pos htruthy] at heq
      have hne : t ≠ [] := by
        rintro rfl
        rw [heq] at htruthy
        cases htruthy
      exact not_mem_cloud (h.named hne heq) ht
    | false =>
      rw [pyOr, htruthy, if_neg Bool.false_ne_true] at heq
      exact Backend.not_mem_cloud (Json.text.inj heq ▸ ht)

theorem orEmpty_of_not_has {field : Option Json} (h : has field = false) : orEmpty field = [] := by
  rcases has_eq_false_iff.mp h with rfl | rfl | rfl <;> rfl

/-- Without a network there is no address left. -/
theorem wouldGet_of_noNetwork (h : NoNetwork d) (previewed : List Text) (name : Text) :
    wouldGet host d previewed name = some none := by
  have hnet : Ipalloc.labNetwork d.addresses.common = none := by
    refine if_pos ?_
    rcases Bool.and_eq_false_iff.mp h with hgw | hmask
    · refine Or.inl ?_
      change strip (orEmpty _) = []
      rw [orEmpty_of_not_has hgw]
      rfl
    · refine Or.inr ?_
      change strip (orEmpty _) = []
      rw [orEmpty_of_not_has hmask]
      rfl
  unfold wouldGet Ipalloc.allocate
  rw [hnet]
  rfl

theorem unknown_iff (hraises : raises o = false) :
    (UnknownToBuilder d o ↔ Undefined d o) ↔ o.fields.get kclusterField ≠ some (.bool false) := by
  have hhash : unhashable (jqOr (o.fields.get kclusterField)) = false := (Bool.or_eq_false_iff.mp hraises).2
  unfold UnknownToBuilder Undefined
  revert hhash
  generalize o.fields.get kclusterField = field
  intro hhash
  rcases field with _ | value
  · simp [has, jqOr, isEmpty]
  · cases value with
    | null => simp [has, jqOr, isEmpty]
    | bool b => cases b <;> simp [has, jqOr, isEmpty, isIn, Backend.get, Backend.isText]
    | text t => simp [has, jqOr, isEmpty, Backend.get]
    | int n => simp [has, jqOr, isEmpty, Backend.get]
    | real r => simp [has, jqOr, isEmpty, Backend.get]
    | list items => cases hhash
    | mapping items => cases hhash

theorem unaddressed_iff (hraises : ¬ Raises host accounts d) (hn : n ∈ d.lab.nodesObj.entries) :
    (base = true ∧ UnaddressedInBuilder d n.2 ↔ NoneLeft host accounts d n) ↔
      (base = true → UnaddressedInBuilder d n.2 →
        ∀ ct ∈ Backend.accountCloudtype accounts d.choice (nodeChoice n.2), ct ∉ CLOUD_BACKEND_NAMES) ∧
      (NoneLeft host accounts d n → base = true ∧ UnaddressedInBuilder d n.2) := by
  have hasks : UnaddressedInBuilder d n.2 → (NoneLeft host accounts d n ↔
      ∀ ct ∈ Backend.accountCloudtype accounts d.choice (nodeChoice n.2), ct ∉ CLOUD_BACKEND_NAMES) := by
    rintro ⟨hip, hlocal, hnet⟩
    have hempty : isEmpty (jqOr (n.2.fields.get myipField)) = true := by
      rcases has_eq_false_iff.mp hip with hf | hf | hf <;> rw [hf] <;> rfl
    have hcloud := @isCloudNode_iff accounts d n.2 hlocal
    have hask : asks accounts d n.2 = true ↔
        ∀ ct ∈ Backend.accountCloudtype accounts d.choice (nodeChoice n.2), ct ∉ CLOUD_BACKEND_NAMES := by
      rw [asks, hempty, Bool.true_and, Bool.not_eq_true', ← Bool.not_eq_true, hcloud]
      simp only [not_exists, not_and]
    rw [← hask]
    refine and_iff_left ?_
    obtain ⟨pre, post, hl⟩ := List.append_of_mem hn
    have hpre : pre.foldlM (preview host accounts d) [] ≠ none := by
      intro hnone
      refine hraises (Or.inr (Or.inr ?_))
      rw [hl, List.foldlM_append, hnone]
      rfl
    obtain ⟨previewed, hp⟩ := Option.ne_none_iff_exists'.mp hpre
    exact ⟨pre, post, previewed, hl, hp, wouldGet_of_noNetwork hnet previewed n.1⟩
  constructor
  · intro h
    exact ⟨fun hbase hu => (hasks hu).mp (h.mp ⟨hbase, hu⟩), h.mpr⟩
  · rintro ⟨haccount, hleft⟩
    exact ⟨fun ⟨hbase, hu⟩ => (hasks hu).mpr (haccount hbase hu), hleft⟩

end Agree

/-! ## A cloud account -/

/-- A value as it is printed, and whether it is a text. -/
def printed (value : Json) : Bool × Text :=
  (match value with
    | .text _ => true
    | _ => false, value.str)

theorem printed_equivalence : Equivalence fun a b => decide (printed a = printed b) = true where
  refl _ := decide_eq_true rfl
  symm h := decide_eq_true (of_decide_eq_true h).symm
  trans h h' := decide_eq_true ((of_decide_eq_true h).trans (of_decide_eq_true h'))

/-- Values that are compared as they are printed. -/
def plainValues : Values where
  string := Json.str
  same a b := decide (printed a = printed b)
  string_text _ := rfl
  same_text t u := by simp [printed, Json.str]
  equivalence := printed_equivalence

/-- A machine that knows no address. -/
def unaware : Ipalloc.Host where
  zone _ := none
  resolve _ := none
  localIps := []
  digest _ := 0
  isIpv6 _ := false
  isWord c := c.isAlphanum || c = '_'

/-- One account, on Hetzner. -/
def hetznerAccount : Accounts where
  load name := if name = "hz".toList then some "hetzner".toList else none
  listed := [("hz".toList, "hetzner".toList)]
  load_ne h := by
    split at h
    · cases h
      decide
    · cases h

/-- A VM on the account, in a lab without a network. -/
def cloudLab : Lab where
  common := none
  nodes := some ⟨[("vm1".toList, ⟨⟨[(cloudAccountField, .text "hz".toList)], List.nodup_singleton _⟩, none⟩)],
    List.nodup_singleton _⟩
  kclusters := none
  versions := none
  sections := Obj.empty

/-- The lab, as a definition. -/
def cloudDefinition : Definition := ⟨cloudLab, [], fun _ h => absurd h List.not_mem_nil⟩

end LabInABox.Web.Lint
