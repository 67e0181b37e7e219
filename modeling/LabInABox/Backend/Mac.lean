import LabInABox.Backend.Select
import LabInABox.Objects
import LabInABox.Text.Lines
import LabInABox.Text.Order
import LabInABox.Text.Regex

/-!
# The MAC address of a VM

Model of `_check_or_generate_mac` and of `list_used_macs` of `LibvirtBackend` (`libs/backends.py`), and of
`_generate_unused_mac` (`libs/lab_creation.py`).

* A hypervisor is what `virsh list` and `virsh domiflist` print. A domain's interfaces are the lines of its
  table that show an address; the inventory the code keeps has the first of them.
* The SHA-256 digest of a text and the draws of `random` are parameters: the six octets the code reads of
  each. The loop that draws until an address is unused makes `fuel` draws; it may want more.
* `answer` is what the operator types, stripped.

Results:
* `find_unused_iff`: when a search that avoids the inventory avoids more than it.
* `unique_iff`: exactly when the address a call ends with is no other domain's.
* `unique_of_single`: domains with one interface each, and none that shares the address of the VM.
* `shared_address_kept`: a VM listed first keeps the address of the one after it.
-/

namespace LabInABox.Backend.Mac

open Text Schema

/-! ## What the hypervisor shows -/

/-- What `virsh list --all --name` prints, and `virsh domiflist` for each domain. -/
structure Inventory where
  list : Text
  domiflist : Text → Text

/-- `[0-9a-f]` -/
def hexClass : Re := .chr fun c => ('0' ≤ c && c ≤ '9') || ('a' ≤ c && c ≤ 'f')

/-- `^([0-9a-f]{2}:){5}[0-9a-f]{2}$`, of a text without a newline. -/
def macRe : Re :=
  .seq ((List.replicate 5 [hexClass, hexClass, .literal ':']).flatten ++ [hexClass, hexClass])

/-- The address on a line of the table, if it is the line of an interface. -/
def interfaceMac (line : Text) : Option Text :=
  if line.head?.any isSpace then
    match (fields line)[4]? with
    | some f => if macRe.accepts (lower f) then some (lower f) else none
    | none => none
  else none

namespace Inventory

variable (inv : Inventory)

/-- The domains, in the order they are listed. -/
def domains : List Text := ((splitlines inv.list).map strip).filter (· ≠ [])

/-- The addresses of the interfaces of a domain. -/
def macs (dom : Text) : List Text := (splitlines (inv.domiflist dom)).filterMap interfaceMac

/-- The address the loop breaks at. -/
def firstMac (dom : Text) : Option Text := (splitlines (inv.domiflist dom)).findSome? interfaceMac

/-- `mac_by_domain` of `list_used_macs`. -/
def macByDomain : Obj Text Text :=
  Obj.empty.assign (inv.domains.filterMap fun dom => (inv.firstMac dom).map fun mac => (dom, mac))

/-- `used_macs` -/
def usedMacs : List Text := inv.macByDomain.entries.map Prod.snd

/-- `owner`: the first domain with the address. -/
def owner (mac : Text) : Option Text :=
  (inv.macByDomain.entries.find? fun e => e.2 = mac).map Prod.fst

/-- `owner`, when it is not the VM itself. -/
def conflict (vmName mac : Text) : Option Text :=
  (inv.owner mac).filter fun dom => dom ≠ [] && dom ≠ vmName

/-- An interface of a domain has the address. -/
def Held (mac : Text) : Prop := ∃ dom ∈ inv.domains, mac ∈ inv.macs dom

/-- An interface of a domain other than the VM has the address. -/
def HeldByOther (vmName mac : Text) : Prop := ∃ dom ∈ inv.domains, dom ≠ vmName ∧ mac ∈ inv.macs dom

variable {inv}

theorem firstMac_eq (dom : Text) : inv.firstMac dom = (inv.macs dom).head? :=
  List.head?_filterMap.symm

theorem HeldByOther.held {vmName mac : Text} (h : inv.HeldByOther vmName mac) : inv.Held mac := by
  obtain ⟨dom, hd, _, hm⟩ := h
  exact ⟨dom, hd, hm⟩

/-- The inventory has the first interface of each domain. -/
theorem get_macByDomain_eq_some_iff {dom mac : Text} :
    inv.macByDomain.get dom = some mac ↔ dom ∈ inv.domains ∧ inv.firstMac dom = some mac := by
  have hmem : ∀ e, e ∈ inv.domains.filterMap (fun dom => (inv.firstMac dom).map fun mac => (dom, mac)) ↔
      e.1 ∈ inv.domains ∧ inv.firstMac e.1 = some e.2 := by
    intro e
    rw [List.mem_filterMap]
    constructor
    · rintro ⟨d, hd, he⟩
      obtain ⟨m, hm, rfl⟩ := Option.map_eq_some_iff.mp he
      exact ⟨hd, hm⟩
    · rintro ⟨hd, hm⟩
      exact ⟨e.1, hd, by rw [hm, Option.map_some]⟩
  rw [macByDomain]
  constructor
  · intro h
    rw [Obj.get_assign_of_lawful, Obj.get_empty, Option.or_none] at h
    obtain ⟨l₁, l₂, hl, _⟩ := List.lookup_eq_some_iff.mp h
    refine (hmem (dom, mac)).mp (List.mem_reverse.mp ?_)
    rw [hl]
    exact List.mem_append_right _ List.mem_cons_self
  · intro h
    refine Obj.get_assign_of_forall (fun e he hek => ?_) (List.mem_map_of_mem ((hmem (dom, mac)).mpr h))
    have h₂ := ((hmem e).mp he).2
    rw [hek, h.2] at h₂
    exact (Option.some.inj h₂).symm

theorem mem_usedMacs_iff {mac : Text} :
    mac ∈ inv.usedMacs ↔ ∃ dom ∈ inv.domains, inv.firstMac dom = some mac := by
  unfold usedMacs
  rw [List.mem_map]
  constructor
  · rintro ⟨e, he, rfl⟩
    exact ⟨e.1, get_macByDomain_eq_some_iff.mp (Obj.mem_entries_iff.mp he)⟩
  · rintro ⟨dom, h⟩
    exact ⟨(dom, mac), Obj.mem_entries_iff.mpr (get_macByDomain_eq_some_iff.mpr h), rfl⟩

/-- The owner is a domain whose first interface has the address. -/
theorem firstMac_of_owner {dom mac : Text} (h : inv.owner mac = some dom) :
    dom ∈ inv.domains ∧ inv.firstMac dom = some mac := by
  obtain ⟨e, he, rfl⟩ := Option.map_eq_some_iff.mp h
  have hp : e.2 = mac := by simpa using List.find?_some he
  rw [← hp]
  exact get_macByDomain_eq_some_iff.mp (Obj.mem_entries_iff.mp (List.mem_of_find?_eq_some he))

/-- An address without an owner is on no first interface. -/
theorem not_mem_usedMacs_of_owner {mac : Text} (h : inv.owner mac = none) : mac ∉ inv.usedMacs := by
  intro hm
  obtain ⟨e, he, hmac⟩ := List.mem_map.mp hm
  have hnone := List.find?_eq_none.mp (Option.map_eq_none_iff.mp h) e he
  exact hnone (decide_eq_true hmac)

end Inventory

/-! ## An address that is not used -/

/-- The six octets the code reads of a digest, or draws. -/
abbrev Octets := Fin 6 → UInt8

/-- `{:02x}` -/
def hex2 (b : UInt8) : Text := [Nat.digitChar (b.toNat / 16), Nat.digitChar (b.toNat % 16)]

/-- The locally administered unicast address of six octets. -/
def macText (o : Octets) : Text :=
  [':'].intercalate (((o 0 &&& 0xFC) ||| 0x02) :: [o 1, o 2, o 3, o 4, o 5] |>.map hex2)

theorem lower_hex2 (b : UInt8) : lower (hex2 b) = hex2 b := by
  have hd : ∀ n : Fin 16, lowerChar (Nat.digitChar n) = Nat.digitChar n := by decide
  have h₁ := hd ⟨b.toNat / 16, by have := b.toNat_lt; omega⟩
  have h₂ := hd ⟨b.toNat % 16, Nat.mod_lt _ (by decide)⟩
  unfold lower hex2
  rw [List.map_cons, List.map_cons, h₁, h₂, List.map_nil]

/-- A made address is in lower case. -/
theorem lower_macText (o : Octets) : lower (macText o) = macText o := by
  have ha : ∀ t u : Text, lower (t ++ u) = lower t ++ lower u := fun t u => List.map_append
  have hc : lower [':'] = [':'] := by decide
  unfold macText
  simp only [List.map_cons, List.map_nil, List.intercalate_cons_cons, List.intercalate_singleton, ha, hc,
    lower_hex2]

section Search

variable {α : Type*}

/-- Before every held element of the list that is not used, another stands that is not used. -/
def Covered (used : List α) (held : α → Prop) (cs : List α) : Prop :=
  ∀ as c bs, cs = as ++ c :: bs → held c → c ∈ used ∨ ∃ a ∈ as, a ∉ used

/-- **A search for an unused element** finds none that is held. -/
theorem find_unused_iff {used : List α} [∀ c, Decidable (c ∉ used)] {held : α → Prop} {cs : List α} :
    (∀ c, cs.find? (fun c => decide (c ∉ used)) = some c → ¬ held c) ↔ Covered used held cs := by
  have hfind : ∀ c, cs.find? (fun c => decide (c ∉ used)) = some c ↔
      c ∉ used ∧ ∃ as bs, cs = as ++ c :: bs ∧ ∀ a ∈ as, a ∈ used := by
    intro c
    rw [List.find?_eq_some_iff_append]
    simp
  constructor
  · intro h as c bs hcs hheld
    by_contra hno
    rw [not_or] at hno
    refine h c ((hfind c).mpr ⟨hno.1, as, bs, hcs, fun a ha => ?_⟩) hheld
    by_contra hu
    exact hno.2 ⟨a, ha, hu⟩
  · intro h c hc hheld
    obtain ⟨hu, as, bs, hcs, has⟩ := (hfind c).mp hc
    rcases h as c bs hcs hheld with hin | ⟨a, ha, hnot⟩
    · exact hu hin
    · exact hnot (has a ha)

end Search

section Generate

variable (sha256 : Text → Octets) (draw : Nat → Octets)

/-- The addresses derived from the name. -/
def derived (vmName : Text) : List Text :=
  if vmName ≠ [] then
    (List.range 256).map fun attempt => macText (sha256 (vmName ++ '#' :: Nat.toDigits 10 attempt))
  else []

/-- The addresses that are drawn. -/
def drawn (fuel : Nat) : List Text := (List.range fuel).map fun i => macText (draw i)

/-- `_generate_unused_mac(used_macs, vm_name)`, unless it wants more than `fuel` draws. -/
def generateUnusedMac (fuel : Nat) (used : List Text) (vmName : Text) : Option Text :=
  match (derived sha256 vmName).find? (fun c => decide (c ∉ used)) with
  | some candidate => some candidate
  | none => (drawn draw fuel).find? fun c => decide (c ∉ used)

/-- The addresses tried, in order. -/
def candidates (fuel : Nat) (vmName : Text) : List Text := derived sha256 vmName ++ drawn draw fuel

theorem generateUnusedMac_eq (fuel : Nat) (used : List Text) (vmName : Text) :
    generateUnusedMac sha256 draw fuel used vmName =
      (candidates sha256 draw fuel vmName).find? fun c => decide (c ∉ used) := by
  unfold generateUnusedMac candidates
  rw [List.find?_append]
  cases (derived sha256 vmName).find? fun c => decide (c ∉ used) <;> rfl

/-- A made address is in lower case, and not one of those to avoid. -/
theorem lower_of_generateUnusedMac {fuel : Nat} {used : List Text} {vmName mac : Text}
    (h : generateUnusedMac sha256 draw fuel used vmName = some mac) : lower mac = mac ∧ mac ∉ used := by
  rw [generateUnusedMac_eq] at h
  refine ⟨?_, by simpa using List.find?_some h⟩
  rcases List.mem_append.mp (List.mem_of_find?_eq_some h) with hm | hm
  · unfold derived at hm
    split at hm
    · obtain ⟨_, _, rfl⟩ := List.mem_map.mp hm
      exact lower_macText _
    · exact absurd hm List.not_mem_nil
  · obtain ⟨_, _, rfl⟩ := List.mem_map.mp hm
    exact lower_macText _

end Generate

/-! ## The call -/

/-- A lab definition, as far as its nodes go. -/
structure LabDefinition where
  nodes : Obj Text (Obj Text Json)

/-- The address in a node of the definition. -/
def LabDefinition.mymac (d : LabDefinition) (vmName : Text) : Option Json :=
  (d.nodes.get vmName).bind (·.get "mymac".toList)

/-- What a call returns, the definition it leaves, the copy it saves, and whether it asked. -/
structure Resolved where
  mymac : Text
  network : Text
  definition : LabDefinition
  saved : Option LabDefinition
  asked : Bool

/-- How a call ends. -/
inductive Ending
  | returns (r : Resolved)
  | dies (message : Text)
  /-- An `AttributeError` or a `KeyError`. -/
  | raises
  | draws

/-- `_RED` -/
def RED : Text := Char.ofNat 27 :: "[1;91m".toList

/-- `_RESET` -/
def RESET : Text := Char.ofNat 27 :: "[0m".toList

/-- `network` -/
def networkText (bridge mymac vmNetModel : Text) : Text :=
  "bridge=".toList ++ bridge ++ ",mac.address=".toList ++ mymac ++ ",model=".toList ++
    (if vmNetModel = [] then "virtio".toList else vmNetModel)

/-- `re.match(r"^[Yy]$", answer)` -/
def Confirmed (answer : Text) : Prop := answer = ['Y'] ∨ answer = ['y']

instance (answer : Text) : Decidable (Confirmed answer) := inferInstanceAs (Decidable (_ ∨ _))

/-- The arguments of a call, and what the operator answers. -/
structure Request where
  vmName : Text
  mymac : Json
  definition : LabDefinition
  bridge : Text
  vmNetModel : Text
  answer : Text

/-- A call that returns an address, without a change to the definition. -/
def Request.keeps (q : Request) (mymac : Text) : Ending :=
  .returns ⟨mymac, networkText q.bridge mymac q.vmNetModel, q.definition, none, false⟩

section Call

variable (sha256 : Text → Octets) (draw : Nat → Octets) (inv : Inventory) (q : Request)

/-- The operator is asked: a new address in the definition, or the end. -/
def regenerate (fuel : Nat) (oldMac owner : Text) : Ending :=
  if Confirmed q.answer then
    match generateUnusedMac sha256 draw fuel inv.usedMacs [] with
    | none => .draws
    | some mymac =>
      match q.definition.nodes.get q.vmName with
      | none => .raises
      | some node =>
        let definition : LabDefinition :=
          ⟨q.definition.nodes.set q.vmName (node.set "mymac".toList (.text mymac))⟩
        .returns ⟨mymac, networkText q.bridge mymac q.vmNetModel, definition, some definition, true⟩
  else
    .dies ("MAC conflict on \"".toList ++ RED ++ q.vmName ++ RESET ++ "\" (".toList ++ oldMac ++
      " owned by '".toList ++ owner ++ "') — aborting".toList)

/-- `_check_or_generate_mac`, with the inventory of `list_used_macs`. -/
def checkOrGenerateMac (fuel : Nat) : Ending :=
  if isEmpty q.mymac then
    match generateUnusedMac sha256 draw fuel inv.usedMacs q.vmName with
    | none => .draws
    | some mymac => q.keeps mymac
  else
    match q.mymac with
    | .text mymac =>
      match inv.conflict q.vmName (lower mymac) with
      | some owner => regenerate sha256 draw inv q fuel mymac owner
      | none => q.keeps mymac
    | _ => .raises

/-- **What the call is for**: the address is no other domain's, and a new one in the definition no domain's. -/
structure Unique (e : Ending) : Prop where
  unasked : ∀ r, e = .returns r → r.asked = false → ¬ inv.HeldByOther q.vmName (lower r.mymac)
  confirmed : ∀ r, e = .returns r → r.asked = true →
    ∀ mac, r.definition.mymac q.vmName = some (.text mac) → ¬ inv.Held (lower mac)

/-- When it is: the candidates that are other domains' are passed over, and so is a requested address. -/
structure Clear : Prop where
  generated : isEmpty q.mymac = true →
    ∀ fuel, Covered inv.usedMacs (inv.HeldByOther q.vmName) (candidates sha256 draw fuel q.vmName)
  regenerated : ∀ mymac, q.mymac = .text mymac → mymac ≠ [] →
    (∃ owner, inv.conflict q.vmName (lower mymac) = some owner) → Confirmed q.answer →
    q.vmName ∈ q.definition.nodes.keys → ∀ fuel, Covered inv.usedMacs inv.Held (drawn draw fuel)
  kept : ∀ mymac, q.mymac = .text mymac → mymac ≠ [] →
    inv.conflict q.vmName (lower mymac) = none → ¬ inv.HeldByOther q.vmName (lower mymac)

variable {sha256 draw inv q}

theorem unique_keeps_iff {mymac : Text} :
    Unique inv q (q.keeps mymac) ↔ ¬ inv.HeldByOther q.vmName (lower mymac) := by
  constructor
  · intro h
    exact h.unasked _ rfl rfl
  · intro h
    refine ⟨fun r hr _ => ?_, fun r hr hasked => ?_⟩
    · rw [← Ending.returns.inj hr]
      exact h
    · rw [← Ending.returns.inj hr] at hasked
      exact absurd hasked Bool.false_ne_true

/-- A call that does not return has nothing to answer for. -/
theorem unique_of_not_returns {e : Ending} (h : ∀ r, e ≠ .returns r) : Unique inv q e :=
  ⟨fun r hr => absurd hr (h r), fun r hr => absurd hr (h r)⟩

theorem mymac_set (node : Obj Text Json) (v : Json) :
    (LabDefinition.mk (q.definition.nodes.set q.vmName (node.set "mymac".toList v))).mymac q.vmName = some v := by
  unfold LabDefinition.mymac
  rw [Obj.get_set, if_pos rfl, Option.bind_some, Obj.get_set, if_pos rfl]

/-- The regeneration the operator confirms. -/
theorem unique_regenerate_iff {oldMac owner : Text} :
    (∀ fuel, Unique inv q (regenerate sha256 draw inv q fuel oldMac owner)) ↔
      (Confirmed q.answer → q.vmName ∈ q.definition.nodes.keys →
        ∀ fuel, Covered inv.usedMacs inv.Held (drawn draw fuel)) := by
  have hdrawn : ∀ fuel, generateUnusedMac sha256 draw fuel inv.usedMacs [] =
      (drawn draw fuel).find? fun c => decide (c ∉ inv.usedMacs) := fun fuel => by
    rw [generateUnusedMac_eq, candidates, derived, if_neg (fun h => h rfl), List.nil_append]
  constructor
  · intro h hc hk fuel
    refine find_unused_iff.mp fun mac hmac hheld => ?_
    obtain ⟨node, hn⟩ := Obj.mem_keys_iff.mp hk
    have hlow : lower mac = mac := by
      rw [← hdrawn] at hmac
      exact (lower_of_generateUnusedMac sha256 draw hmac).1
    have hu := h fuel
    unfold regenerate at hu
    rw [if_pos hc, hdrawn, hmac] at hu
    dsimp only at hu
    rw [hn] at hu
    have hno := hu.confirmed _ rfl rfl mac (mymac_set _ _)
    rw [hlow] at hno
    exact hno hheld
  · intro h fuel
    unfold regenerate
    split
    · rename_i hc
      split
      · exact unique_of_not_returns fun r => Ending.noConfusion
      · rename_i mac hmac
        have hlow := (lower_of_generateUnusedMac sha256 draw hmac).1
        split
        · exact unique_of_not_returns fun r => Ending.noConfusion
        · rename_i node hn
          have hcov := h hc (Obj.mem_keys_iff.mpr ⟨node, hn⟩) fuel
          rw [hdrawn] at hmac
          have hfree := find_unused_iff.mpr hcov mac hmac
          refine ⟨fun r hr hasked => ?_, fun r hr _ mac' hmac' => ?_⟩
          · rw [← Ending.returns.inj hr] at hasked
            exact absurd hasked.symm Bool.false_ne_true
          · rw [← Ending.returns.inj hr, mymac_set] at hmac'
            rw [← Json.text.inj (Option.some.inj hmac'), hlow]
            exact hfree
    · exact unique_of_not_returns fun r => Ending.noConfusion

/-- No address is requested: one is generated. -/
theorem unique_generated_iff (he : isEmpty q.mymac = true) (fuel : Nat) :
    Unique inv q (checkOrGenerateMac sha256 draw inv q fuel) ↔
      Covered inv.usedMacs (inv.HeldByOther q.vmName) (candidates sha256 draw fuel q.vmName) := by
  unfold checkOrGenerateMac
  rw [if_pos he, ← find_unused_iff, ← generateUnusedMac_eq]
  cases hg : generateUnusedMac sha256 draw fuel inv.usedMacs q.vmName with
  | none =>
    constructor
    · intro _ c hc
      exact absurd hc.symm (Option.some_ne_none c)
    · intro _
      exact unique_of_not_returns fun r => Ending.noConfusion
  | some mac =>
    rw [unique_keeps_iff, (lower_of_generateUnusedMac sha256 draw hg).1]
    constructor
    · intro h c hc
      rw [← Option.some.inj hc]
      exact h
    · intro h
      exact h mac rfl

/-- A request that nobody else owns is kept; another is regenerated or refused. -/
theorem checkOrGenerateMac_text {mymac : Text} (hq : q.mymac = .text mymac) (hne : mymac ≠ []) (fuel : Nat) :
    checkOrGenerateMac sha256 draw inv q fuel =
      match inv.conflict q.vmName (lower mymac) with
      | some owner => regenerate sha256 draw inv q fuel mymac owner
      | none => q.keeps mymac := by
  have he : ¬ isEmpty q.mymac = true := fun he => by
    rw [hq] at he
    exact hne (of_decide_eq_true he)
  unfold checkOrGenerateMac
  rw [if_neg he, hq]

theorem checkOrGenerateMac_other (he : ¬ isEmpty q.mymac = true) (h : ∀ t, q.mymac ≠ .text t) (fuel : Nat) :
    checkOrGenerateMac sha256 draw inv q fuel = .raises := by
  unfold checkOrGenerateMac
  rw [if_neg he]
  split
  · rename_i t ht
    exact absurd ht (h t)
  · rfl

theorem unique_requested_iff {mymac : Text} (hq : q.mymac = .text mymac) (hne : mymac ≠ []) :
    (∀ fuel, Unique inv q (checkOrGenerateMac sha256 draw inv q fuel)) ↔
      ((∃ owner, inv.conflict q.vmName (lower mymac) = some owner) → Confirmed q.answer →
        q.vmName ∈ q.definition.nodes.keys → ∀ fuel, Covered inv.usedMacs inv.Held (drawn draw fuel)) ∧
      (inv.conflict q.vmName (lower mymac) = none → ¬ inv.HeldByOther q.vmName (lower mymac)) := by
  simp only [checkOrGenerateMac_text hq hne]
  cases inv.conflict q.vmName (lower mymac) with
  | some owner =>
    rw [unique_regenerate_iff]
    exact ⟨fun h => ⟨fun _ => h, fun hn => absurd hn (Option.some_ne_none _)⟩, fun h => h.1 ⟨owner, rfl⟩⟩
  | none =>
    dsimp only
    rw [unique_keeps_iff]
    exact ⟨fun h => ⟨fun ⟨_, ho⟩ => absurd ho.symm (Option.some_ne_none _), fun _ => h 0⟩,
      fun h _ => h.2 rfl⟩

/-- **A call ends with an address of its own** exactly when the candidates and the request are clear. -/
theorem unique_iff :
    (∀ fuel, Unique inv q (checkOrGenerateMac sha256 draw inv q fuel)) ↔ Clear sha256 draw inv q := by
  by_cases he : isEmpty q.mymac = true
  · have htext : ∀ mymac, q.mymac = .text mymac → ¬ mymac ≠ [] := fun mymac ht hne => by
      rw [ht] at he
      exact hne (of_decide_eq_true he)
    rw [forall_congr' (unique_generated_iff he)]
    constructor
    · intro h
      exact ⟨fun _ => h, fun mymac ht hne => absurd hne (htext mymac ht),
        fun mymac ht hne => absurd hne (htext mymac ht)⟩
    · intro h
      exact h.generated he
  · by_cases ht : ∃ mymac, q.mymac = .text mymac
    · obtain ⟨mymac, hq⟩ := ht
      have hne : mymac ≠ [] := fun h => he (by rw [hq, h]; rfl)
      rw [unique_requested_iff hq hne]
      constructor
      · rintro ⟨hr, hk⟩
        refine ⟨fun hg => absurd hg he, fun t ht _ => ?_, fun t ht _ => ?_⟩
        · rw [← Json.text.inj (hq.symm.trans ht)]
          exact hr
        · rw [← Json.text.inj (hq.symm.trans ht)]
          exact hk
      · intro h
        exact ⟨h.regenerated mymac hq hne, h.kept mymac hq hne⟩
    · rw [not_exists] at ht
      constructor
      · intro _
        exact ⟨fun hg => absurd hg he, fun t hq => absurd hq (ht t), fun t hq => absurd hq (ht t)⟩
      · intro _ fuel
        rw [checkOrGenerateMac_other he ht]
        exact unique_of_not_returns fun r => Ending.noConfusion

/-- Domains with one interface each, whose addresses the VM does not share, leave every call clear. -/
theorem unique_of_single (hs : ∀ dom ∈ inv.domains, (inv.macs dom).length ≤ 1)
    (hv : ∀ dom ∈ inv.domains, dom ≠ q.vmName → ∀ mac ∈ inv.macs dom, mac ∉ inv.macs q.vmName) (fuel : Nat) :
    Unique inv q (checkOrGenerateMac sha256 draw inv q fuel) := by
  have hfirst : ∀ dom ∈ inv.domains, ∀ mac ∈ inv.macs dom, inv.firstMac dom = some mac := by
    intro dom hd mac hm
    rw [Inventory.firstMac_eq]
    have hl := hs dom hd
    cases hmacs : inv.macs dom with
    | nil =>
      rw [hmacs] at hm
      exact absurd hm List.not_mem_nil
    | cons a as =>
      rw [hmacs, List.length_cons] at hl
      have has : as = [] := List.length_eq_zero_iff.mp (by omega)
      rw [hmacs, has, List.mem_singleton] at hm
      rw [hm, List.head?_cons]
  have hused : ∀ mac, inv.Held mac → mac ∈ inv.usedMacs := fun mac ⟨dom, hd, hm⟩ =>
    Inventory.mem_usedMacs_iff.mpr ⟨dom, hd, hfirst dom hd mac hm⟩
  refine unique_iff.mpr ⟨fun _ fuel as c bs _ hc => Or.inl (hused c hc.held),
    fun _ _ _ _ _ _ fuel as c bs _ hc => Or.inl (hused c hc), ?_⟩ fuel
  -- the first domain with the address is another domain, or the VM has it too
  rintro mymac - - hnone ⟨dom, hd, hne, hm⟩
  have hmem := hused (lower mymac) ⟨dom, hd, hm⟩
  cases ho : inv.owner (lower mymac) with
  | none => exact Inventory.not_mem_usedMacs_of_owner ho hmem
  | some o =>
    obtain ⟨hod, hof⟩ := Inventory.firstMac_of_owner ho
    rw [Inventory.firstMac_eq] at hof
    have homem := List.mem_of_head? hof
    have hon : o ≠ [] := by
      unfold Inventory.domains at hod
      simpa using List.of_mem_filter hod
    by_cases hov : o = q.vmName
    · rw [hov] at homem
      exact hv dom hd hne _ hm homem
    · unfold Inventory.conflict at hnone
      rw [ho, Option.filter_some, if_pos (by simp [hon, hov])] at hnone
      exact Option.some_ne_none _ hnone

/-! ## An address two domains share -/

/-- Two domains with one address. -/
def shared : Inventory where
  list := "vm1\nvm2\n".toList
  domiflist _ := " vnet0 bridge br0 virtio 52:54:00:00:00:01\n".toList

/-- A call for the first of them. -/
def requested : Request where
  vmName := "vm1".toList
  mymac := .text "52:54:00:00:00:01".toList
  definition := ⟨Obj.empty⟩
  bridge := "br0".toList
  vmNetModel := "virtio".toList
  answer := []

/-- The VM listed first keeps the address without a question, though the other domain has it too. -/
theorem shared_address_kept :
    ∃ r, checkOrGenerateMac (fun _ _ => 0) (fun _ _ => 0) shared requested 0 = .returns r ∧ r.asked = false ∧
      shared.HeldByOther requested.vmName (lower r.mymac) := by
  have hlow : lower "52:54:00:00:00:01".toList = "52:54:00:00:00:01".toList := by decide
  have hc : shared.conflict requested.vmName (lower "52:54:00:00:00:01".toList) = none := by decide
  have hr : checkOrGenerateMac (fun _ _ => 0) (fun _ _ => 0) shared requested 0 =
      requested.keeps "52:54:00:00:00:01".toList := by
    rw [checkOrGenerateMac_text rfl (by decide), hc]
  refine ⟨_, hr, rfl, "vm2".toList, by decide, by decide, ?_⟩
  rw [hlow]
  decide

end Call

end LabInABox.Backend.Mac
