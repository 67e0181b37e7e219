import Mathlib.Logic.Function.Basic
import LabInABox.Ipalloc.Phase
import LabInABox.Run

/-!
# The addresses of labs created at the same time

Model of runs of `setup_lab.py` that share a network and a domain: each gives its nodes their addresses
(`phase_allocate_ips`), then creates the machine of each node and registers it in the lab's DNS
(`provision_vm` of `scripts/setup_vm.py`).

* A step is one turn of the allocation, the creation of one machine, or the registration of one. The
  machines of a run are created in any order, as with `parallel`, and a creation that fails is one that
  is not made.
* `site` is what a turn asks: an address answers a ping, and is reported in use, when a machine that was
  created has it. The zone is the file the registrations have written so far.
* A node whose address its provider assigns is none of those allocated to, so it is not created here.

Results:
* `step_cases`: what a step may change of the addresses that were given.
* `apart_of_clear`: no address is given twice in a run where an address is only looked for while every
  address given to another lab is that of a machine that stands, or in the zone.
-/

namespace LabInABox.Ipalloc.Labs

open Text Ipv4

/-! ## The runs -/

/-- How far a run is. -/
inductive Progress
  | allocating (pending : List Text)
  | creating
  | ended

/-- A run: the lab's file, the definition in memory, and how far it is. -/
structure Run where
  file : Definition
  definition : Definition
  progress : Progress

/-- The zone files, the machines created so far with their addresses, and the runs. -/
structure World (ι : Type) where
  zones : Text → Option Text
  created : List (Text × Text)
  runs : ι → Run

/-- A step of a run. -/
inductive Action
  | allocate
  | create (vmName : Text)
  | register (vmName : Text)
  deriving DecidableEq

/-- What the runs ask of the automation node besides, and whether a node's backend allocates. -/
structure Node where
  host : Host
  allocates : Text → Bool

namespace Run

/-- The node whose turn it is. -/
def turn (r : Run) : Option Text :=
  match r.progress with
  | .allocating pending => pending.head?
  | .creating | .ended => none

/-- The addresses the allocation has given so far, with their nodes. -/
def given (r : Run) : List (Text × Text) :=
  ((missing r.file).map fun vmName => (vmName, r.definition.myip vmName)).filter (·.2 ≠ [])

theorem mem_given {r : Run} {g : Text × Text} :
    g ∈ r.given ↔ g.1 ∈ missing r.file ∧ r.definition.myip g.1 = g.2 ∧ g.2 ≠ [] := by
  unfold given
  rw [List.mem_filter, List.mem_map, decide_eq_true_eq]
  constructor
  · rintro ⟨⟨vmName, hm, rfl⟩, hne⟩
    exact ⟨hm, rfl, hne⟩
  · rintro ⟨hm, hip, hne⟩
    exact ⟨⟨g.1, hm, by rw [hip]⟩, hne⟩

end Run

section Step

variable {ι : Type} [DecidableEq ι] (o : Node)

/-- What a turn asks, of the world as it stands. -/
def site (w : World ι) : Site where
  host := { o.host with zone := w.zones }
  allocates := o.allocates
  reports _ := w.created
  ping _ ip := decide (ip ∈ w.created.map Prod.snd)

/-- One step of a run; an action that is not the run's next changes nothing. -/
def step (w : World ι) (a : ι × Action) : World ι :=
  let run := w.runs a.1
  match a.2, run.progress with
  | .allocate, .allocating [] =>
    { w with runs := Function.update w.runs a.1 { run with progress := .creating } }
  | .allocate, .allocating (vmName :: pending) =>
    match allocateNode (site o w) run.definition vmName with
    | .ok d =>
      { w with runs := Function.update w.runs a.1 ⟨run.file, d, .allocating pending⟩ }
    | .error _ => { w with runs := Function.update w.runs a.1 { run with progress := .ended } }
  | .create vmName, .creating =>
    if run.definition.myip vmName = [] then w
    else { w with created := w.created ++ [(vmName, run.definition.myip vmName)] }
  | .register vmName, .creating =>
    if (vmName, run.definition.myip vmName) ∈ w.created then
      let mydomain := run.definition.common.mydomain
      { w with
        zones := Function.update w.zones mydomain (some (Dns.addToDns vmName
          (run.definition.myip vmName) (!o.allocates vmName) ((w.zones mydomain).getD []))) }
    else w
  | _, _ => w

/-- Runs that begin, over zones and machines that are there. -/
def start (zones : Text → Option Text) (created : List (Text × Text)) (labs : ι → Definition) :
    World ι where
  zones := zones
  created := created
  runs i := ⟨labs i, labs i, .allocating (missing (labs i))⟩

omit [DecidableEq ι] in
/-- **No address is given to nodes of two labs.** -/
def Apart (w : World ι) : Prop :=
  ∀ i j, i ≠ j → ∀ g ∈ (w.runs i).given, ∀ g' ∈ (w.runs j).given, g.2 ≠ g'.2

/-- A turn is clear of the other labs: each address given to one is that of a machine that stands or in
the zone, which is the ledger, and it is not the address of the name of the node whose turn it is. -/
def Clear (w : World ι) (a : ι × Action) : Prop :=
  a.2 = .allocate → ∀ vmName ∈ (w.runs a.1).turn, o.allocates vmName = true →
    ∀ j, j ≠ a.1 → ∀ g ∈ (w.runs j).given,
      (g ∈ w.created ∨ g.2 ∈ dnsIps (site o w).host (w.runs a.1).definition.common.mydomain) ∧
        dnsAddress (site o w).host vmName (w.runs a.1).definition.common.mydomain ≠ g.2

end Step

/-! ## What a step changes -/

section Invariant

variable {ι : Type} [DecidableEq ι] {o : Node} {w : World ι} {a : ι × Action}

/-- **What a step may change**: one turn of the allocation gives an address, and no other step touches
a definition. -/
theorem step_cases (w : World ι) (a : ι × Action) :
    (∃ vmName pending d, a.2 = .allocate ∧ (w.runs a.1).progress = .allocating (vmName :: pending) ∧
      allocateNode (site o w) (w.runs a.1).definition vmName = .ok d ∧
      (step o w a).runs =
        Function.update w.runs a.1 ⟨(w.runs a.1).file, d, .allocating pending⟩) ∨
    ∀ j, ((step o w a).runs j).file = (w.runs j).file ∧
      ((step o w a).runs j).definition = (w.runs j).definition ∧
      ∀ pending, ((step o w a).runs j).progress = .allocating pending →
        (w.runs j).progress = .allocating pending := by
  have hupdate : ∀ {p : Progress}, (∀ pending, p ≠ .allocating pending) → ∀ j,
      (Function.update w.runs a.1 { w.runs a.1 with progress := p } j).file = (w.runs j).file ∧
      (Function.update w.runs a.1 { w.runs a.1 with progress := p } j).definition =
        (w.runs j).definition ∧
      ∀ pending, (Function.update w.runs a.1 { w.runs a.1 with progress := p } j).progress =
        .allocating pending → (w.runs j).progress = .allocating pending := fun hp j => by
    by_cases hj : j = a.1
    · subst hj
      rw [Function.update_self]
      exact ⟨rfl, rfl, fun pending h => absurd h (hp pending)⟩
    · rw [Function.update_of_ne hj]
      exact ⟨rfl, rfl, fun _ => id⟩
  have hsame : ∀ j, (w.runs j).file = (w.runs j).file ∧
      (w.runs j).definition = (w.runs j).definition ∧
      ∀ pending, (w.runs j).progress = .allocating pending →
        (w.runs j).progress = .allocating pending := fun _ => ⟨rfl, rfl, fun _ => id⟩
  obtain ⟨i, act⟩ := a
  unfold step
  dsimp only at hupdate ⊢
  cases act with
  | allocate =>
    cases hp : (w.runs i).progress with
    | allocating pending =>
      cases pending with
      | nil => exact Or.inr (hupdate fun _ h => by cases h)
      | cons vmName pending =>
        dsimp only
        cases hd : allocateNode (site o w) (w.runs i).definition vmName with
        | ok d => exact Or.inl ⟨vmName, pending, d, rfl, rfl, hd, rfl⟩
        | error e => exact Or.inr (hupdate fun _ h => by cases h)
    | creating => exact Or.inr hsame
    | ended => exact Or.inr hsame
  | create vmName =>
    cases hp : (w.runs i).progress with
    | allocating pending => exact Or.inr hsame
    | creating =>
      dsimp only
      split
      · exact Or.inr hsame
      · exact Or.inr hsame
    | ended => exact Or.inr hsame
  | register vmName =>
    cases hp : (w.runs i).progress with
    | allocating pending => exact Or.inr hsame
    | creating =>
      dsimp only
      split
      · exact Or.inr hsame
      · exact Or.inr hsame
    | ended => exact Or.inr hsame

/-- **The invariant**: the nodes still to come have no address, and no address was given twice. -/
structure Inv (w : World ι) : Prop where
  waiting : ∀ i pending, (w.runs i).progress = .allocating pending →
    Waiting (w.runs i).definition pending
  apart : Apart w

omit [DecidableEq ι] in
theorem inv_start (zones : Text → Option Text) (created : List (Text × Text))
    (labs : ι → Definition) : Inv (start zones created labs) where
  waiting i pending h := by
    obtain rfl := Progress.allocating.inj h
    exact waiting_missing (labs i)
  apart i j _ g hg _ _ _ := by
    obtain ⟨hm, hip, hne⟩ := Run.mem_given.mp hg
    exact hne (hip.symm.trans (mem_missing hm).2)

/-- What is given after a turn: what was, and the address of the turn. -/
theorem mem_given_setMyip {r : Run} {vmName ip : Text} {p : Progress} {g : Text × Text}
    (hkey : vmName ∈ r.definition.nodes.map Prod.fst) (hip : strip ip = ip)
    (h : g ∈ (Run.mk r.file (r.definition.setMyip vmName ip) p).given) : g ∈ r.given ∨ g.2 = ip := by
  obtain ⟨hm, hg, hne⟩ := Run.mem_given.mp h
  dsimp only at hm hg
  rw [myip_setMyip hkey] at hg
  by_cases hn : g.1 = vmName
  · rw [if_pos hn, hip] at hg
    exact Or.inr hg.symm
  · rw [if_neg hn] at hg
    exact Or.inl (Run.mem_given.mpr ⟨hm, hg, hne⟩)

omit [DecidableEq ι] in
/-- **A clear turn** gives an address that no other lab has. -/
theorem turn_spec (h : Inv w) (hclear : Clear o w a) {vmName : Text} {pending : List Text}
    {d : Definition} (ha : a.2 = .allocate)
    (hp : (w.runs a.1).progress = .allocating (vmName :: pending))
    (hd : allocateNode (site o w) (w.runs a.1).definition vmName = .ok d) :
    Waiting d pending ∧ ∀ g ∈ (Run.mk (w.runs a.1).file d (.allocating pending)).given,
      g ∈ (w.runs a.1).given ∨ ∀ j, j ≠ a.1 → ∀ g' ∈ (w.runs j).given, g.2 ≠ g'.2 := by
  have hwait := h.waiting a.1 _ hp
  obtain ⟨hkey, hown⟩ := hwait.2 vmName List.mem_cons_self
  cases halloc : o.allocates vmName with
  | false =>
    obtain rfl := allocateNode_of_not hd halloc
    exact ⟨hwait.tail, fun g hg => Or.inl hg⟩
  | true =>
    obtain ⟨ip, rfl, ⟨b, rfl⟩, hfree⟩ := allocateNode_unreported hd halloc hown
    refine ⟨hwait.setMyip, fun g hg => ?_⟩
    rcases mem_given_setMyip hkey (strip_of_isField (isField_render b)) hg with hg | hg
    · exact Or.inl hg
    refine Or.inr fun j hj g' hg' he => ?_
    have hturn : vmName ∈ (w.runs a.1).turn := by
      unfold Run.turn
      rw [hp]
      rfl
    obtain ⟨hledger, hname⟩ := hclear ha vmName hturn halloc j hj g' hg'
    have hip : g'.2 = render b := he.symm.trans hg
    rcases hfree with hreg | ⟨hused, hdns⟩
    · exact hname (hreg.symm.trans hip.symm)
    · rcases hledger with hcreated | hzone
      · exact hused g' hcreated hip
      · exact hdns (hip ▸ hzone)

/-- **A clear step keeps the invariant.** -/
theorem Inv.step (h : Inv w) (hclear : Clear o w a) : Inv (step o w a) := by
  rcases step_cases (o := o) w a with ⟨vmName, pending, d, ha, hp, hd, hruns⟩ | hsame
  · obtain ⟨hwait, hgiven⟩ := turn_spec h hclear ha hp hd
    have hnew : ∀ j, j ≠ a.1 → ∀ g ∈ (Run.mk (w.runs a.1).file d (.allocating pending)).given,
        ∀ g' ∈ (w.runs j).given, g.2 ≠ g'.2 := fun j hj g hg g' hg' =>
      (hgiven g hg).elim (fun hold => h.apart a.1 j (Ne.symm hj) g hold g' hg')
        fun hnone => hnone j hj g' hg'
    refine ⟨fun i rest hrest => ?_, fun i j hij g hg g' hg' => ?_⟩
    · rw [hruns] at hrest ⊢
      by_cases hi : i = a.1
      · subst hi
        rw [Function.update_self] at hrest ⊢
        obtain rfl := Progress.allocating.inj hrest
        exact hwait
      · rw [Function.update_of_ne hi] at hrest ⊢
        exact h.waiting i rest hrest
    · rw [hruns] at hg hg'
      by_cases hi : i = a.1
      · subst hi
        rw [Function.update_self] at hg
        rw [Function.update_of_ne (Ne.symm hij)] at hg'
        exact hnew j (Ne.symm hij) g hg g' hg'
      · rw [Function.update_of_ne hi] at hg
        by_cases hj : j = a.1
        · subst hj
          rw [Function.update_self] at hg'
          exact Ne.symm (hnew i hi g' hg' g hg)
        · rw [Function.update_of_ne hj] at hg'
          exact h.apart i j hij g hg g' hg'
  · refine ⟨fun i pending hp => ?_, fun i j hij g hg g' hg' => ?_⟩
    · rw [(hsame i).2.1]
      exact h.waiting i pending ((hsame i).2.2 pending hp)
    · unfold Run.given at hg hg'
      rw [(hsame i).1, (hsame i).2.1] at hg
      rw [(hsame j).1, (hsame j).2.1] at hg'
      exact h.apart i j hij g hg g' hg'

/-- **Addresses of different labs never collide** in a run where each is looked for while the addresses
given to other labs are all in use or in the ledger, and none stands for the node's own name. -/
theorem apart_of_clear {zones : Text → Option Text} {created : List (Text × Text)}
    {labs : ι → Definition} (h : Reached (Clear o) (step o) (start zones created labs) w) : Apart w :=
  (h.invariant (inv_start zones created labs) fun _ _ hi hc => hi.step hc).apart

end Invariant

/-! ## Two labs of one node each -/

/-- A lab of one node without an address. -/
def oneNode (vmName : Text) : Definition where
  common := ⟨"10.0.0.1".toList, "28".toList, "10.0.0.1".toList, "lab".toList⟩
  nodes := [(vmName, some [])]
  nodup := List.nodup_singleton _

/-- An automation node with the digests of the two names. -/
def automation : Node where
  host :=
    { zone := fun _ => none
      resolve := fun _ => none
      localIps := ["10.0.0.2".toList]
      digest := fun t =>
        if t = "rancher.lab@10.0.0.0/28".toList then 4665142388345970579
        else if t = "k3s1.lab@10.0.0.0/28".toList then 8337044631179861393 else 0
      isIpv6 := fun _ => false
      isWord := fun c => c.isAlphanum || c = '_' }
  allocates := fun _ => true

/-- Two labs: the names of their nodes start the search at the same address. -/
def twoLabs (second : Bool) : Definition :=
  oneNode (if second then "k3s1.lab".toList else "rancher.lab".toList)

/-- The world after some steps of the two runs, over an empty zone. -/
def after (steps : List (Bool × Action)) : World Bool :=
  steps.foldl (step automation) (start (fun _ => some []) [] twoLabs)

/-- The first lab, up to the registration of its node, and then the second. -/
def inTurn : List (Bool × Action) :=
  [(false, .allocate), (false, .allocate), (false, .create "rancher.lab".toList),
    (false, .register "rancher.lab".toList), (true, .allocate)]

instance decidableClear (w : World Bool) (a : Bool × Action) : Decidable (Clear automation w a) :=
  inferInstanceAs (Decidable (_ → ∀ vmName ∈ (w.runs a.1).turn, _ → ∀ _, _ → ∀ g ∈ _, _ ∧ _))

/-- One lab after the other. -/
theorem apart_of_clear_in_turn :
    Apart (after inTurn) ∧ (after inTurn).created = [("rancher.lab".toList, "10.0.0.14".toList)] ∧
      ((after inTurn).runs true).given = [("k3s1.lab".toList, "10.0.0.3".toList)] :=
  ⟨apart_of_clear (Reached.start.run (by decide)), by decide, by decide⟩

/-- **Two labs get one address**: the second looks for its own before the first has created the machine
of the address it was given. The zone has no record of that address even once the machine stands. -/
theorem not_apart :
    Reached (fun _ _ => True) (step automation) (start (fun _ => some []) [] twoLabs)
      (after [(false, .allocate), (true, .allocate)]) ∧
    ((after [(false, .allocate), (true, .allocate)]).runs false).given =
      [("rancher.lab".toList, "10.0.0.14".toList)] ∧
    ((after [(false, .allocate), (true, .allocate)]).runs true).given =
      [("k3s1.lab".toList, "10.0.0.14".toList)] ∧
    ¬ Apart (after [(false, .allocate), (true, .allocate)]) ∧
    (after (inTurn.take 3)).created = [("rancher.lab".toList, "10.0.0.14".toList)] ∧
    dnsIps (site automation (after (inTurn.take 3))).host "lab".toList = [] := by
  have h₁ : ((after [(false, .allocate), (true, .allocate)]).runs false).given =
      [("rancher.lab".toList, "10.0.0.14".toList)] := by decide
  have h₂ : ((after [(false, .allocate), (true, .allocate)]).runs true).given =
      [("k3s1.lab".toList, "10.0.0.14".toList)] := by decide
  refine ⟨Reached.start.run (by decide), h₁, h₂, fun h => ?_, by decide,
    by decide⟩
  have hapart := h false true (by decide)
  rw [h₁, h₂] at hapart
  exact hapart _ (List.mem_singleton_self _) _ (List.mem_singleton_self _) rfl

end LabInABox.Ipalloc.Labs
