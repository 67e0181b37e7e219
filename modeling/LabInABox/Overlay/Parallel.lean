import LabInABox.Overlay.Registry

/-!
# Registering on the hub from several workers

Model of what `setup_lab.py --parallel` does to the registries: `phase_create_vms` provisions the
nodes in a thread pool, and each worker runs the registrations of `libs/overlay.py` for its node.
Every remote command is one step, and the steps of the workers interleave in any order.

* A registration is three commands: `touch`, `cat`, and the write of what it made of the text it
  read. `Registration.commit` is that write: the whole file for the upserts, a line at the end for
  an allocation. Nothing holds a lock between the read and the write.
* `Parallel.done` lists the registrations that were written; a worker whose allocation fails stops, as
  `die` ends it.

Results:
* `commit_call`: a write over the text that was read is the call on its own.
* `Kept`, `kept_step`: as long as every write finds the text its worker read, the registries hold the
  registrations that were written and no two sites have one address.
* `parallel_keeps_registrations` concludes it of every state reached; `parallel_loses_node` is the
  interleaving of two registrations that loses one.
-/

namespace LabInABox.Overlay

open Text Ipv4

/-! ## Registrations and their commands -/

/-- What a worker registers. -/
inductive Registration
  | site (siteName siteCidr : Text)
  | overlayIp (name overlayCidr : Text)
  | node (siteName nodeHost gatewayLanIp : Text)
  | dnsServer (siteName dnsIp mydomain : Text)
  deriving DecidableEq

namespace Registration

/-- The file it is about. -/
def file : Registration → File
  | site _ _ => .sites
  | overlayIp _ _ => .allocations
  | node _ _ _ => .nodes
  | dnsServer _ _ _ => .dns

/-- The same registration as a call on its own. -/
def call : Registration → Call
  | site s c => .registerSite s c
  | overlayIp s c => .allocateOverlayIp s c
  | node s h g => .registerNode s h g
  | dnsServer s ip d => .registerDnsServer s ip d

/-- The file after the write, from the text the worker read and the text that is there now: `cat >`
replaces the file, `>>` extends it. `none` is a failed allocation. -/
def commit (snapshot current : Text) : Registration → Option Text
  | site s c => some (registerSite s c snapshot)
  | overlayIp s c => (allocateOverlayIp s c snapshot).map fun r =>
    if r.2 = true then current ++ allocationLine s r.1 else current
  | node s h g => some (registerNode s h g snapshot)
  | dnsServer s ip d => some (registerDnsServer s ip d snapshot)

/-- The key of a registration is in its registry. -/
def Present (hub : Hub) : Registration → Prop
  | site s _ => s ∈ (listOtherSites hub none).map (·.1)
  | overlayIp s _ => s ∈ (pairRows (hub .allocations)).map (·.1)
  | node _ h _ => h ∈ (listNodes hub none).map (·.2.1)
  | dnsServer s _ _ => s ∈ (listDnsServers hub none []).map (·.1)

/-- The key of a registration is in its map. -/
def Mapped (m : Maps) : Registration → Prop
  | site s _ => m.sites s ≠ none
  | overlayIp s _ => m.allocations s ≠ none
  | node _ h _ => m.nodes h ≠ none
  | dnsServer s _ _ => m.dns s ≠ none

end Registration

/-- Where a worker is in its current registration. -/
inductive Phase
  | touch
  | read
  | write (snapshot : Text)

/-- A worker: what it still has to register, and where it is. -/
structure Worker where
  todo : List Registration
  phase : Phase

/-- The hub, the workers, and the registrations written so far. -/
structure Parallel (ι : Type) where
  hub : Hub
  workers : ι → Worker
  done : List Registration

/-- The workers before their first command. -/
def Parallel.start {ι : Type} (hub : Hub) (todo : ι → List Registration) : Parallel ι :=
  ⟨hub, fun i => ⟨todo i, .touch⟩, []⟩

section Steps

variable {ι : Type} [DecidableEq ι]

/-- One worker's next command. -/
def Parallel.step (p : Parallel ι) (i : ι) : Parallel ι :=
  match (p.workers i).todo, (p.workers i).phase with
  | [], _ => p
  | r :: rs, .touch => { p with workers := Function.update p.workers i ⟨r :: rs, .read⟩ }
  | r :: rs, .read =>
    { p with workers := Function.update p.workers i ⟨r :: rs, .write (p.hub r.file)⟩ }
  | r :: rs, .write snapshot =>
    match r.commit snapshot (p.hub r.file) with
    | none => { p with workers := Function.update p.workers i ⟨[], .touch⟩ }
    | some text =>
      { hub := Function.update p.hub r.file text
        workers := Function.update p.workers i ⟨rs, .touch⟩
        done := r :: p.done }

/-- The registration a worker is about to write, and the text it read for it. -/
def Parallel.pending (p : Parallel ι) (i : ι) : Option (Registration × Text) :=
  match (p.workers i).todo, (p.workers i).phase with
  | r :: _, .write snapshot => some (r, snapshot)
  | _, _ => none

/-- What a step has to meet: a write finds the text its worker read, and registers single words. -/
def Parallel.StepOk (p : Parallel ι) (i : ι) : Prop :=
  ∀ w ∈ p.pending i, p.hub w.1.file = w.2 ∧ CallOk p.hub w.1.call

instance (p : Parallel ι) (i : ι) : Decidable (p.StepOk i) :=
  inferInstanceAs (Decidable (∀ w ∈ p.pending i, _))

/-- What a run should end with: every registration written is in its registry, and no two sites hold
one overlay address. -/
def Parallel.KeepsRegistrations (p : Parallel ι) : Prop :=
  (∀ r ∈ p.done, r.Present p.hub) ∧
    ∀ s₁ s₂ ip, (s₁, ip) ∈ pairRows (p.hub .allocations) →
      (s₂, ip) ∈ pairRows (p.hub .allocations) → s₁ = s₂

end Steps

/-! ## One write -/

/-- **A write over the text that was read** is the call on its own. -/
theorem commit_call {r : Registration} {hub : Hub} {text : Text}
    (h : r.commit (hub r.file) (hub r.file) = some text) :
    Function.update hub r.file text = r.call.run hub := by
  cases r with
  | site s c =>
    obtain rfl := Option.some.inj h
    rfl
  | node s n g =>
    obtain rfl := Option.some.inj h
    rfl
  | dnsServer s ip d =>
    obtain rfl := Option.some.inj h
    rfl
  | overlayIp s c =>
    simp only [Registration.commit, Registration.file] at h
    obtain ⟨⟨ip, isNew⟩, ha, rfl⟩ := Option.map_eq_some_iff.mp h
    simp only [Registration.call, Call.run, Registration.file, ha]
    cases isNew with
    | true => rfl
    | false => exact Function.update_eq_self _ _

/-- No two sites have one address. -/
def AddressesDistinct (m : Maps) : Prop :=
  ∀ s₁ s₂ ip, m.allocations s₁ = some ip → m.allocations s₂ = some ip → s₁ = s₂

/-- An address that is handed out anew is nobody's. -/
theorem allocateOverlayIp_fresh {name cidr text ip : Text}
    (h : allocateOverlayIp name cidr text = some (ip, true)) : ∀ p ∈ pairRows text, p.2 ≠ ip := by
  simp only [allocateOverlayIp, Option.bind_eq_bind, Option.bind_eq_some_iff] at h
  obtain ⟨net, _, hubIp, _, used, hused, h⟩ := h
  split at h
  · exact absurd (Prod.mk.inj (Option.some.inj h)).2 (by simp)
  · obtain ⟨a, ha, h⟩ := Option.bind_eq_some_iff.mp h
    obtain ⟨rfl, -⟩ := Prod.mk.inj (Option.some.inj h)
    rintro ⟨s, ip⟩ hp rfl
    -- the text of a registered address parses to an address that was skipped
    have hlt := Network.lt_space_of_mem_hosts (List.mem_of_find?_eq_some ha)
    have hskip := List.find?_some ha
    obtain ⟨b, hmem, hb⟩ := exists_of_mapM_eq_some hused _ hp
    rw [parse_render hlt] at hb
    obtain rfl := Option.some.inj hb
    simp [hmem] at hskip

/-- An address that is handed out again is the one in the file. -/
theorem allocateOverlayIp_known {name cidr text ip : Text}
    (h : allocateOverlayIp name cidr text = some (ip, false)) :
    dictGet (pairRows text) name = some ip := by
  simp only [allocateOverlayIp, Option.bind_eq_bind, Option.bind_eq_some_iff] at h
  obtain ⟨net, _, hubIp, _, used, hused, h⟩ := h
  split at h
  · rename_i ip' hip
    rw [hip, (Prod.mk.inj (Option.some.inj h)).1]
  · obtain ⟨a, _, h⟩ := Option.bind_eq_some_iff.mp h
    exact absurd (Prod.mk.inj (Option.some.inj h)).2 (by simp)

/-- One call keeps the addresses distinct, when the files hold the maps. -/
theorem addressesDistinct_step {st : Hub × Maps} (h : Good st) (hd : AddressesDistinct st.2) (c : Call) :
    AddressesDistinct (step st c).2 := by
  cases c with
  | registerSite s c => exact hd
  | registerNode s n g => exact hd
  | forgetNode n => exact hd
  | registerDnsServer s ip d => exact hd
  | retireSite s =>
    intro s₁ s₂ ip h₁ h₂
    have hclear : ∀ x, (step st (.retireSite s)).2.allocations x = some ip →
        st.2.allocations x = some ip := fun x hx => by
      change Function.update st.2.allocations s none x = some ip at hx
      by_cases hxs : x = s
      · rw [hxs, Function.update_self] at hx
        exact absurd hx (by simp)
      · rwa [Function.update_of_ne hxs] at hx
    exact hd s₁ s₂ ip (hclear _ h₁) (hclear _ h₂)
  | allocateOverlayIp s cidr =>
    have hrep := h.allocations.pairRows
    simp only [step, Call.returned, Maps.apply]
    cases ha : allocateOverlayIp s cidr (st.1 .allocations) with
    | none => exact hd
    | some r =>
      obtain ⟨ip, isNew⟩ := r
      have hother : ∀ x, x ≠ s → st.2.allocations x ≠ some ip := by
        intro x hxs hx
        cases isNew with
        | true => exact allocateOverlayIp_fresh ha _ ((hrep.mem_iff x ip).mpr hx) rfl
        | false => exact hxs (hd x s ip hx (hrep.dictGet_eq s ▸ allocateOverlayIp_known ha))
      intro s₁ s₂ ip' h₁ h₂
      simp only [Option.map_some] at h₁ h₂
      by_cases e₁ : s₁ = s
      · by_cases e₂ : s₂ = s
        · rw [e₁, e₂]
        · rw [e₁, Function.update_self] at h₁
          rw [Function.update_of_ne e₂, ← h₁] at h₂
          exact absurd h₂ (hother s₂ e₂)
      · rw [Function.update_of_ne e₁] at h₁
        by_cases e₂ : s₂ = s
        · rw [e₂, Function.update_self] at h₂
          rw [← h₂] at h₁
          exact absurd h₁ (hother s₁ e₁)
        · rw [Function.update_of_ne e₂] at h₂
          exact hd s₁ s₂ ip' h₁ h₂

theorem update_some_ne_none {β : Type} {m : Text → Option β} {j k : Text} {v : β}
    (h : k = j ∨ m k ≠ none) : Function.update m j (some v) k ≠ none := by
  by_cases hk : k = j
  · rw [hk, Function.update_self]
    exact Option.some_ne_none v
  · rw [Function.update_of_ne hk]
    exact h.resolve_left hk

/-- A registration clears no key. -/
theorem mapped_mono {st : Hub × Maps} (r : Registration) {q : Registration} (hq : q.Mapped st.2) :
    q.Mapped (step st r.call).2 := by
  cases r with
  | site s c =>
    cases q with
    | site s' c' => exact update_some_ne_none (Or.inr hq)
    | overlayIp | node | dnsServer => exact hq
  | node s n g =>
    cases q with
    | node s' n' g' => exact update_some_ne_none (Or.inr hq)
    | overlayIp | site | dnsServer => exact hq
  | dnsServer s ip d =>
    cases q with
    | dnsServer s' ip' d' => exact update_some_ne_none (Or.inr hq)
    | overlayIp | site | node => exact hq
  | overlayIp s c =>
    simp only [step, Registration.call, Maps.apply]
    split
    · cases q with
      | overlayIp s' c' => exact update_some_ne_none (Or.inr hq)
      | site | node | dnsServer => exact hq
    · exact hq

/-- A registration that is written sets its own key. -/
theorem mapped_self {st : Hub × Maps} {r : Registration} {text : Text}
    (h : r.commit (st.1 r.file) (st.1 r.file) = some text) : r.Mapped (step st r.call).2 := by
  cases r with
  | site s c => exact update_some_ne_none (Or.inl rfl)
  | node s n g => exact update_some_ne_none (Or.inl rfl)
  | dnsServer s ip d => exact update_some_ne_none (Or.inl rfl)
  | overlayIp s c =>
    obtain ⟨r, ha, _⟩ := Option.map_eq_some_iff.mp h
    simp only [Registration.file] at ha
    simp only [step, Registration.call, Maps.apply, Call.returned, ha, Option.map_some]
    exact update_some_ne_none (Or.inl rfl)

theorem mem_keys_of_ne_none {β : Type} {es : List (Text × β)} {m : Text → Option β}
    (h : Represents es m) {k : Text} (hk : m k ≠ none) : k ∈ es.map Prod.fst := by
  by_contra hno
  exact hk (h.not_mem_keys.mp hno)

/-- A key of a map is in its registry. -/
theorem present_of_mapped {hub : Hub} {m : Maps} (h : Listed hub m) {r : Registration}
    (hr : r.Mapped m) : r.Present hub := by
  cases r with
  | site s c => exact mem_keys_of_ne_none (h.sites none) (by cases hs : m.sites s <;> simp_all [Registration.Mapped])
  | overlayIp s c => exact mem_keys_of_ne_none h.allocations hr
  | node s n g =>
    have := mem_keys_of_ne_none (h.nodes none) (k := n)
      (by cases hs : m.nodes n <;> simp_all [Registration.Mapped])
    rwa [List.map_map] at this
  | dnsServer s ip d =>
    exact mem_keys_of_ne_none (h.dns none [])
      (by cases hs : m.dns s <;> simp_all [Registration.Mapped])

/-! ## Runs -/

section Runs

variable {ι : Type} {p : Parallel ι}

/-- The invariant: the files hold maps that have every registration written, and no address twice. -/
def Kept (p : Parallel ι) : Prop :=
  ∃ m, Good (p.hub, m) ∧ AddressesDistinct m ∧ ∀ r ∈ p.done, r.Mapped m

/-- **One command** keeps it, when a write finds the text its worker read. -/
theorem kept_step [DecidableEq ι] (h : Kept p) {i : ι} (hok : p.StepOk i) : Kept (p.step i) := by
  obtain ⟨m, hg, hd, hm⟩ := h
  unfold Parallel.step
  split
  · exact ⟨m, hg, hd, hm⟩
  · exact ⟨m, hg, hd, hm⟩
  · exact ⟨m, hg, hd, hm⟩
  · rename_i r rs snapshot htodo hphase
    obtain ⟨hread, hcall⟩ := hok (r, snapshot) (by simp [Parallel.pending, htodo, hphase])
    simp only at hread hcall
    subst hread
    split
    · exact ⟨m, hg, hd, hm⟩
    · -- the write is the call on its own
      rename_i text hc
      refine ⟨(step (p.hub, m) r.call).2, ?_, addressesDistinct_step hg hd _, ?_⟩
      · have := good_step hg hcall
        simp only [step, ← commit_call hc] at this
        exact this
      · rintro q (_ | ⟨_, hq⟩)
        · exact mapped_self hc
        · exact mapped_mono r (hm q hq)

theorem keepsRegistrations_of_kept (h : Kept p) : p.KeepsRegistrations := by
  obtain ⟨m, hg, hd, hm⟩ := h
  refine ⟨fun r hr => present_of_mapped hg.listed (hm r hr), fun s₁ s₂ ip h₁ h₂ => ?_⟩
  have hrep := hg.allocations.pairRows
  exact hd s₁ s₂ ip ((hrep.mem_iff _ _).mp h₁) ((hrep.mem_iff _ _).mp h₂)

theorem addressesDistinct_of_reachable {st : Hub × Maps} (h : Reachable st) :
    Good st ∧ AddressesDistinct st.2 :=
  h.invariant (I := fun st => Good st ∧ AddressesDistinct st.2)
    ⟨good_initial, fun _ _ _ h₁ _ => absurd h₁ (by simp [initial, Maps.empty])⟩
    fun _ c hi hok => ⟨good_step hi.1 hok, addressesDistinct_step hi.1 hi.2 c⟩

/-- **No registration is lost** in any state the workers reach, from any registries the hub had
before, as long as every write finds the text its worker read. -/
theorem parallel_keeps_registrations [DecidableEq ι] (before : Hub × Maps) (hbefore : Reachable before)
    (todo : ι → List Registration) (p : Parallel ι)
    (h : Reached Parallel.StepOk Parallel.step (Parallel.start before.1 todo) p) :
    p.KeepsRegistrations := by
  refine keepsRegistrations_of_kept (h.invariant ?_ fun _ _ hk hok => kept_step hk hok)
  obtain ⟨hg, hd⟩ := addressesDistinct_of_reachable hbefore
  exact ⟨before.2, hg, hd, nofun⟩

end Runs

/-- Two workers, each with one node of the home site. -/
def twoNodes : Bool → List Registration
  | false => [.node "home".toList "n1".toList "10.0.0.2".toList]
  | true => [.node "home".toList "n2".toList "10.0.0.2".toList]

/-- One worker after the other. -/
theorem parallel_keeps_registrations_in_turn :
    ([false, false, false, true, true, true].foldl Parallel.step
      (Parallel.start (fun _ => []) twoNodes)).KeepsRegistrations :=
  parallel_keeps_registrations initial .start twoNodes _
    (Reached.run .start (by decide : Meets Parallel.StepOk Parallel.step
      (Parallel.start (fun _ => []) twoNodes) [false, false, false, true, true, true]))

/-- **Two workers that both read before either writes lose a node**: the second write puts back the
file without the first. -/
theorem parallel_loses_node :
    ¬ ([false, false, true, true, false, true].foldl Parallel.step
      (Parallel.start (fun _ => []) twoNodes)).KeepsRegistrations := by
  rintro ⟨h, -⟩
  have : "n1".toList ∈ _ := h (.node "home".toList "n1".toList "10.0.0.2".toList) (by decide)
  exact absurd this (by decide)

end LabInABox.Overlay
