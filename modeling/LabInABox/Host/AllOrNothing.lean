import LabInABox.Host.PortForward

/-!
# A call that dies

Model of how a call of `apply_forwarded_ports` (`libs/portforward.py`) ends, over the entries, rules and
chains of `PortForward`.

* The source makes, hooks and flushes both chains, then reads every entry, then adds the rules one by
  one. A malformed entry ends it after the flush, a rule `iptables` refuses after the rules ahead of it.
* A port is written with one to five digits, so `0` and `65536` to `99999` are read like any other: it is
  `iptables` that refuses them.
* What address a target is, as `iptables` reads it, is a parameter, as what it accepts is.

Results:
* `applyOrDie_fst`: the chains are those of `applyForwardedPorts`.
* `serves_of_applied`: a call that ends well on a map without a port given twice forwards every port to
  its target, and lets through what is forwarded and nothing else.
* `allOrNothing_iff`: a call is all or nothing exactly when both chains already hold what it dies with.
-/

namespace LabInABox.Host.PortForward

open Text

/-! ## How a call ends -/

/-- How a call ends. -/
inductive Ending
  | applied
  | malformed
  | refused (r : Rule)
  deriving DecidableEq

/-- A port there is. -/
def IsPort (n : Nat) : Prop := 1 ≤ n ∧ n ≤ 65535

instance (n : Nat) : Decidable (IsPort n) := inferInstanceAs (Decidable (_ ∧ _))

/-- The ports of a rule are ports there are. -/
def Rule.InRange : Rule → Prop
  | .dnat r => IsPort r.dport ∧ IsPort r.port
  | .fwd r => IsPort r.dport

instance : DecidablePred Rule.InRange
  | .dnat r => inferInstanceAs (Decidable (IsPort r.dport ∧ IsPort r.port))
  | .fwd r => inferInstanceAs (Decidable (IsPort r.dport))

/-- The call died of an entry: of one that is malformed, or of one with a port there is not. -/
def Ending.BadEntry : Ending → Prop
  | .applied => False
  | .malformed => True
  | .refused r => ¬ r.InRange

variable (accepts : Rule → Bool)

/-- The loop over the rules, and how it ends. -/
def addRulesOrDie : List Rule → Tables → Tables × Ending
  | [], s => (s, .applied)
  | r :: rs, s => if accepts r then addRulesOrDie rs (s.add r) else (s, .refused r)

/-- `apply_forwarded_ports(port_map)`, and how it ends. -/
def applyOrDie (s : Tables) (map : PortMap) : Tables × Ending :=
  match buildDnatRules map with
  | none => (s.ensure.flush, .malformed)
  | some rules => addRulesOrDie accepts rules s.ensure.flush

/-! ## Traffic -/

/-- The ports a map declares. -/
def PortMap.forwards (map : PortMap) : List Forward := map.specs.filterMap readSpec

/-- No port is given twice for a protocol. -/
def PortMap.Distinct (map : PortMap) : Prop :=
  (map.forwards.map fun f => (f.external, f.proto)).Nodup

section Traffic

variable {α : Type} (addr : Text → α)

/-- Where a packet to an external port is sent: by the first rule for it. -/
def Tables.sentTo (s : Tables) (p : Protocol) (external : Nat) : Option (α × Nat) :=
  ((s.dnat.getD []).find? fun r => decide (r.proto = p ∧ r.dport = external)).map
    fun r => (addr r.target, r.port)

/-- A packet to an address and a port is let through. -/
def Tables.LetsThrough (s : Tables) (p : Protocol) (a : α) (port : Nat) : Prop :=
  ∃ r ∈ s.fwd.getD [], r.proto = p ∧ addr r.target = a ∧ r.dport = port

/-- The chains forward the ports of a map, and let through what they forward and nothing else. -/
structure Serves (s : Tables) (map : PortMap) : Prop where
  hooked : s.dnatHooked = true ∧ s.fwdHooked = true
  sent : ∀ p external t, s.sentTo addr p external = some t ↔
    ∃ f ∈ map.forwards, f.proto = p ∧ f.external = external ∧ (addr f.target, f.internal) = t
  through : ∀ p a port, s.LetsThrough addr p a port ↔
    ∃ f ∈ map.forwards, f.proto = p ∧ addr f.target = a ∧ f.internal = port

/-- **All or nothing**: a call that dies of an entry leaves both chains as they were, and one that ends
well on a map that gives no port twice serves it. -/
structure AllOrNothing (s : Tables) (map : PortMap) : Prop where
  nothing : (applyOrDie accepts s map).2.BadEntry →
    (applyOrDie accepts s map).1.dnat = s.dnat ∧ (applyOrDie accepts s map).1.fwd = s.fwd
  all : (applyOrDie accepts s map).2 = .applied → map.Distinct →
    Serves addr (applyOrDie accepts s map).1 map

end Traffic

/-! ## The condition -/

/-- A rule of `CHAIN_DNAT`. -/
def Rule.dnat? : Rule → Option DnatRule
  | .dnat r => some r
  | .fwd _ => none

/-- A rule of `CHAIN_FWD`. -/
def Rule.fwd? : Rule → Option FwdRule
  | .dnat _ => none
  | .fwd r => some r

/-- Both chains hold given rules, and nothing else. -/
def Tables.Hold (s : Tables) (rs : List Rule) : Prop :=
  s.dnat = some (rs.filterMap Rule.dnat?) ∧ s.fwd = some (rs.filterMap Rule.fwd?)

/-- The chains hold what the call dies with: nothing where an entry is malformed, else the rules ahead of
the first one that is refused, where that one is for a port there is not. -/
def Spared (s : Tables) (map : PortMap) : Prop :=
  match buildDnatRules map with
  | none => s.Hold []
  | some rules => ∀ r, rules.find? (fun r => !accepts r) = some r → ¬ r.InRange →
      s.Hold (rules.takeWhile accepts)

variable {accepts} {s : Tables} {map : PortMap}

/-! ## The loop over the rules -/

theorem addRulesOrDie_fst (rs : List Rule) (s : Tables) :
    (addRulesOrDie accepts rs s).1 = addRules accepts rs s := by
  induction rs generalizing s with
  | nil => rfl
  | cons r rs ih =>
    rw [addRulesOrDie, addRules]
    split
    · exact ih (s.add r)
    · rfl

/-- **The chains** are those of the call. -/
theorem applyOrDie_fst (s : Tables) (map : PortMap) :
    (applyOrDie accepts s map).1 = applyForwardedPorts accepts s map := by
  unfold applyOrDie applyForwardedPorts
  cases buildDnatRules map with
  | none => rfl
  | some rules => exact addRulesOrDie_fst rules _

/-- The loop ends at the first rule that is refused. -/
theorem addRulesOrDie_snd (rs : List Rule) (s : Tables) :
    (addRulesOrDie accepts rs s).2 =
      (rs.find? fun r => !accepts r).elim .applied .refused := by
  induction rs generalizing s with
  | nil => rfl
  | cons r rs ih =>
    rw [addRulesOrDie, List.find?_cons]
    cases accepts r with
    | true => exact ih (s.add r)
    | false => rfl

/-- It adds the rules ahead of that one. -/
theorem addRules_eq (rs : List Rule) (s : Tables) :
    addRules accepts rs s = (rs.takeWhile accepts).foldl Tables.add s := by
  induction rs generalizing s with
  | nil => rfl
  | cons r rs ih =>
    rw [addRules, List.takeWhile_cons]
    cases accepts r with
    | true => exact ih (s.add r)
    | false => rfl

/-- Each rule goes to the end of its own chain. -/
theorem foldl_add (rs : List Rule) (d : List DnatRule) (w : List FwdRule) (b b' : Bool) :
    rs.foldl Tables.add ⟨some d, b, some w, b'⟩ =
      ⟨some (d ++ rs.filterMap Rule.dnat?), b, some (w ++ rs.filterMap Rule.fwd?), b'⟩ := by
  induction rs generalizing d w with
  | nil => rw [List.filterMap_nil, List.filterMap_nil, List.append_nil, List.append_nil]; rfl
  | cons r rs ih =>
    cases r with
    | dnat r =>
      have hrec := ih (d ++ [r]) w
      rw [List.append_assoc] at hrec
      exact hrec
    | fwd r =>
      have hrec := ih d (w ++ [r])
      rw [List.append_assoc] at hrec
      exact hrec

/-- What the loop leaves in two empty chains. -/
theorem addRules_flush (rs : List Rule) (s : Tables) :
    addRules accepts rs s.ensure.flush =
      ⟨some ((rs.takeWhile accepts).filterMap Rule.dnat?), true,
        some ((rs.takeWhile accepts).filterMap Rule.fwd?), true⟩ := by
  rw [addRules_eq, flush_ensure, foldl_add, List.nil_append, List.nil_append]

/-! ## A call that ends well -/

/-- A list whose elements are all read, read one by one. -/
theorem filterMap_of_mapM_eq_some {α β : Type*} {f : α → Option β} :
    ∀ {l : List α} {bs : List β}, l.mapM f = some bs → l.filterMap f = bs
  | [], bs, h => by
    rw [List.mapM_nil] at h
    exact Option.some.inj h
  | a :: l, bs, h => by
    rw [List.mapM_cons] at h
    obtain ⟨b, hb, h⟩ := Option.bind_eq_some_iff.mp h
    obtain ⟨bs', hbs, h⟩ := Option.bind_eq_some_iff.mp h
    obtain rfl := Option.some.inj h
    rw [List.filterMap_cons_some hb, filterMap_of_mapM_eq_some hbs]

/-- A call that ends well has read every entry, and every rule was accepted. -/
theorem applyOrDie_of_applied (h : (applyOrDie accepts s map).2 = .applied) :
    (applyOrDie accepts s map).1 =
      ⟨some (map.forwards.map Forward.dnatRule), true, some (map.forwards.map Forward.fwdRule), true⟩ := by
  rw [applyOrDie_fst]
  unfold applyOrDie at h
  unfold applyForwardedPorts
  cases hb : buildDnatRules map with
  | none =>
    rw [hb] at h
    exact absurd h (by simp)
  | some rules =>
    rw [hb] at h
    dsimp only at h ⊢
    obtain ⟨fs, hfs, rfl⟩ := Option.map_eq_some_iff.mp hb
    have hforwards : map.forwards = fs := filterMap_of_mapM_eq_some hfs
    rw [addRulesOrDie_snd] at h
    have hall : ∀ r ∈ fs.flatMap (fun f => [Rule.dnat f.dnatRule, .fwd f.fwdRule]), accepts r = true := by
      cases hfind : (fs.flatMap fun f => [Rule.dnat f.dnatRule, .fwd f.fwdRule]).find?
          fun r => !accepts r with
      | none =>
        intro r hr
        have hacc := List.find?_eq_none.mp hfind r hr
        rwa [Bool.not_eq_true, Bool.not_eq_false'] at hacc
      | some r =>
        rw [hfind] at h
        exact absurd h (by simp)
    rw [hforwards, flush_ensure, addRules_of_accepted]
    · rfl
    · intro f hf
      have hmem : ∀ r ∈ [Rule.dnat f.dnatRule, .fwd f.fwdRule], accepts r = true :=
        fun r hr => hall r (List.mem_flatMap.mpr ⟨f, hf, hr⟩)
      exact ⟨hmem _ List.mem_cons_self, hmem _ (List.mem_cons_of_mem _ List.mem_cons_self)⟩

/-- **A call that ends well** on a map that gives no port twice serves it. -/
theorem serves_of_applied {α : Type} {addr : Text → α} (h : (applyOrDie accepts s map).2 = .applied)
    (hnd : map.Distinct) : Serves addr (applyOrDie accepts s map).1 map := by
  have hinj := List.inj_on_of_nodup_map hnd
  rw [applyOrDie_of_applied h]
  refine ⟨⟨rfl, rfl⟩, fun p external t => ?_, fun p a port => ?_⟩
  · unfold Tables.sentTo
    rw [Option.map_eq_some_iff]
    constructor
    · rintro ⟨r, hfind, rfl⟩
      have hr := List.find?_some hfind
      simp only [decide_eq_true_eq] at hr
      obtain ⟨f, hf, rfl⟩ := List.mem_map.mp (List.mem_of_find?_eq_some hfind)
      exact ⟨f, hf, hr.1, hr.2, rfl⟩
    · rintro ⟨f, hf, rfl, rfl, rfl⟩
      refine ⟨f.dnatRule, find_dnatRule hf fun g hg hproto hext => ?_, rfl⟩
      -- the one entry for a port and a protocol
      have hfg : f = g := hinj hf hg (Prod.ext hext hproto)
      rw [hfg]
  · constructor
    · rintro ⟨r, hr, rfl, rfl, rfl⟩
      obtain ⟨f, hf, rfl⟩ := List.mem_map.mp hr
      exact ⟨f, hf, rfl, rfl, rfl⟩
    · rintro ⟨f, hf, rfl, rfl, rfl⟩
      exact ⟨f.fwdRule, List.mem_map_of_mem hf, rfl, rfl, rfl⟩

/-! ## A call that dies -/

/-- A call that dies of an entry leaves the chains as they were exactly when they held what it dies
with. -/
theorem nothing_iff : ((applyOrDie accepts s map).2.BadEntry →
    (applyOrDie accepts s map).1.dnat = s.dnat ∧ (applyOrDie accepts s map).1.fwd = s.fwd) ↔
      Spared accepts s map := by
  rw [applyOrDie_fst]
  unfold applyOrDie applyForwardedPorts Spared
  cases buildDnatRules map with
  | none =>
    constructor
    · intro h
      obtain ⟨hd, hw⟩ := h trivial
      exact ⟨hd.symm, hw.symm⟩
    · intro h _
      exact ⟨h.1.symm, h.2.symm⟩
  | some rules =>
    dsimp only
    rw [addRulesOrDie_snd, addRules_flush]
    cases rules.find? fun r => !accepts r with
    | none => exact ⟨fun _ r hr => absurd hr (by simp), fun _ h => h.elim⟩
    | some r =>
      constructor
      · intro h r' hr' hbad
        obtain rfl := Option.some.inj hr'
        obtain ⟨hd, hw⟩ := h hbad
        exact ⟨hd.symm, hw.symm⟩
      · intro h hbad
        obtain ⟨hd, hw⟩ := h r rfl hbad
        exact ⟨hd.symm, hw.symm⟩

/-- **All or nothing**: exactly the calls that find the chains as they would leave them. -/
theorem allOrNothing_iff {α : Type} (addr : Text → α) (accepts : Rule → Bool) (s : Tables)
    (map : PortMap) : AllOrNothing accepts addr s map ↔ Spared accepts s map :=
  ⟨fun h => nothing_iff.mp h.nothing, fun h => ⟨nothing_iff.mpr h, serves_of_applied⟩⟩

/-! ## A typing error in one entry -/

/-- The automation node's SSH port, forwarded. -/
def sshForwarded : Tables :=
  ⟨some [⟨.tcp, 22, "192.168.150.10".toList, 22⟩], true,
    some [⟨.tcp, "192.168.150.10".toList, 22⟩], true⟩

/-- The same port, and one written without its protocol. -/
def protocolForgotten : PortMap :=
  ⟨[("192.168.150.10".toList, ["22:22/TCP".toList, "8080:80".toList])], by decide⟩

/-- **The call dies and the SSH port is no longer forwarded.** -/
theorem forwards_lost : ¬ AllOrNothing (fun r => decide r.InRange) id sshForwarded
    protocolForgotten := by
  intro h
  have hends : (applyOrDie (fun r => decide r.InRange) sshForwarded protocolForgotten).2 = .malformed := by
    decide
  have hleft : (applyOrDie (fun r => decide r.InRange) sshForwarded protocolForgotten).1.dnat = some [] := by
    decide
  obtain ⟨hd, _⟩ := h.nothing (hends ▸ trivial)
  rw [hleft] at hd
  exact absurd (Option.some.inj hd) (by simp)

end LabInABox.Host.PortForward
