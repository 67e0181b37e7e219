import LabInABox.Objects
import LabInABox.Schema.Version

/-!
# Port forwards on a hypervisor

Model of `libs/portforward.py`: `apply_forwarded_ports`, which the bootstrap of the automation node
calls for its own ports and `PortForwardService.configure` (`libs/services.py`) for those of each lab,
all of them on the same two chains.

* The rules of the two chains are kept in order: a packet takes the first one that matches.
* What `iptables` accepts as a rule is a parameter. The calls that make, hook and flush the chains
  succeed.
* An entry that is malformed ends the call before a rule is added, a rule that is not accepted before
  those after it: by then both chains are flushed.

Results:
* `coexist_iff`: after a call, the ports of every owner are forwarded exactly when the call carries
  them all.
* `always_coexist_iff`: so over every history of calls.
-/

namespace LabInABox.Host.PortForward

open Text
open Schema (digitValue)

/-! ## Entries -/

/-- The protocol of an entry. -/
inductive Protocol
  | tcp
  | udp
  deriving DecidableEq

/-- A port that is forwarded to a target. -/
structure Forward where
  target : Text
  external : Nat
  internal : Nat
  proto : Protocol
  deriving DecidableEq

/-- `(\d{1,5})`, as a number. -/
def parsePort (t : Text) : Option Nat :=
  if t = [] ∨ 5 < t.length then none
  else (t.mapM digitValue).map fun ds => ds.foldl (fun acc d => 10 * acc + d) 0

/-- `(tcp|udp)`, in any case. -/
def parseProtocol (t : Text) : Option Protocol :=
  if lower t = "tcp".toList then some .tcp else if lower t = "udp".toList then some .udp else none

/-- `parse_port_spec(spec)`, for a target. -/
def parsePortSpec (target spec : Text) : Option Forward :=
  match (strip spec).span (· ≠ ':') with
  | (external, ':' :: rest) =>
    match rest.span (· ≠ '/') with
    | (internal, '/' :: proto) => do
      let e ← parsePort external
      let i ← parsePort internal
      let p ← parseProtocol proto
      return ⟨target, e, i, p⟩
    | _ => none
  | _ => none

/-- `{target_ip: [spec, ...]}`. -/
abbrev PortMap := Obj Text (List Text)

/-- The entries of a map, in order, each with its target. -/
def PortMap.specs (map : PortMap) : List (Text × Text) :=
  map.entries.flatMap fun e => e.2.map (Prod.mk e.1)

/-- An entry, read. -/
def readSpec (e : Text × Text) : Option Forward := parsePortSpec e.1 e.2

/-! ## Rules -/

/-- A rule of `CHAIN_DNAT`: `-p proto --dport external -j DNAT --to-destination target:internal`. -/
structure DnatRule where
  proto : Protocol
  dport : Nat
  target : Text
  port : Nat
  deriving DecidableEq

/-- A rule of `CHAIN_FWD`: `-p proto -d target --dport internal -j ACCEPT`. -/
structure FwdRule where
  proto : Protocol
  target : Text
  dport : Nat
  deriving DecidableEq

/-- A rule to add. -/
inductive Rule
  | dnat (r : DnatRule)
  | fwd (r : FwdRule)
  deriving DecidableEq

/-- The rule that sends a port to its target. -/
def Forward.dnatRule (f : Forward) : DnatRule := ⟨f.proto, f.external, f.target, f.internal⟩

/-- The rule that lets it through. -/
def Forward.fwdRule (f : Forward) : FwdRule := ⟨f.proto, f.target, f.internal⟩

/-- `build_dnat_rules(port_map)`; none where an entry is malformed. -/
def buildDnatRules (map : PortMap) : Option (List Rule) :=
  (map.specs.mapM readSpec).map fun fs => fs.flatMap fun f => [.dnat f.dnatRule, .fwd f.fwdRule]

/-! ## The chains -/

/-- The two chains, none where a chain is missing, and whether they are hooked. -/
structure Tables where
  dnat : Option (List DnatRule)
  dnatHooked : Bool
  fwd : Option (List FwdRule)
  fwdHooked : Bool

namespace Tables

/-- `_ensure_chain`, for both chains. -/
def ensure (s : Tables) : Tables := ⟨some (s.dnat.getD []), true, some (s.fwd.getD []), true⟩

/-- `-F`, for both chains. -/
def flush (s : Tables) : Tables := { s with dnat := s.dnat.map fun _ => [], fwd := s.fwd.map fun _ => [] }

/-- `-A`. -/
def add (s : Tables) : Rule → Tables
  | .dnat r => { s with dnat := s.dnat.map (· ++ [r]) }
  | .fwd r => { s with fwd := s.fwd.map (· ++ [r]) }

/-- A packet to the external port reaches the target: the first rule for it sends it there, and it is
let through. -/
def Forwards (s : Tables) (f : Forward) : Prop :=
  s.dnatHooked = true ∧ s.fwdHooked = true ∧
    ((s.dnat.getD []).find? fun r => decide (r.proto = f.proto ∧ r.dport = f.external)) =
      some f.dnatRule ∧ f.fwdRule ∈ s.fwd.getD []

end Tables

variable (accepts : Rule → Bool)

/-- The loop over the rules: it ends at one that is not accepted. -/
def addRules : List Rule → Tables → Tables
  | [], s => s
  | r :: rs, s => if accepts r then addRules rs (s.add r) else s

/-- `apply_forwarded_ports(port_map)`. -/
def applyForwardedPorts (s : Tables) (map : PortMap) : Tables :=
  match buildDnatRules map with
  | none => s.ensure.flush
  | some rules => addRules accepts rules s.ensure.flush

/-! ## Histories -/

/-- A call of an owner. -/
structure Call (ι : Type) where
  owner : ι
  map : PortMap

variable {ι : Type} [DecidableEq ι]

/-- The calls, one after another. -/
def run (s : Tables) (h : List (Call ι)) : Tables :=
  h.foldl (fun s c => applyForwardedPorts accepts s c.map) s

/-- The most recent map of an owner. -/
def recent (h : List (Call ι)) (owner : ι) : Option PortMap :=
  (h.reverse.find? fun c => decide (c.owner = owner)).map Call.map

/-- Every entry of the most recent map of every owner is forwarded. -/
def Coexist (h : List (Call ι)) (s : Tables) : Prop :=
  ∀ owner map, recent h owner = some map →
    ∀ e ∈ map.specs, ∃ f, readSpec e = some f ∧ s.Forwards f

/-- The call carries the ports of every owner: its entries are well formed, accepted and give no port
two targets, and those of the other owners are among them. -/
structure Carries (h : List (Call ι)) (c : Call ι) : Prop where
  reads : ∀ e ∈ c.map.specs, ∃ f, readSpec e = some f
  accepted : ∀ e ∈ c.map.specs, ∀ f, readSpec e = some f →
    accepts (.dnat f.dnatRule) = true ∧ accepts (.fwd f.fwdRule) = true
  apart : ∀ e ∈ c.map.specs, ∀ e' ∈ c.map.specs, ∀ f f', readSpec e = some f → readSpec e' = some f' →
    f.proto = f'.proto → f.external = f'.external → f.dnatRule = f'.dnatRule
  others : ∀ owner ≠ c.owner, ∀ map, recent h owner = some map → ∀ e ∈ map.specs,
    ∃ f, readSpec e = some f ∧ ∃ e' ∈ c.map.specs, readSpec e' = some f

variable {accepts} {s : Tables} {h : List (Call ι)} {c : Call ι}

/-! ## The rules that are added -/

theorem hooked_addRules (rs : List Rule) (s : Tables) :
    (addRules accepts rs s).dnatHooked = s.dnatHooked ∧
      (addRules accepts rs s).fwdHooked = s.fwdHooked := by
  induction rs generalizing s with
  | nil => exact ⟨rfl, rfl⟩
  | cons r rs ih =>
    unfold addRules
    split
    · obtain ⟨h₁, h₂⟩ := ih (s.add r)
      rw [h₁, h₂]
      cases r <;> exact ⟨rfl, rfl⟩
    · exact ⟨rfl, rfl⟩

theorem mem_dnat_addRules {r : DnatRule} {rs : List Rule} {s : Tables}
    (h : r ∈ (addRules accepts rs s).dnat.getD []) :
    r ∈ s.dnat.getD [] ∨ Rule.dnat r ∈ rs ∧ accepts (.dnat r) = true := by
  induction rs generalizing s with
  | nil => exact Or.inl h
  | cons q rs ih =>
    unfold addRules at h
    split at h
    · rename_i ha
      rcases ih h with hm | ⟨hm, hr⟩
      · cases q with
        | fwd q => exact Or.inl hm
        | dnat q =>
          unfold Tables.add at hm
          dsimp only at hm
          cases hd : s.dnat with
          | none =>
            rw [hd] at hm
            exact absurd hm List.not_mem_nil
          | some l =>
            rw [hd] at hm
            rcases List.mem_append.mp hm with hm | hm
            · exact Or.inl hm
            · rw [List.mem_singleton.mp hm]
              exact Or.inr ⟨List.mem_cons_self, ha⟩
      · exact Or.inr ⟨List.mem_cons_of_mem _ hm, hr⟩
    · exact Or.inl h

theorem mem_fwd_addRules {r : FwdRule} {rs : List Rule} {s : Tables}
    (h : r ∈ (addRules accepts rs s).fwd.getD []) :
    r ∈ s.fwd.getD [] ∨ Rule.fwd r ∈ rs ∧ accepts (.fwd r) = true := by
  induction rs generalizing s with
  | nil => exact Or.inl h
  | cons q rs ih =>
    unfold addRules at h
    split at h
    · rename_i ha
      rcases ih h with hm | ⟨hm, hr⟩
      · cases q with
        | dnat q => exact Or.inl hm
        | fwd q =>
          unfold Tables.add at hm
          dsimp only at hm
          cases hd : s.fwd with
          | none =>
            rw [hd] at hm
            exact absurd hm List.not_mem_nil
          | some l =>
            rw [hd] at hm
            rcases List.mem_append.mp hm with hm | hm
            · exact Or.inl hm
            · rw [List.mem_singleton.mp hm]
              exact Or.inr ⟨List.mem_cons_self, ha⟩
      · exact Or.inr ⟨List.mem_cons_of_mem _ hm, hr⟩
    · exact Or.inl h

/-- Rules that are all accepted are all added, in order. -/
theorem addRules_of_accepted (fs : List Forward)
    (ha : ∀ f ∈ fs, accepts (.dnat f.dnatRule) = true ∧ accepts (.fwd f.fwdRule) = true)
    (d : List DnatRule) (w : List FwdRule) :
    addRules accepts (fs.flatMap fun f => [.dnat f.dnatRule, .fwd f.fwdRule])
      ⟨some d, true, some w, true⟩ =
      ⟨some (d ++ fs.map Forward.dnatRule), true, some (w ++ fs.map Forward.fwdRule), true⟩ := by
  induction fs generalizing d w with
  | nil => rw [List.map_nil, List.map_nil, List.append_nil, List.append_nil]; rfl
  | cons f fs ih =>
    obtain ⟨h₁, h₂⟩ := ha f List.mem_cons_self
    have hrec := ih (fun g hg => ha g (List.mem_cons_of_mem _ hg)) (d ++ [f.dnatRule]) (w ++ [f.fwdRule])
    rw [List.append_assoc, List.append_assoc] at hrec
    rw [List.flatMap_cons, List.cons_append, addRules, if_pos h₁, List.cons_append, addRules, if_pos h₂]
    exact hrec

/-! ## One call -/

theorem flush_ensure (s : Tables) : s.ensure.flush = ⟨some [], true, some [], true⟩ := rfl

/-- The first rule for a port, where no port has two targets. -/
theorem find_dnatRule {fs : List Forward} {f : Forward} (hf : f ∈ fs)
    (hapart : ∀ g ∈ fs, f.proto = g.proto → f.external = g.external → f.dnatRule = g.dnatRule) :
    ((fs.map Forward.dnatRule).find? fun r => decide (r.proto = f.proto ∧ r.dport = f.external)) =
      some f.dnatRule := by
  cases hfind : (fs.map Forward.dnatRule).find?
      fun r => decide (r.proto = f.proto ∧ r.dport = f.external) with
  | none =>
    have h := List.find?_eq_none.mp hfind f.dnatRule (List.mem_map_of_mem hf)
    exact absurd (decide_eq_true ⟨rfl, rfl⟩) h
  | some r =>
    have hr := List.find?_some hfind
    simp only [decide_eq_true_eq] at hr
    obtain ⟨g, hg, rfl⟩ := List.mem_map.mp (List.mem_of_find?_eq_some hfind)
    rw [hapart g hg hr.1.symm hr.2.symm]

/-- What is forwarded after a call is an entry of it, which `iptables` accepted. -/
theorem of_forwards {map : PortMap} {f : Forward}
    (h : (applyForwardedPorts accepts s map).Forwards f) :
    (∃ e ∈ map.specs, readSpec e = some f) ∧
      accepts (.dnat f.dnatRule) = true ∧ accepts (.fwd f.fwdRule) = true := by
  obtain ⟨_, _, hd, hw⟩ := h
  have hd := List.mem_of_find?_eq_some hd
  unfold applyForwardedPorts at hd hw
  cases hb : buildDnatRules map with
  | none =>
    rw [hb] at hd
    exact absurd hd List.not_mem_nil
  | some rules =>
    rw [hb] at hd hw
    dsimp only at hd hw
    obtain ⟨hmem, had⟩ := (mem_dnat_addRules hd).resolve_left List.not_mem_nil
    obtain ⟨_, haw⟩ := (mem_fwd_addRules hw).resolve_left List.not_mem_nil
    refine ⟨?_, had, haw⟩
    obtain ⟨fs, hfs, rfl⟩ := Option.map_eq_some_iff.mp hb
    obtain ⟨g, hg, hr⟩ := List.mem_flatMap.mp hmem
    have hfg : f = g := by
      rcases List.mem_cons.mp hr with hr | hr
      · have hrule := Rule.dnat.inj hr
        cases f
        cases g
        obtain ⟨h₁, h₂, h₃, h₄⟩ := DnatRule.mk.inj hrule
        subst h₁ h₂ h₃ h₄
        rfl
      · exact absurd (List.mem_singleton.mp hr) (by simp)
    obtain ⟨e, he, hread⟩ := (mem_of_mapM_eq_some hfs).mp hg
    exact ⟨e, he, hfg ▸ hread⟩

/-- A map whose entries are read, accepted and apart is forwarded as a whole. -/
theorem forwards_of_accepted {map : PortMap} (hread : ∀ e ∈ map.specs, ∃ f, readSpec e = some f)
    (ha : ∀ e ∈ map.specs, ∀ f, readSpec e = some f →
      accepts (.dnat f.dnatRule) = true ∧ accepts (.fwd f.fwdRule) = true)
    (hapart : ∀ e ∈ map.specs, ∀ e' ∈ map.specs, ∀ f f', readSpec e = some f → readSpec e' = some f' →
      f.proto = f'.proto → f.external = f'.external → f.dnatRule = f'.dnatRule)
    {e : Text × Text} (he : e ∈ map.specs) {f : Forward} (hf : readSpec e = some f) :
    (applyForwardedPorts accepts s map).Forwards f := by
  obtain ⟨fs, hfs⟩ := exists_mapM_eq_some hread
  have hmem : ∀ g, g ∈ fs ↔ ∃ e ∈ map.specs, readSpec e = some g := fun g => mem_of_mapM_eq_some hfs
  have hb : buildDnatRules map =
      some (fs.flatMap fun f => [.dnat f.dnatRule, .fwd f.fwdRule]) := by
    unfold buildDnatRules
    rw [hfs]
    rfl
  have hs : applyForwardedPorts accepts s map =
      ⟨some (fs.map Forward.dnatRule), true, some (fs.map Forward.fwdRule), true⟩ := by
    unfold applyForwardedPorts
    rw [hb]
    dsimp only
    rw [flush_ensure, addRules_of_accepted]
    · rfl
    · intro g hg
      obtain ⟨e', he', hg⟩ := (hmem g).mp hg
      exact ha e' he' g hg
  have hin : f ∈ fs := (hmem f).mpr ⟨e, he, hf⟩
  rw [hs]
  refine ⟨rfl, rfl, find_dnatRule hin fun g hg => ?_, List.mem_map_of_mem hin⟩
  obtain ⟨e', he', hg⟩ := (hmem g).mp hg
  exact hapart e he e' he' f g hf hg

/-! ## Histories of calls -/

theorem recent_append (h : List (Call ι)) (c : Call ι) (owner : ι) :
    recent (h ++ [c]) owner = if c.owner = owner then some c.map else recent h owner := by
  unfold recent
  rw [List.reverse_append, List.reverse_singleton, List.singleton_append, List.find?_cons]
  by_cases hc : c.owner = owner
  · rw [if_pos hc, decide_eq_true hc]
    rfl
  · rw [if_neg hc, decide_eq_false hc]

omit [DecidableEq ι] in
theorem run_append (s : Tables) (h : List (Call ι)) (c : Call ι) :
    run accepts s (h ++ [c]) = applyForwardedPorts accepts (run accepts s h) c.map := by
  unfold run
  rw [List.foldl_append]
  rfl

/-- **After a call**, the ports of every owner are forwarded exactly when the call carries them all. -/
theorem coexist_iff : Coexist (h ++ [c]) (run accepts s (h ++ [c])) ↔ Carries accepts h c := by
  rw [run_append]
  constructor
  · intro hco
    have hown : ∀ e ∈ c.map.specs, ∃ f, readSpec e = some f ∧
        (applyForwardedPorts accepts (run accepts s h) c.map).Forwards f :=
      hco c.owner c.map (by rw [recent_append, if_pos rfl])
    have hforwards : ∀ e ∈ c.map.specs, ∀ f, readSpec e = some f →
        (applyForwardedPorts accepts (run accepts s h) c.map).Forwards f := by
      intro e he f hf
      obtain ⟨g, hg, hfw⟩ := hown e he
      rw [hf] at hg
      exact Option.some.inj hg ▸ hfw
    refine ⟨fun e he => (hown e he).imp fun f hf => hf.1, fun e he f hf => ?_, ?_, ?_⟩
    · exact (of_forwards (hforwards e he f hf)).2
    · intro e he e' he' f f' hf hf' hproto hext
      have h₁ := (hforwards e he f hf).2.2.1
      have h₂ := (hforwards e' he' f' hf').2.2.1
      rw [hproto, hext, h₂] at h₁
      exact (Option.some.inj h₁).symm
    · intro owner hne map hmap e he
      have hrec : recent (h ++ [c]) owner = some map := by
        rw [recent_append, if_neg (Ne.symm hne)]
        exact hmap
      obtain ⟨f, hf, hfw⟩ := hco owner map hrec e he
      exact ⟨f, hf, (of_forwards hfw).1⟩
  · intro hc owner map hmap e he
    rw [recent_append] at hmap
    split at hmap
    · obtain rfl := Option.some.inj hmap
      obtain ⟨f, hf⟩ := hc.reads e he
      exact ⟨f, hf, forwards_of_accepted hc.reads hc.accepted hc.apart he hf⟩
    · rename_i hne
      obtain ⟨f, hf, e', he', hf'⟩ := hc.others owner (Ne.symm hne) map hmap e he
      exact ⟨f, hf, forwards_of_accepted hc.reads hc.accepted hc.apart he' hf'⟩

/-- **Over every history**: the ports of every owner are forwarded after each call exactly when each
call carries the ports of all of them. -/
theorem always_coexist_iff (accepts : Rule → Bool) (s : Tables) (calls : List (Call ι)) :
    (∀ h c rest, calls = h ++ c :: rest → Coexist (h ++ [c]) (run accepts s (h ++ [c]))) ↔
      ∀ h c rest, calls = h ++ c :: rest → Carries accepts h c :=
  forall_congr' fun _ => forall_congr' fun _ => forall_congr' fun _ => imp_congr_right fun _ =>
    coexist_iff

/-! ## A lab after the automation node -/

/-- The two owners of the example. -/
inductive Owner
  | automation
  | lab
  deriving DecidableEq

/-- The automation node forwards its own SSH port at bootstrap, then a lab one of its VMs' ports. -/
def bootstrapThenLab : List (Call Owner) :=
  [⟨.automation, ⟨[("192.168.150.10".toList, ["22:22/TCP".toList])], by decide⟩⟩,
    ⟨.lab, ⟨[("192.168.150.20".toList, ["8080:80/TCP".toList])], by decide⟩⟩]

/-- **The automation node's port is no longer forwarded.** -/
theorem bootstrap_dropped : ¬ Coexist bootstrapThenLab
    (run (fun _ => true) ⟨none, false, none, false⟩ bootstrapThenLab) := by
  intro h
  obtain ⟨f, hf, hfw⟩ := h .automation _ rfl ("192.168.150.10".toList, "22:22/TCP".toList)
    List.mem_cons_self
  have hread : readSpec ("192.168.150.10".toList, "22:22/TCP".toList) =
      some ⟨"192.168.150.10".toList, 22, 22, .tcp⟩ := by decide
  rw [hread] at hf
  obtain rfl := Option.some.inj hf
  have hnone : ((run (fun _ => true) ⟨none, false, none, false⟩ bootstrapThenLab).dnat.getD []).find?
      (fun r => decide (r.proto = .tcp ∧ r.dport = 22)) = none := by decide
  have hd := hfw.2.2.1
  rw [hnone] at hd
  cases hd

end LabInABox.Host.PortForward
