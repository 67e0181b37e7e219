import Mathlib.Data.List.Nodup
import LabInABox.Schema.Validate

/-!
# Opening ports in a security group

Model of `_ensure_security_group_access` of `AWSBackend` (`libs/backends.py`) and of the list that
`scripts/setup_vm.py` makes of the ports of a lab.

* A group is what `describe-security-groups` shows: permissions, each for some ranges of addresses. No rule is
  shown twice.
* `Ec2` is what EC2 does with a rule that is asked for: it takes it or not, shows it in a form of its own (a
  protocol by its name, and all protocols without ports), and refuses one that the group has.
* A group is configured, and the address of this node is known.

Results:
* `run_pending`: pending rules that are taken as they are written end up in the group, each once.
* `opened_iff`: exactly when a call opens what is wanted, and a second call does nothing.
* `equivalent_entries_refused`: a port without a protocol, and with it.
-/

namespace LabInABox.Backend.SecurityGroup

open Text Schema

/-! ## Rules -/

/-- A rule; all protocols have no ports. -/
structure Rule where
  fromPort : Option Int
  toPort : Option Int
  protocol : Text
  cidr : Text
  deriving DecidableEq

/-- An entry of `IpPermissions`. -/
structure Permission where
  fromPort : Option Int
  toPort : Option Int
  protocol : Text
  ranges : List Text

/-- The rules of a permission. -/
def Permission.rules (p : Permission) : List Rule := p.ranges.map fun cidr => ⟨p.fromPort, p.toPort, p.protocol, cidr⟩

/-- A group, as it is shown. -/
structure Group where
  permissions : List Permission
  nodup : (permissions.flatMap Permission.rules).Nodup

/-- `existing` -/
def Group.rules (g : Group) : List Rule := g.permissions.flatMap Permission.rules

/-- A rule as a permission of its own. -/
def Rule.permission (r : Rule) : Permission := ⟨r.fromPort, r.toPort, r.protocol, [r.cidr]⟩

/-- EC2: the rules it takes, and the form it shows them in. -/
structure Ec2 where
  takes : Rule → Bool
  shown : Rule → Rule
  shown_shown : ∀ r, shown (shown r) = shown r

/-- The group with a rule more. -/
def Group.add (g : Group) (r : Rule) (h : r ∉ g.rules) : Group where
  permissions := g.permissions ++ [r.permission]
  nodup := by
    rw [List.flatMap_append, List.nodup_append]
    refine ⟨g.nodup, by simp [Permission.rules, Rule.permission], fun a ha b hb => ?_⟩
    have hbr : b = r := by simpa [Permission.rules, Rule.permission] using hb
    rintro rfl
    exact h (hbr ▸ ha)

theorem rules_add (g : Group) (r : Rule) (h : r ∉ g.rules) : (g.add r h).rules = g.rules ++ [r] := by
  unfold Group.add Group.rules
  rw [List.flatMap_append]
  rfl

/-- `authorize-security-group-ingress`, none for its error. -/
def Ec2.authorize (aws : Ec2) (g : Group) (r : Rule) : Option Group :=
  if aws.takes r = true then
    if h : aws.shown r ∈ g.rules then none else some (g.add (aws.shown r) h)
  else none

/-! ## The call -/

/-- The rule of an entry of `open_ports`, none for a `ValueError`. -/
def entryRule (entry : Json) : Option Rule :=
  let text := entry.str
  let proto := (text.dropWhile (· ≠ '/')).tail
  (parseInt (text.takeWhile (· ≠ '/'))).map fun port =>
    ⟨some port, some port, lower (if proto = [] then "tcp".toList else proto), "0.0.0.0/0".toList⟩

/-- The rule for SSH from this node. -/
def sshRule (ip : Text) : Rule := ⟨some 22, some 22, "tcp".toList, ip ++ "/32".toList⟩

/-- `wanted` -/
def wanted (ip : Text) (openPorts : List Json) : Option (List Rule) :=
  (openPorts.mapM entryRule).map (sshRule ip :: ·)

/-- What a call leaves: the group, the rules it asked for, and whether it was refused one. -/
structure Outcome where
  group : Group
  calls : List Rule
  refused : Bool

section Call

variable (aws : Ec2)

/-- The loop over `wanted`. -/
def run (existing : List Rule) (g : Group) : List Rule → Outcome
  | [] => ⟨g, [], false⟩
  | r :: rs =>
    if r ∈ existing then run existing g rs
    else
      match aws.authorize g r with
      | none => ⟨g, [r], true⟩
      | some g' =>
        let o := run existing g' rs
        ⟨o.group, r :: o.calls, o.refused⟩

/-- `_ensure_security_group_access(open_ports)`, none for a `ValueError`. -/
def ensureSecurityGroupAccess (g : Group) (ip : Text) (openPorts : List Json) : Option Outcome :=
  (wanted ip openPorts).map (run aws g.rules g)

/-- The list `setup_vm.py` passes. -/
def mergeOpenPorts (entries : List Json) : List Text :=
  entries.foldl (fun openPorts entry => if entry.str ∈ openPorts then openPorts else openPorts ++ [entry.str]) []

/-- **What a call is for**: it asks for no rule twice and for none that is there, is refused none, leaves each
wanted rule once, and a second call asks for nothing. -/
structure Opened (g : Group) (ip : Text) (openPorts : List Json) : Prop where
  once_asked : ∀ o, ensureSecurityGroupAccess aws g ip openPorts = some o → o.calls.Nodup
  new : ∀ o, ensureSecurityGroupAccess aws g ip openPorts = some o → ∀ r ∈ o.calls, r ∉ g.rules
  taken : ∀ o, ensureSecurityGroupAccess aws g ip openPorts = some o → o.refused = false
  once : ∀ o rules, ensureSecurityGroupAccess aws g ip openPorts = some o →
    wanted ip openPorts = some rules → ∀ r ∈ rules, o.group.rules.count r = 1
  second : ∀ o o', ensureSecurityGroupAccess aws g ip openPorts = some o →
    ensureSecurityGroupAccess aws o.group ip openPorts = some o' → o'.calls = []

/-- The wanted rules that the group does not have. -/
def pending (g : Group) (rules : List Rule) : List Rule := rules.filter fun r => decide (r ∉ g.rules)

variable {aws}

/-- The loop asks for the pending rules, until it is refused one. -/
theorem calls_of_not_refused {existing : List Rule} : ∀ {g : Group} {rs : List Rule},
    (run aws existing g rs).refused = false →
    (run aws existing g rs).calls = rs.filter (fun r => decide (r ∉ existing)) ∧
      (run aws existing g rs).group.rules =
        g.rules ++ (rs.filter fun r => decide (r ∉ existing)).map aws.shown ∧
      ∀ r ∈ rs, r ∉ existing → aws.takes r = true
  | g, [], _ => ⟨rfl, (List.append_nil _).symm, fun r hr => absurd hr List.not_mem_nil⟩
  | g, r :: rs, h => by
    rw [run] at h ⊢
    by_cases hr : r ∈ existing
    · rw [if_pos hr] at h ⊢
      obtain ⟨hc, hg, ht⟩ := calls_of_not_refused h
      rw [List.filter_cons_of_neg (by simpa using hr)]
      refine ⟨hc, hg, fun x hx hnot => ?_⟩
      rcases List.mem_cons.mp hx with rfl | hx
      · exact absurd hr hnot
      · exact ht x hx hnot
    · rw [if_neg hr] at h ⊢
      cases ha : aws.authorize g r with
      | none =>
        rw [ha] at h
        exact absurd h.symm Bool.false_ne_true
      | some g' =>
        rw [ha] at h
        obtain ⟨hc, hg, ht⟩ := calls_of_not_refused (g := g') h
        unfold Ec2.authorize at ha
        split at ha
        · rename_i htakes
          split at ha
          · exact absurd ha.symm (Option.some_ne_none g')
          · rename_i hnot
            have hg' : g'.rules = g.rules ++ [aws.shown r] := by
              rw [← Option.some.inj ha]
              exact rules_add g _ hnot
            rw [List.filter_cons_of_pos (by simpa using hr)]
            refine ⟨congrArg (r :: ·) hc, ?_, fun x hx hx' => ?_⟩
            · dsimp only
              rw [hg, hg', List.map_cons, List.append_assoc, List.singleton_append]
            · rcases List.mem_cons.mp hx with rfl | hx
              · exact htakes
              · exact ht x hx hx'
        · exact absurd ha.symm (Option.some_ne_none g')

theorem rules_of_authorize {g g' : Group} {r : Rule} (h : aws.authorize g r = some g') :
    g'.rules = g.rules ++ [aws.shown r] ∧ aws.takes r = true := by
  unfold Ec2.authorize at h
  split at h
  · rename_i htakes
    split at h
    · exact absurd h.symm (Option.some_ne_none g')
    · rename_i hnot
      rw [← Option.some.inj h]
      exact ⟨rules_add g _ hnot, htakes⟩
  · exact absurd h.symm (Option.some_ne_none g')

/-- Pending rules that are taken as they are written are refused in no call. -/
theorem not_refused {existing : List Rule} : ∀ {g : Group} {rs : List Rule},
    (rs.filter fun r => decide (r ∉ existing)).Nodup →
    (∀ r ∈ rs, r ∉ existing → aws.takes r = true ∧ aws.shown r = r ∧ r ∉ g.rules) →
    (run aws existing g rs).refused = false
  | _, [], _, _ => rfl
  | g, r :: rs, hn, h => by
    rw [run]
    by_cases hr : r ∈ existing
    · rw [if_pos hr]
      rw [List.filter_cons_of_neg (by simpa using hr)] at hn
      exact not_refused hn fun x hx => h x (List.mem_cons_of_mem _ hx)
    · obtain ⟨htakes, hshown, hnot⟩ := h r List.mem_cons_self hr
      rw [if_neg hr]
      rw [List.filter_cons_of_pos (by simpa using hr), List.nodup_cons] at hn
      cases ha : aws.authorize g r with
      | none =>
        unfold Ec2.authorize at ha
        rw [if_pos htakes, hshown, dif_neg hnot] at ha
        exact absurd ha (Option.some_ne_none _)
      | some g' =>
        refine not_refused (g := g') hn.2 fun x hx hx' => ?_
        obtain ⟨hxt, hxs, hxg⟩ := h x (List.mem_cons_of_mem _ hx) hx'
        refine ⟨hxt, hxs, fun hmem => ?_⟩
        rw [(rules_of_authorize ha).1, hshown] at hmem
        rcases List.mem_append.mp hmem with hmem | hmem
        · exact hxg hmem
        · rw [List.mem_singleton] at hmem
          rw [← hmem] at hn
          exact hn.1 (List.mem_filter.mpr ⟨hx, by simpa using hx'⟩)

theorem mem_pending_iff {g : Group} {rules : List Rule} {r : Rule} :
    r ∈ pending g rules ↔ r ∈ rules ∧ r ∉ g.rules := by
  rw [pending, List.mem_filter, decide_eq_true_eq]

/-- **The loop**: pending rules that are distinct, taken, and shown as they are written end up in the group. -/
theorem run_pending {g : Group} {rules : List Rule} (hn : (pending g rules).Nodup)
    (h : ∀ r ∈ pending g rules, aws.takes r = true ∧ aws.shown r = r) :
    (run aws g.rules g rules).refused = false ∧ (run aws g.rules g rules).calls = pending g rules ∧
      (run aws g.rules g rules).group.rules = g.rules ++ pending g rules := by
  have hr := @not_refused aws g.rules g rules hn fun r hr hnot =>
    ⟨(h r (mem_pending_iff.mpr ⟨hr, hnot⟩)).1, (h r (mem_pending_iff.mpr ⟨hr, hnot⟩)).2, hnot⟩
  obtain ⟨hc, hg, -⟩ := calls_of_not_refused hr
  have hmap : (pending g rules).map aws.shown = pending g rules := by
    conv_rhs => rw [← List.map_id (pending g rules)]
    exact List.map_congr_left fun r hr => (h r hr).2
  exact ⟨hr, hc, hg.trans (congrArg (g.rules ++ ·) hmap)⟩

/-- A rule the group has is asked for no more. -/
theorem calls_eq_nil {existing : List Rule} {g : Group} : ∀ {rs : List Rule}, (∀ r ∈ rs, r ∈ existing) →
    (run aws existing g rs).calls = []
  | [], _ => rfl
  | r :: rs, h => by
    rw [run, if_pos (h r List.mem_cons_self)]
    exact calls_eq_nil fun x hx => h x (List.mem_cons_of_mem _ hx)

/-- **A call opens what is wanted**, and a second one does nothing, exactly when the rules the group does not have
are wanted once each, and EC2 takes each and shows it as it is written. -/
theorem opened_iff {g : Group} {ip : Text} {openPorts : List Json} :
    Opened aws g ip openPorts ↔ ∀ rules, wanted ip openPorts = some rules →
      (pending g rules).Nodup ∧ ∀ r ∈ pending g rules, aws.takes r = true ∧ aws.shown r = r := by
  have hensure : ∀ {g' : Group} {o : Outcome}, ensureSecurityGroupAccess aws g' ip openPorts = some o ↔
      ∃ rules, wanted ip openPorts = some rules ∧ run aws g'.rules g' rules = o := Option.map_eq_some_iff
  constructor
  · intro h rules hw
    have ho : ensureSecurityGroupAccess aws g ip openPorts = some (run aws g.rules g rules) :=
      hensure.mpr ⟨rules, hw, rfl⟩
    have hrefused := h.taken _ ho
    obtain ⟨hc, hg, ht⟩ := calls_of_not_refused hrefused
    have hn : (pending g rules).Nodup := by
      have hcalls := h.once_asked _ ho
      rwa [hc] at hcalls
    refine ⟨hn, fun r hr => ?_⟩
    obtain ⟨hmem, hnot⟩ := mem_pending_iff.mp hr
    refine ⟨ht r hmem hnot, ?_⟩
    -- the rule is in the group afterwards, so it is one that EC2 shows
    have hcount := h.once _ rules ho hw r hmem
    have hin : r ∈ g.rules ++ (pending g rules).map aws.shown := by
      rw [pending, ← hg]
      exact List.count_pos_iff.mp (by omega)
    obtain ⟨r', -, hr'⟩ := List.mem_map.mp ((List.mem_append.mp hin).resolve_left hnot)
    rw [← hr', aws.shown_shown]
  · intro h
    have hrun : ∀ {o}, ensureSecurityGroupAccess aws g ip openPorts = some o → ∃ rules,
        wanted ip openPorts = some rules ∧ (pending g rules).Nodup ∧ o.refused = false ∧
          o.calls = pending g rules ∧ o.group.rules = g.rules ++ pending g rules := by
      intro o ho
      obtain ⟨rules, hw, rfl⟩ := hensure.mp ho
      obtain ⟨hn, hall⟩ := h rules hw
      exact ⟨rules, hw, hn, run_pending hn hall⟩
    refine ⟨fun o ho => ?_, fun o ho r hr => ?_, fun o ho => ?_, fun o rules ho hw r hr => ?_,
      fun o o' ho ho' => ?_⟩
    · obtain ⟨rules, -, hn, -, hc, -⟩ := hrun ho
      rw [hc]
      exact hn
    · obtain ⟨rules, -, -, -, hc, -⟩ := hrun ho
      rw [hc] at hr
      exact (mem_pending_iff.mp hr).2
    · obtain ⟨_, -, -, hr, -⟩ := hrun ho
      exact hr
    · obtain ⟨rules', hw', hn, -, -, hg⟩ := hrun ho
      obtain rfl := Option.some.inj (hw.symm.trans hw')
      have hnodup : (g.rules ++ pending g rules).Nodup := List.nodup_append.mpr
        ⟨g.nodup, hn, fun a ha b hb hab => (mem_pending_iff.mp hb).2 (hab ▸ ha)⟩
      rw [hg]
      refine List.count_eq_one_of_mem hnodup (List.mem_append.mpr ?_)
      by_cases hin : r ∈ g.rules
      · exact Or.inl hin
      · exact Or.inr (mem_pending_iff.mpr ⟨hr, hin⟩)
    · obtain ⟨rules, hw, -, -, -, hg⟩ := hrun ho
      obtain ⟨rules', hw', rfl⟩ := hensure.mp ho'
      obtain rfl := Option.some.inj (hw.symm.trans hw')
      refine calls_eq_nil fun r hr => ?_
      rw [hg]
      refine List.mem_append.mpr ?_
      by_cases hin : r ∈ g.rules
      · exact Or.inl hin
      · exact Or.inr (mem_pending_iff.mpr ⟨hr, hin⟩)

end Call

/-! ## The list of a lab -/

/-- The merged list has each text once. -/
theorem mergeOpenPorts_spec (entries : List Json) :
    (mergeOpenPorts entries).Nodup ∧ ∀ t, t ∈ mergeOpenPorts entries ↔ t ∈ entries.map Json.str := by
  have hfold : ∀ (entries : List Json) (acc : List Text), acc.Nodup →
      (entries.foldl (fun ports entry => if entry.str ∈ ports then ports else ports ++ [entry.str]) acc).Nodup ∧
      ∀ t, t ∈ entries.foldl (fun ports entry => if entry.str ∈ ports then ports else ports ++ [entry.str]) acc ↔
        t ∈ acc ∨ t ∈ entries.map Json.str := by
    intro entries
    induction entries with
    | nil => exact fun acc h => ⟨h, fun t => by simp⟩
    | cons e es ih =>
      intro acc h
      rw [List.foldl_cons]
      by_cases he : e.str ∈ acc
      · rw [if_pos he]
        refine ⟨(ih acc h).1, fun t => ((ih acc h).2 t).trans ?_⟩
        rw [List.map_cons, List.mem_cons]
        constructor
        · exact fun ht => ht.imp id Or.inr
        · rintro (ht | rfl | ht)
          · exact Or.inl ht
          · exact Or.inl he
          · exact Or.inr ht
      · have hn : (acc ++ [e.str]).Nodup := List.nodup_append.mpr
          ⟨h, List.nodup_singleton _, fun a ha b hb hab => he (List.mem_singleton.mp hb ▸ hab ▸ ha)⟩
        rw [if_neg he]
        refine ⟨(ih _ hn).1, fun t => ((ih _ hn).2 t).trans ?_⟩
        rw [List.mem_append, List.mem_singleton, List.map_cons, List.mem_cons, or_assoc]
  refine ⟨(hfold entries [] List.nodup_nil).1, fun t => ((hfold entries [] List.nodup_nil).2 t).trans ?_⟩
  simp

/-! ## Two spellings of a port -/

/-- A service that takes every rule and shows it as it is written. -/
def plainEc2 : Ec2 := ⟨fun _ => true, id, fun _ => rfl⟩

/-- A group without rules. -/
def emptyGroup : Group := ⟨[], List.nodup_nil⟩

/-- A port without its protocol, and with it: the list of the lab keeps both, and the second is refused. -/
theorem equivalent_entries_refused :
    mergeOpenPorts [.int 443, .text "443/tcp".toList] = ["443".toList, "443/tcp".toList] ∧
      ¬ Opened plainEc2 emptyGroup "198.51.100.7".toList [.text "443".toList, .text "443/tcp".toList] := by
  refine ⟨by decide, fun h => ?_⟩
  have hrules := (opened_iff.mp h _ rfl).1
  exact absurd hrules (by decide)

end LabInABox.Backend.SecurityGroup
