import LabInABox.Schema.Migrate

/-!
# The order of the migrations

Two steps of different schemas, one after the other on a lab definition, and a migration over the schemas
in another order than `schemas_of` lists them in.

Results:
* `inOrder_comm`: the steps of different add-ons give the same definition in either order, and each
  reports the same changes.
* `migrateOver_perm`: a migration leaves the same definition in whatever order the schemas come, and the
  same changes up to order when each schema names steps of its own.
* `migrations_independent`: both, with what each step leaves.
-/

namespace LabInABox.Schema

open Text

/-! ## Two steps -/

/-- The schema a step belongs to. -/
def Step.schema : Step → Text
  | configs name _ => Cluster.addonSchema name
  | source name _ => Cluster.addonSchema name
  | openPorts => "lab".toList

/-- One step and then another: the definition they leave, and what each reports. -/
def inOrder (s t : Step) (d : Definition) :
    Except Cluster.Die (Definition × List Text × List Text) := do
  let (d₁, changes) ← s.apply d
  let (d₂, changes') ← t.apply d₁
  return (d₂, changes, changes')

/-- What keeps a step from reading the add-on lists, if it does read them. -/
def Step.blocked (s : Step) (entries : List Cluster.Entry) : Option Cluster.Die :=
  match s, Cluster.addonNames entries with
  | source _ _, .error e => some e
  | _, _ => none

theorem Step.apply_eq_blocked (s : Step) (d : Definition) :
    s.apply d = match s.blocked d.lab.entries with
      | some e => .error e
      | none => .ok (s.edit d) := by
  cases hn : Cluster.addonNames d.lab.entries with
  | ok names =>
    rw [s.apply_eq (Cluster.addonNames_isOk_iff.mp ⟨names, hn⟩)]
    unfold Step.blocked
    rw [hn]
    cases s <;> rfl
  | error e =>
    unfold Step.blocked
    rw [hn]
    cases s with
    | configs name passes => rfl
    | source name key => exact Step.apply_eq_error hn
    | openPorts => rfl

theorem Step.blocked_eq_some {s : Step} {entries : List Cluster.Entry} {e : Cluster.Die}
    (h : s.blocked entries = some e) : Cluster.addonNames entries = .error e := by
  unfold Step.blocked at h
  split at h
  · rw [← Option.some.inj h]
    assumption
  · exact absurd h nofun

theorem inOrder_eq (s t : Step) (d : Definition) : inOrder s t d =
    match s.blocked d.lab.entries, t.blocked d.lab.entries with
    | some e, _ => .error e
    | none, some e => .error e
    | none, none => .ok ((t.edit (s.edit d).1).1, (s.edit d).2, (t.edit (s.edit d).1).2) := by
  unfold inOrder
  rw [s.apply_eq_blocked]
  cases hs : s.blocked d.lab.entries with
  | some e => rfl
  | none =>
    change (t.apply (s.edit d).1 >>= fun r => .ok (r.1, (s.edit d).2, r.2)) = _
    rw [t.apply_eq_blocked, s.entries_edit]
    cases t.blocked d.lab.entries <;> rfl

/-- **The steps of different add-ons**, in either order. -/
theorem inOrder_comm {s t : Step} (h : s.name ≠ t.name) (d : Definition) :
    inOrder s t d = (inOrder t s d).map fun r => (r.1, r.2.2, r.2.1) := by
  rw [inOrder_eq, inOrder_eq]
  cases hs : s.blocked d.lab.entries with
  | some e =>
    cases ht : t.blocked d.lab.entries with
    | some e' =>
      have he := (Step.blocked_eq_some hs).symm.trans (Step.blocked_eq_some ht)
      rw [Except.error.inj he]
      rfl
    | none => rfl
  | none =>
    cases ht : t.blocked d.lab.entries with
    | some e => rfl
    | none =>
      obtain ⟨h₁, h₂, h₃⟩ := Step.commutes h d
      change Except.ok _ = Except.ok ((s.edit (t.edit d).1).1, (s.edit (t.edit d).1).2, (t.edit d).2)
      rw [h₁, h₂, h₃]

/-! ## The schemas in another order -/

/-- The steps the record names for a schema belong to it. -/
def Record.OwnSteps (record : Record) : Prop :=
  ∀ p ∈ record.schemas, ∀ e ∈ p.2, ∀ q ∈ migrations, e.step = some q.1 → q.2.schema = p.1

variable {record : Record} {d : Definition} {names names₁ names₂ : List Text}

/-- The pending migrations of a schema, none where they cannot be read. -/
def pendingList (record : Record) (d : Definition) (name : Text) : List Pending :=
  match pendingFor record d name with
  | .ok ps => ps
  | .error _ => []

theorem pendingOver_eq_ok_iff {ps : List Pending} : pendingOver record names d = .ok ps ↔
    (∀ name ∈ names, ∃ qs, pendingFor record d name = .ok qs) ∧
      ps = (names.map (pendingList record d)).flatten := by
  have hlist : ∀ {pss}, names.mapM (pendingFor record d) = .ok pss →
      pss = names.map (pendingList record d) := by
    induction names with
    | nil => exact fun h => (Except.ok.inj h).symm
    | cons name names ih =>
      intro pss h
      obtain ⟨qs, qss, hq, hqs, rfl⟩ := mapM_eq_ok_cons.mp h
      rw [List.map_cons, ← ih hqs, pendingList, hq]
  constructor
  · intro h
    obtain ⟨pss, hm, rfl⟩ := map_eq_ok.mp h
    exact ⟨mapM_isOk_iff.mp ⟨pss, hm⟩, congrArg List.flatten (hlist hm)⟩
  · rintro ⟨hok, rfl⟩
    obtain ⟨pss, hm⟩ := mapM_isOk_iff.mpr hok
    exact map_eq_ok.mpr ⟨pss, hm, congrArg List.flatten (hlist hm)⟩

/-- The migrations pending of a schema have steps the record names for it. -/
theorem pendingList_step {name : Text} {p : Pending} (h : p ∈ pendingList record d name) :
    ∃ es, (name, es) ∈ record.schemas ∧ ∃ e ∈ es, e.step = some p.step := by
  unfold pendingList at h
  cases hp : pendingFor record d name with
  | error e =>
    rw [hp] at h
    exact absurd h List.not_mem_nil
  | ok ps =>
    rw [hp] at h
    obtain ⟨_, _, hmem⟩ := pendingFor_eq_ok hp
    obtain ⟨e, he, step, _, hs, _, _, rfl⟩ := (hmem p).mp h
    obtain hnil | hm := entries_cases record name
    · rw [hnil] at he
      exact absurd he List.not_mem_nil
    · exact ⟨_, hm, e, he, hs⟩

/-- The migrations of different schemas that name their own steps commute. -/
theorem pendingList_commutes (ho : record.OwnSteps) {a b : Text} (hab : a ≠ b) :
    Edit.Commutes (Edit.run ((pendingList record d a).map Pending.edit))
      (Edit.run ((pendingList record d b).map Pending.edit)) := by
  refine Edit.Commutes.run fun e he => (Edit.Commutes.run fun f hf => ?_).symm
  obtain ⟨p, hp, rfl⟩ := List.mem_map.mp he
  obtain ⟨q, hq, rfl⟩ := List.mem_map.mp hf
  obtain hs | ⟨s, hs, hps, _⟩ := p.edit_cases
  · rw [hs]
    exact Edit.commutes_skip _
  · refine Pending.edit_commutes fun heq => hab ?_
    obtain ⟨_, hma, e, he, hse⟩ := pendingList_step hp
    obtain ⟨_, hmb, e', he', hse'⟩ := pendingList_step hq
    have ha := ho _ hma e he s hs (hse.trans (congrArg some hps))
    have hb := ho _ hmb e' he' s hs (hse'.trans (congrArg some (heq.trans hps)))
    exact ha.symm.trans hb

theorem applyAll_known {registry : List (Text × StepFunction)} {ps : List Pending} {d : Definition}
    {r : Definition × List Text} (h : applyAll registry ps d = .ok r) :
    ∀ p ∈ ps, p.step ∈ registry.map Prod.fst := by
  induction ps generalizing d r with
  | nil => exact fun _ hp => absurd hp List.not_mem_nil
  | cons p ps ih =>
    unfold applyAll at h
    cases hl : registry.lookup p.step with
    | none =>
      rw [hl] at h
      cases h
    | some f =>
      rw [hl] at h
      obtain ⟨_, _, h⟩ := bind_eq_ok.mp h
      obtain ⟨_, hrest, _⟩ := bind_eq_ok.mp h
      refine List.forall_mem_cons.mpr ⟨?_, ih hrest⟩
      obtain ⟨l₁, l₂, hreg, _⟩ := List.lookup_eq_some_iff.mp hl
      rw [hreg, List.map_append]
      exact List.mem_append_right _ List.mem_cons_self

/-- **A migration in another order of the schemas** leaves the same definition, and reports the same
changes up to order when each schema names steps of its own. -/
theorem migrateOver_perm (hw : Cluster.WellFormed d.lab.entries) (hp : names₁.Perm names₂)
    {d' : Definition} {changes : List Text}
    (h : migrateOver registered record names₁ d = .ok (d', changes)) :
    ∃ changes', migrateOver registered record names₂ d = .ok (d', changes') ∧
      (names₁.Nodup → record.OwnSteps → changes.Perm changes') := by
  obtain ⟨ps, hps, happly⟩ := bind_eq_ok.mp h
  obtain ⟨hok, rfl⟩ := pendingOver_eq_ok_iff.mp hps
  have hknown := applyAll_known happly
  rw [applyAll_eq hknown hw] at happly
  have hrun := Except.ok.inj happly
  have hperm : (names₁.map (pendingList record d)).flatten.Perm
      (names₂.map (pendingList record d)).flatten := (hp.map _).flatten
  have hps₂ : pendingOver record names₂ d = .ok (names₂.map (pendingList record d)).flatten :=
    pendingOver_eq_ok_iff.mpr ⟨fun name hn => hok name (hp.mem_iff.mpr hn), rfl⟩
  have hknown₂ : ∀ p ∈ (names₂.map (pendingList record d)).flatten,
      p.step ∈ registered.map Prod.fst := fun p hm => hknown p (hperm.mem_iff.mpr hm)
  have happly₂ := applyAll_eq hknown₂ hw
  have hstate : (Edit.run ((names₂.map (pendingList record d)).flatten.map Pending.edit) d).1 = d' := by
    refine (Edit.run_perm_state (hperm.map Pending.edit) ?_ d).symm.trans (congrArg Prod.fst hrun)
    intro e he f hf x
    obtain ⟨p, _, rfl⟩ := List.mem_map.mp he
    obtain ⟨q, _, rfl⟩ := List.mem_map.mp hf
    by_cases hpq : p.step = q.step
    · have hfst : ∀ x, (p.edit x).1 = (q.edit x).1 := by
        intro x
        unfold Pending.edit
        rw [hpq]
        cases migrations.lookup q.step <;> rfl
      rw [hfst x, hfst]
    · exact (Pending.edit_commutes hpq x).1
  refine ⟨(Edit.run ((names₂.map (pendingList record d)).flatten.map Pending.edit) d).2,
    bind_eq_ok.mpr ⟨_, hps₂, ?_⟩, fun hnd ho => ?_⟩
  · rw [happly₂, ← hstate]
  · have hblocks : ∀ ns : List Text, (Edit.run ((ns.map (pendingList record d)).flatten.map
        Pending.edit)) = Edit.run (ns.map fun n => Edit.run ((pendingList record d n).map
        Pending.edit)) := by
      intro ns
      rw [List.map_flatten, Edit.run_flatten, List.map_map, List.map_map]
      rfl
    obtain rfl : _ = changes := congrArg Prod.snd hrun
    rw [hblocks, hblocks]
    refine (Edit.run_perm (hp.map _) ?_ d).2
    rw [List.pairwise_map]
    exact hnd.imp fun hne => pendingList_commutes ho hne

/-- **The migration steps are independent.** Two steps of different schemas give the same definition in
either order and each reports the same; a step leaves everything but its own add-on's configurations,
or the ports; and a migration leaves the same in whatever order the schemas of the definition come. -/
theorem migrations_independent :
    (∀ p ∈ migrations, ∀ q ∈ migrations, p.2.schema ≠ q.2.schema → ∀ d,
      inOrder p.2 q.2 d = (inOrder q.2 p.2 d).map fun r => (r.1, r.2.2, r.2.1)) ∧
    (∀ p ∈ migrations, ∀ d d' changes, p.2.apply d = .ok (d', changes) → p.2.rest d' = p.2.rest d) ∧
    ∀ (record : Record) (d : Definition) (names : List Text), schemas d = .ok names →
      ∀ names₁ names₂ : List Text, names₁.Perm names → names₂.Perm names → ∀ d' changes,
        migrateOver registered record names₁ d = .ok (d', changes) →
          ∃ changes', migrateOver registered record names₂ d = .ok (d', changes') ∧
            (record.OwnSteps → changes.Perm changes') := by
  refine ⟨fun p hp q hq hne d => ?_, fun p _ d d' changes h => ?_, ?_⟩
  · refine inOrder_comm (step_name_ne hp hq fun e => hne ?_) d
    rw [List.inj_on_of_nodup_map migrations_names.1 hp hq e]
  · rw [show d' = (p.2.edit d).1 from congrArg Prod.fst (Step.apply_eq_ok h)]
    exact p.2.frame d
  · intro record d names hn names₁ names₂ hp₁ hp₂ d' changes h
    obtain ⟨changes', h', hc⟩ := migrateOver_perm (schemas_isOk_iff.mp ⟨names, hn⟩)
      (hp₁.trans hp₂.symm) h
    have hnd : names₁.Nodup := hp₁.nodup_iff.mpr (Cluster.schemasOf_nodup (mapError_eq_ok.mp hn))
    exact ⟨changes', h', hc hnd⟩

theorem migrations_independent_harbor_linkerd : ∀ d,
    inOrder (appcollectionDefault_2_0 "harbor".toList []) linkerd_2_0 d =
      (inOrder linkerd_2_0 (appcollectionDefault_2_0 "harbor".toList []) d).map
        fun r => (r.1, r.2.2, r.2.1) := by
  have hh : ("harbor_2_0".toList, appcollectionDefault_2_0 "harbor".toList []) ∈ migrations := by
    unfold migrations
    simp only [List.mem_cons, true_or, or_true]
  have hl : ("linkerd_2_0".toList, linkerd_2_0) ∈ migrations := by
    unfold migrations
    simp only [List.mem_cons, true_or, or_true]
  exact migrations_independent.1 _ hh _ hl (by decide)

end LabInABox.Schema
