import LabInABox.Schema.Steps

/-!
# The migration steps are independent

What each step of `MIGRATIONS` does is confined to its own add-on, or to the ports, and is done once.

Results:
* `Step.idempotent`: a step has nothing to do a second time.
* `Step.commutes`: the steps of different add-ons commute.
* `Step.frame`: a step leaves everything but its own add-on's configurations, or the ports.
* `Step.schemasOf_edit`: a step does not change the schemas the definition is written against.
-/

namespace LabInABox.Schema

open Text

/-! ## The passes of a step -/

/-- Two passes commute, whatever section the overrides inherit from. -/
def PassesCommute (a b : Config → Edit Text Config) : Prop :=
  (∀ x y, Edit.Commutes (a x) (b y)) ∧ (∀ x y, a x = a y) ∧ ∀ x y, b x = b y

/-- Each pass has nothing to do a second time, and the passes commute. -/
def Step.Regular : Step → Prop
  | configs _ passes => (∀ a ∈ passes, ∀ inh, Edit.Idempotent (a inh)) ∧ passes.Pairwise PassesCommute
  | _ => True

theorem regular_one {name : Text} {a : Config → Edit Text Config}
    (h : ∀ inh, Edit.Idempotent (a inh)) : (Step.configs name [a]).Regular :=
  ⟨List.forall_mem_singleton.mpr h, List.pairwise_singleton _ _⟩

theorem regular_drops {name : Text} {e : Edit Text Config} {keys : List Text} (h : Drops keys e) :
    (Step.configs name [fun _ => e]).Regular :=
  regular_one fun _ => h.idempotent

theorem regular_two_drops {name : Text} {e f : Edit Text Config} {keys keys' : List Text}
    (he : Drops keys e) (hf : Drops keys' f) (hd : ∀ key ∈ keys, key ∉ keys') :
    (Step.configs name [fun _ => e, fun _ => f]).Regular := by
  refine ⟨?_, List.pairwise_pair.mpr ⟨fun _ _ => he.commutes hf hd, fun _ _ => rfl, fun _ _ => rfl⟩⟩
  intro a ha inh
  rcases List.mem_cons.mp ha with rfl | ha
  · exact he.idempotent
  · obtain rfl := List.mem_singleton.mp ha
    exact hf.idempotent

theorem linkerdEdit_drops :
    Drops ["linkerd_repo_url".toList, "linkerd_rel".toList, "linkerd_version".toList] linkerdEdit :=
  ⟨[(_, _), (_, _), (_, _)], rfl, rfl⟩

theorem complianceascodeEdit_drops :
    Drops ["complianceascode_rel".toList, "complianceascode_repo_url".toList,
      "complianceascode_version".toList, "complianceascode_profile".toList] complianceascodeEdit :=
  ⟨[(_, _), (_, _), (_, _), (_, _)], rfl, rfl⟩

theorem trentoEdit_drops : Drops ["trento_admin".toList] trentoEdit := ⟨[(_, _)], rfl, rfl⟩

theorem litellm_regular (name : Text) : (litellm_2_0 name).Regular :=
  regular_drops (dropKeys_drops _ _)

theorem migrations_regular : ∀ p ∈ migrations, p.2.Regular := by
  unfold migrations
  simp only [List.forall_mem_cons, List.not_mem_nil, false_imp_iff, implies_true, and_true]
  have hd := fun name keys reason => @regular_drops name _ keys (dropKeys_drops keys reason)
  refine ⟨litellm_regular _, hd _ _ _, trivial, ?_, trivial, trivial, litellm_regular _, trivial,
    hd _ _ _, ?_, litellm_regular _, ?_, trivial, trivial, trivial, trivial, trivial,
    litellm_regular _, hd _ _ _, ?_, trivial, ?_⟩
  · exact regular_two_drops (dropKeys_drops _ _) complianceascodeEdit_drops (by decide)
  · exact regular_one fun _ => keycloakEdit_idempotent
  · exact regular_drops linkerdEdit_drops
  · exact regular_one rancherEdit_idempotent
  · exact regular_two_drops (dropKeys_drops _ _) trentoEdit_drops (by decide)

theorem configs_idempotent {name : Text} {passes : List (Config → Edit Text Config)}
    (h : (Step.configs name passes).Regular) : Edit.Idempotent (Step.configs name passes).edit := by
  have hcomm : ∀ {a b}, PassesCommute a b → Edit.Commutes (overConfigs name a) (overConfigs name b) :=
    fun hp => overConfigs_commutes fun _ => hp
  refine Edit.run_idempotent ?_ ?_
  · intro e he
    obtain ⟨a, ha, rfl⟩ := List.mem_map.mp he
    exact overConfigs_idempotent (h.1 a ha)
  · intro e he f hf
    obtain ⟨a, ha, rfl⟩ := List.mem_map.mp he
    obtain ⟨b, hb, rfl⟩ := List.mem_map.mp hf
    have hflip := List.Pairwise.forall_of_forall_of_flip
      (R := fun a b => Edit.Keeps (overConfigs name b) (overConfigs name a))
      (fun a _ => Edit.keeps_self _) (h.2.imp fun hp => (hcomm hp).keeps)
      (h.2.imp fun hp => (hcomm hp).symm.keeps)
    exact hflip ha hb

/-! ## The default source -/

/-- What the step looks at to tell whether the lab uses the add-on. -/
theorem uses_congr {d d' : Definition} {name : Text}
    (hl : d.sections.lookup name = d'.sections.lookup name) (he : d.lab.entries = d'.lab.entries) :
    d.uses name = d'.uses name := by
  unfold Definition.uses Definition.isConfig
  rw [hl, he]

theorem setSource_cases (name key : Text) (used : Bool) (d : Definition) :
    setSource name key used d = (d, []) ∧ (used = false ∨ (d.inherited name key).isSome = true) ∨
    (setSource name key used d).1.sections = d.sections.insert name
      (.config (Function.update (d.inherited name) key (some (.text "upstream".toList)))) ∧
      used = true ∧ d.inherited name key = none := by
  unfold setSource
  by_cases hc : used = false ∨ (d.inherited name key).isSome = true
  · exact Or.inl ⟨if_pos hc, hc⟩
  · refine Or.inr ⟨?_, ?_, ?_⟩
    · rw [if_neg hc]
    · exact Bool.of_not_eq_false fun h => hc (Or.inl h)
    · exact Option.not_isSome_iff_eq_none.mp fun h => hc (Or.inr h)

theorem setSource_rest (name key : Text) (used : Bool) (d : Definition) :
    (setSource name key used d).1.kclusters = d.kclusters ∧
      (setSource name key used d).1.nodes = d.nodes ∧
      (setSource name key used d).1.versions = d.versions := by
  unfold setSource
  dsimp only
  split <;> exact ⟨rfl, rfl, rfl⟩

theorem source_actsAt (name key : Text) : ActsAt name (Step.source name key).edit where
  rest d := setSource_rest name key _ d
  other d m hm := by
    change (setSource name key (d.uses name) d).1.sections.lookup m = _
    obtain ⟨he, _⟩ | ⟨he, _⟩ := setSource_cases name key (d.uses name) d
    · rw [he]
    · rw [he, Finmap.lookup_insert_of_ne _ hm]
  reads d d' hl he := by
    have hinh : d.inherited name = d'.inherited name := by
      unfold Definition.inherited
      rw [hl]
    change (setSource name key (d.uses name) d).1.sections.lookup name =
      (setSource name key (d'.uses name) d').1.sections.lookup name ∧
      (setSource name key (d.uses name) d).2 = (setSource name key (d'.uses name) d').2
    rw [uses_congr hl he]
    unfold setSource
    simp only [hinh]
    split
    · exact ⟨hl, rfl⟩
    · exact ⟨by rw [Finmap.lookup_insert, Finmap.lookup_insert], rfl⟩

theorem source_idempotent (name key : Text) : Edit.Idempotent (Step.source name key).edit := by
  intro d
  change Edit.Settled (Step.source name key).edit (setSource name key (d.uses name) d).1
  obtain ⟨he, _⟩ | ⟨he, _, _⟩ := setSource_cases name key (d.uses name) d
  · rw [he]
    exact he
  · refine if_pos (Or.inr ?_)
    have hinh : (setSource name key (d.uses name) d).1.inherited name =
        Function.update (d.inherited name) key (some (.text "upstream".toList)) := by
      unfold Definition.inherited
      rw [he, Finmap.lookup_insert]
      rfl
    rw [hinh, Function.update_self]
    rfl

/-! ## The ports -/

theorem editFields_idempotent {e : Edit Text Config} (h : Edit.Idempotent e) :
    Edit.Idempotent (Owner.editFields e) := fun o =>
  Prod.ext (congrArg (fun c => { o with fields := c }) (h o.fields).fst) (h o.fields).snd

theorem editFields_commutes_edit (e f : Edit Text Config) (name : Text) :
    Edit.Commutes (Owner.editFields e) (Owner.edit name f) := fun _ => ⟨rfl, rfl, rfl⟩

theorem portsNodes_actsOnOwners (n : Text) :
    ActsOnOwners n (onOwners (fun _ => Edit.skip) fun name =>
      Owner.editFields (portsEdit ("nodes.".toList ++ name))) :=
  actsOnOwners_onOwners (fun _ _ => rfl) fun _ _ => rfl

theorem portsWalk_idempotent : Edit.Idempotent portsWalk := by
  refine Edit.Idempotent.andThen (onSection_idempotent (Section.edit_idempotent portsEdit_idempotent))
    (onOwners_idempotent (fun _ => Edit.skip_idempotent) fun _ =>
      editFields_idempotent portsEdit_idempotent) ?_
  exact (onSection_onOwners_commutes _ _ _).keeps

theorem overOverrides_commutes_ports (n : Text) (a : Config → Edit Text Config) :
    Edit.Commutes (overOverrides n a) (onOwners (fun _ => Edit.skip) fun name =>
      Owner.editFields (portsEdit ("nodes.".toList ++ name))) := fun d =>
  onOwners_commutes (fun _ => Edit.commutes_skip _)
    (fun _ => (editFields_commutes_edit _ _ n).symm) d

theorem overConfigs_commutes_ports {n : Text} (a : Config → Edit Text Config)
    (h : n ≠ "common".toList) : Edit.Commutes (overConfigs n a) portsWalk := by
  unfold portsWalk
  refine Edit.Commutes.andThen (Edit.Commutes.andThen ?_ ?_).symm (Edit.Commutes.andThen ?_ ?_).symm
  · exact onSection_commutes fun e => absurd e.symm h
  · exact (onSection_onOwners_commutes _ _ _).symm
  · exact ((actsAt_onSection "common".toList _).commutes_owners
      (actsOnOwners_overOverrides n a) (Ne.symm h))
  · exact (overOverrides_commutes_ports n a).symm

/-! ## The steps -/

/-- **A step has nothing to do a second time.** -/
theorem Step.idempotent {s : Step} (h : s.Regular) : Edit.Idempotent s.edit := by
  cases s with
  | configs name passes => exact configs_idempotent h
  | source name key => exact source_idempotent name key
  | openPorts => exact portsWalk_idempotent

/-- **The steps of different add-ons commute.** -/
theorem Step.commutes {s t : Step} (h : s.name ≠ t.name) : Edit.Commutes s.edit t.edit := by
  -- the walks of a `configs` step, against any edit that commutes with each walk
  have hconfigs : ∀ {name passes} {f : Edit Text Definition},
      (∀ a, Edit.Commutes (overConfigs name a) f) →
        Edit.Commutes (Step.configs name passes).edit f := by
    intro name passes f hf
    refine Edit.Commutes.run fun e he => ?_
    obtain ⟨a, _, rfl⟩ := List.mem_map.mp he
    exact hf a
  have hsource : ∀ {name key n} (a : Config → Edit Text Config), name ≠ n →
      Edit.Commutes (overConfigs n a) (Step.source name key).edit := by
    intro name key n a hne
    refine Edit.Commutes.andThen ?_ ?_
    · exact ((source_actsAt name key).commutes (actsAt_onSection n _) hne).symm
    · exact ((source_actsAt name key).commutes_owners (actsOnOwners_overOverrides n a) hne).symm
  have hports : ∀ {name key}, name ≠ "common".toList →
      Edit.Commutes (Step.source name key).edit portsWalk := by
    intro name key hne
    refine (Edit.Commutes.andThen ?_ ?_).symm
    · exact ((source_actsAt name key).commutes (actsAt_onSection _ _) hne).symm
    · exact ((source_actsAt name key).commutes_owners (portsNodes_actsOnOwners "common".toList)
        hne).symm
  cases s with
  | configs n as =>
    refine hconfigs fun a => ?_
    cases t with
    | configs m bs =>
      exact (hconfigs fun b => overConfigs_commutes fun e => absurd e.symm h).symm
    | source m key => exact hsource a (Ne.symm h)
    | openPorts => exact overConfigs_commutes_ports a h
  | source n key =>
    cases t with
    | configs m bs => exact (hconfigs fun b => hsource b h).symm
    | source m key' => exact (source_actsAt n key).commutes (source_actsAt m key') h
    | openPorts => exact hports h
  | openPorts =>
    cases t with
    | configs m bs => exact (hconfigs fun b => overConfigs_commutes_ports b (Ne.symm h)).symm
    | source m key => exact (hports (Ne.symm h)).symm
    | openPorts => exact absurd rfl h

/-! ## What a step leaves -/

/-- A configuration without its lists of ports. -/
def dropPorts (cfg : Config) : Config := fun key =>
  if key = "open_ports".toList ∨ key = "aws_open_ports".toList then none else cfg key

/-- A section without its lists of ports. -/
def Section.dropPorts : Section → Section
  | config c => config (Schema.dropPorts c)
  | plain v => plain v

/-- The definition without the lists of ports of `common` and of the nodes. -/
def Definition.withoutPorts (d : Definition) : Definition where
  sections :=
    match d.sections.lookup "common".toList with
    | none => d.sections
    | some sec => d.sections.insert "common".toList sec.dropPorts
  kclusters := d.kclusters
  nodes := d.nodes.map fun n => (n.1, { n.2 with fields := dropPorts n.2.fields })
  versions := d.versions
  nodup_kclusters := d.nodup_kclusters
  nodup_nodes := by
    rw [List.map_map]
    exact d.nodup_nodes

/-- The definition without what a step may change: its own add-on's configurations, or the ports. -/
def Step.rest : Step → Definition → Definition
  | configs name _, d => d.without name
  | source name _, d => d.without name
  | openPorts, d => d.withoutPorts

theorem dropPorts_portsEdit (place : Text) (cfg : Config) :
    dropPorts (portsEdit place cfg).1 = dropPorts cfg := by
  funext k
  unfold dropPorts
  by_cases hk : k = "open_ports".toList ∨ k = "aws_open_ports".toList
  · rw [if_pos hk, if_pos hk]
  · rw [if_neg hk, if_neg hk]
    rw [not_or] at hk
    have hfst : ∀ key c, k ≠ key → (listPorts place key c).1 k = c k := fun key c hne =>
      (onField_fst_apply c k).resolve_right fun h => hne h.1
    exact (hfst _ _ hk.2).trans (hfst _ _ hk.1)

theorem withoutPorts_portsWalk (d : Definition) :
    (portsWalk d).1.withoutPorts = d.withoutPorts := by
  have hs := onSection_rest "common".toList (Section.edit (portsEdit "common".toList)) d
  have hsec : ∀ x : Definition, ∀ k, x.withoutPorts.sections.lookup k =
      if k = "common".toList then (x.sections.lookup k).map Section.dropPorts
      else x.sections.lookup k := by
    intro x k
    unfold Definition.withoutPorts
    by_cases hk : k = "common".toList
    · subst hk
      cases hl : x.sections.lookup "common".toList with
      | none => simp only [hl, if_true, Option.map_none]
      | some sec => simp only [if_true, Finmap.lookup_insert, Option.map_some]
    · cases hl : x.sections.lookup "common".toList with
      | none => simp only [if_neg hk]
      | some sec => simp only [if_neg hk, Finmap.lookup_insert_of_ne _ hk]
  refine Definition.ext_lookup (fun k => ?_) ⟨(List.map_id _).trans hs.1, ?_, hs.2.2⟩
  · rw [hsec, hsec]
    change (if k = "common".toList then
      ((onSection "common".toList _ d).1.sections.lookup k).map Section.dropPorts
      else (onSection "common".toList _ d).1.sections.lookup k) = _
    rw [lookup_onSection]
    by_cases hk : k = "common".toList
    · subst hk
      simp only [if_true]
      cases d.sections.lookup "common".toList with
      | none => rfl
      | some sec =>
        cases sec with
        | config c => exact congrArg (fun c => some (Section.config c)) (dropPorts_portsEdit _ c)
        | plain v => rfl
    · simp only [if_neg hk]
  · refine (map_owners_edit (fun o => { o with fields := dropPorts o.fields }) _ (fun k o => ?_)
      _).trans ?_
    · exact congrArg (fun c => { o with fields := c }) (dropPorts_portsEdit _ o.fields)
    · rw [hs.2.1]
      rfl

theorem configs_preserves {β : Type*} {name : Text} {passes : List (Config → Edit Text Config)}
    (g : Definition → β) (h : ∀ a d, g (overConfigs name a d).1 = g d) (d : Definition) :
    g ((Step.configs name passes).edit d).1 = g d := by
  unfold Step.edit
  induction passes generalizing d with
  | nil => rfl
  | cons a passes ih => exact (ih _).trans (h a d)

theorem without_setSource (name key : Text) (used : Bool) (d : Definition) :
    (setSource name key used d).1.without name = d.without name := by
  have hr := setSource_rest name key used d
  refine Definition.ext ?_ ?_ ?_ hr.2.2
  · change (setSource name key used d).1.sections.erase name = d.sections.erase name
    obtain ⟨he, _⟩ | ⟨he, _⟩ := setSource_cases name key used d
    · rw [he]
    · refine Finmap.ext_lookup fun m => ?_
      by_cases hm : m = name
      · rw [hm, Finmap.lookup_erase, Finmap.lookup_erase]
      · rw [Finmap.lookup_erase_ne hm, Finmap.lookup_erase_ne hm, he,
          Finmap.lookup_insert_of_ne _ hm]
  · exact congrArg (List.map _) hr.1
  · exact congrArg (List.map _) hr.2.1

/-- **A step leaves** everything but its own add-on's configurations, or the ports. -/
theorem Step.frame (s : Step) (d : Definition) : s.rest (s.edit d).1 = s.rest d := by
  cases s with
  | configs name passes => exact configs_preserves _ (fun _ => without_overConfigs) d
  | source name key => exact without_setSource name key _ d
  | openPorts => exact withoutPorts_portsWalk d

theorem Step.versions_edit (s : Step) (d : Definition) : (s.edit d).1.versions = d.versions := by
  have h := congrArg Definition.versions (s.frame d)
  cases s <;> exact h

/-! ## The schemas -/

theorem Step.entries_edit (s : Step) (d : Definition) :
    (s.edit d).1.lab.entries = d.lab.entries := by
  cases s with
  | configs name passes =>
    exact configs_preserves (fun d => d.lab.entries) (fun _ => lab_entries_overConfigs) d
  | source name key => exact (source_actsAt name key).entries d
  | openPorts =>
    exact ((portsNodes_actsOnOwners "common".toList).entries _).trans
      ((actsAt_onSection "common".toList _).entries d)

theorem isConfig_setSource {name key : Text} {d : Definition} (n : Text) :
    (setSource name key (d.uses name) d).1.isConfig n = true ↔
      d.isConfig n = true ∨ (n = name ∧ d.inherited name key = none ∧ d.uses name = true) := by
  obtain ⟨he, hc⟩ | ⟨he, hu, hk⟩ := setSource_cases name key (d.uses name) d
  · rw [he]
    refine ⟨Or.inl, fun h => h.resolve_right ?_⟩
    rintro ⟨rfl, h, hu⟩
    rw [hu, h] at hc
    exact absurd hc (by decide)
  · unfold Definition.isConfig
    rw [he]
    by_cases hn : n = name
    · subst hn
      rw [Finmap.lookup_insert]
      exact ⟨fun _ => Or.inr ⟨rfl, hk, hu⟩, fun _ => rfl⟩
    · rw [Finmap.lookup_insert_of_ne _ hn]
      exact ⟨Or.inl, fun h => h.resolve_right fun h => hn h.1⟩

/-- **A step does not change the schemas** the definition is written against: the section it creates is
that of an add-on with an entry in a list. -/
theorem Step.schemasOf_edit (s : Step) (d : Definition) :
    Cluster.schemasOf (s.edit d).1.lab = Cluster.schemasOf d.lab := by
  refine Cluster.schemasOf_congr (s.entries_edit d) fun n => ?_
  rw [s.entries_edit, mem_lab_sections, mem_lab_sections]
  cases s with
  | configs name passes =>
    rw [show ((Step.configs name passes).edit d).1.isConfig n = d.isConfig n from
      configs_preserves (fun d => d.isConfig n) (fun _ _ => isConfig_onSection _ _ n) d]
  | source name key =>
    have hc := @isConfig_setSource name key d n
    change _ ∨ (setSource name key (d.uses name) d).1.isConfig n = true ↔ _
    rw [hc]
    refine ⟨fun h => h.elim Or.inl fun h => h.elim Or.inr ?_, fun h => h.imp_right Or.inl⟩
    rintro ⟨rfl, _, hu⟩
    unfold Definition.uses at hu
    rw [Bool.or_eq_true, decide_eq_true_eq] at hu
    exact hu.symm
  | openPorts =>
    rw [show (Step.openPorts.edit d).1.isConfig n = d.isConfig n from isConfig_onSection _ _ n]

/-! ## Steps that are carried out -/

theorem Step.apply_eq (s : Step) {d : Definition} (h : Cluster.WellFormed d.lab.entries) :
    s.apply d = .ok (s.edit d) := by
  cases s with
  | configs name passes => rfl
  | openPorts => rfl
  | source name key =>
    obtain ⟨names, hn⟩ := Cluster.addonNames_isOk_iff.mpr h
    have huses : (d.isConfig name || decide (name ∈ names)) = d.uses name :=
      congrArg _ (decide_eq_decide.mpr (Cluster.mem_addonNames hn))
    change (Cluster.addonNames d.lab.entries).map _ = .ok (setSource name key (d.uses name) d)
    rw [hn, ← huses]
    rfl

theorem Step.apply_eq_error {name key : Text} {d : Definition} {e : Cluster.Die}
    (h : Cluster.addonNames d.lab.entries = .error e) : (source name key).apply d = .error e := by
  unfold Step.apply
  rw [h]
  rfl

/-- A step carried out does what its edit does. -/
theorem Step.apply_eq_ok {s : Step} {d : Definition} {r : Definition × List Text}
    (h : s.apply d = .ok r) : r = s.edit d := by
  cases s with
  | configs name passes => exact (Except.ok.inj h).symm
  | openPorts => exact (Except.ok.inj h).symm
  | source name key =>
    cases hn : Cluster.addonNames d.lab.entries with
    | error e =>
      rw [Step.apply_eq_error hn] at h
      exact absurd h nofun
    | ok names =>
      rw [Step.apply_eq _ (Cluster.addonNames_isOk_iff.mp ⟨names, hn⟩)] at h
      exact (Except.ok.inj h).symm

end LabInABox.Schema
