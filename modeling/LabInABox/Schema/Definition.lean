import Mathlib.Data.Finmap
import Mathlib.Data.Finset.Sort
import LabInABox.Cluster.Addons
import LabInABox.Edit

/-!
# A lab definition, as the migrations see it

Model of the data `libs/migrations.py` rewrites: the top-level sections, the kclusters and nodes with
their fields and the overrides in their add-on lists, and the versions the file records. The edits here
are the walks the steps share (`_section_configs`, and the walk over `common` and the nodes).

* A mapping whose order is never read is a function of its keys (`Config`), or a finite map where its
  keys are collected (`Definition.sections`), so that equal mappings are equal. The kclusters, the nodes
  and the add-on lists keep their order: the reported changes follow it.
* A value is a text, or anything else by what `str` and `bool` make of it. `ports` is the list of ports
  a step writes.
* `schema_versions`, `kclusters` and `nodes` are fields of their own; no add-on section has their name.

Results:
* `overConfigs_commutes`: edits of the configurations of different add-ons commute.
* `overConfigs_idempotent`: an edit that is idempotent at each configuration is idempotent.
* `without_overConfigs`, `entries_overConfigs`: such an edit leaves everything but the add-on's own
  configurations, and every name in the add-on lists.
-/

namespace LabInABox.Schema

open Text

/-! ## The definition -/

/-- A value of a configuration. -/
inductive Value
  | text (t : Text)
  | ports (items : List Text)
  | other (shown : Text) (truthy : Bool)
  deriving DecidableEq

/-- `str(value)`. -/
def Value.str : Value → Text
  | text t => t
  | ports items => '[' :: ", ".toList.intercalate (items.map fun i => '\'' :: i ++ ['\'']) ++ [']']
  | other shown _ => shown

/-- `bool(value)`. -/
def Value.truthy : Value → Bool
  | text t => t ≠ []
  | ports items => items ≠ []
  | other _ truthy => truthy

/-- A mapping of names to values. -/
abbrev Config := Text → Option Value

/-- A value that may be a mapping. -/
inductive Section
  | config (c : Config)
  | plain (v : Value)

/-- The mapping, empty for any other value. -/
def Section.toConfig : Section → Config
  | config c => c
  | plain _ => fun _ => none

/-- An entry of an add-on list, with the overrides it carries. -/
inductive AddonEntry
  | plain (addon : Text)
  | mapping (items : List (Text × Section))

/-- The entry, by its names. -/
def AddonEntry.entry : AddonEntry → Cluster.Entry
  | plain addon => .plain addon
  | mapping items => .mapping (items.map Prod.fst)

/-- A kcluster or a node: its fields and its add-on list. -/
structure Owner where
  fields : Config
  addons : List AddonEntry

/-- A lab definition. -/
@[ext]
structure Definition where
  sections : Finmap fun _ : Text => Section
  kclusters : List (Text × Owner)
  nodes : List (Text × Owner)
  versions : Text → Option Text
  nodup_kclusters : (kclusters.map Prod.fst).Nodup
  nodup_nodes : (nodes.map Prod.fst).Nodup

/-- `isinstance(definition.get(name), dict)`. -/
def Definition.isConfig (d : Definition) (name : Text) : Bool :=
  match d.sections.lookup name with
  | some (.config _) => true
  | _ => false

/-- The names of an add-on list. -/
def Owner.entries (o : Owner) : List Cluster.Entry := o.addons.map AddonEntry.entry

/-- The add-on lists and sections of the definition. -/
def Definition.lab (d : Definition) : Cluster.Lab where
  kclusters := d.kclusters.map fun k => (k.1, ⟨[], k.2.entries⟩)
  nodes := d.nodes.map fun n => (n.1, ⟨none, [], none, n.2.entries⟩)
  sections := (d.sections.keys.filter fun name => d.isConfig name = true).sort
  nodup_kclusters := by
    rw [List.map_map]
    exact d.nodup_kclusters
  nodup_nodes := by
    rw [List.map_map]
    exact d.nodup_nodes

/-! ## Walks that edit -/

/-- The edit of a mapping; any other value is left. -/
def Section.edit (e : Edit Text Config) : Edit Text Section
  | config c => (config (e c).1, (e c).2)
  | plain v => (plain v, [])

/-- The edit of the override of one add-on in an entry. -/
def AddonEntry.edit (name : Text) (e : Edit Text Config) : Edit Text AddonEntry
  | plain addon => (plain addon, [])
  | mapping items =>
    let r := Edit.list (Edit.onKey name (Section.edit e)) items
    (mapping r.1, r.2)

/-- The edit of the overrides of one add-on in an add-on list. -/
def Owner.edit (name : Text) (e : Edit Text Config) : Edit Text Owner := fun o =>
  let r := Edit.list (AddonEntry.edit name e) o.addons
  ({ o with addons := r.1 }, r.2)

/-- The edit of a top-level section. -/
def onSection (name : Text) (s : Edit Text Section) : Edit Text Definition := fun d =>
  match d.sections.lookup name with
  | none => (d, [])
  | some sec => ({ d with sections := d.sections.insert name (s sec).1 }, (s sec).2)

/-- The edit of the kclusters and then of the nodes. -/
def onOwners (f g : Text → Edit Text Owner) : Edit Text Definition := fun d =>
  let ks := Edit.list (Edit.values f) d.kclusters
  let ns := Edit.list (Edit.values g) d.nodes
  ({ d with
      kclusters := ks.1
      nodes := ns.1
      nodup_kclusters := by rw [Edit.map_fst_values]; exact d.nodup_kclusters
      nodup_nodes := by rw [Edit.map_fst_values]; exact d.nodup_nodes }, ks.2 ++ ns.2)

/-- The section of an add-on, which its overrides inherit from. -/
def Definition.inherited (d : Definition) (name : Text) : Config :=
  match d.sections.lookup name with
  | none => fun _ => none
  | some sec => sec.toConfig

/-- The edit of every override of an add-on, given the add-on's section. -/
def overOverrides (name : Text) (e : Config → Edit Text Config) : Edit Text Definition := fun d =>
  let o := fun _ : Text => Owner.edit name (e (d.inherited name))
  onOwners o o d

/-- The walk of `_section_configs` and `_rancher_configs`: the section of an add-on, then every override
of it. -/
def overConfigs (name : Text) (e : Config → Edit Text Config) : Edit Text Definition :=
  Edit.andThen (onSection name (Section.edit (e fun _ => none))) (overOverrides name e)

/-! ## Everything but one add-on -/

/-- The entry with the override of an add-on blanked. -/
def AddonEntry.without (name : Text) : AddonEntry → AddonEntry
  | plain addon => plain addon
  | mapping items => mapping (items.map fun p =>
      (p.1, if p.1 = name then Section.plain (.other [] false) else p.2))

/-- The owner with the overrides of an add-on blanked. -/
def Owner.without (name : Text) (o : Owner) : Owner :=
  { o with addons := o.addons.map (AddonEntry.without name) }

/-- The definition without the section of an add-on, its overrides blanked. -/
def Definition.without (name : Text) (d : Definition) : Definition where
  sections := d.sections.erase name
  kclusters := d.kclusters.map fun k => (k.1, k.2.without name)
  nodes := d.nodes.map fun n => (n.1, n.2.without name)
  versions := d.versions
  nodup_kclusters := by
    rw [List.map_map]
    exact d.nodup_kclusters
  nodup_nodes := by
    rw [List.map_map]
    exact d.nodup_nodes

/-! ## Facts about the walks -/

section Walks

variable {e f : Edit Text Config} {n m : Text}

theorem Section.edit_idempotent (h : Edit.Idempotent e) : Edit.Idempotent (Section.edit e)
  | config c => congrArg (fun r : Config × List Text => (config r.1, r.2)) (h c)
  | plain _ => rfl

theorem Section.edit_commutes (h : Edit.Commutes e f) :
    Edit.Commutes (Section.edit e) (Section.edit f)
  | config c => ⟨congrArg config (h c).1, (h c).2⟩
  | plain _ => ⟨rfl, rfl, rfl⟩

theorem AddonEntry.edit_idempotent (h : Edit.Idempotent e) : Edit.Idempotent (AddonEntry.edit n e)
  | plain _ => rfl
  | mapping items =>
    congrArg (fun r : List (Text × Section) × List Text => (mapping r.1, r.2))
      (Edit.list_idempotent (Edit.onKey_idempotent (Section.edit_idempotent h)) items)

theorem AddonEntry.edit_commutes (h : n = m → Edit.Commutes e f) :
    Edit.Commutes (AddonEntry.edit n e) (AddonEntry.edit m f)
  | plain _ => ⟨rfl, rfl, rfl⟩
  | mapping items =>
    have hl := Edit.list_commutes (Edit.onKey_commutes fun hn => Section.edit_commutes (h hn)) items
    ⟨congrArg mapping hl.1, hl.2⟩

theorem AddonEntry.entry_edit (a : AddonEntry) : (AddonEntry.edit n e a).1.entry = a.entry := by
  cases a with
  | plain addon => rfl
  | mapping items => exact congrArg Cluster.Entry.mapping (Edit.map_fst_values _ _)

theorem Owner.edit_idempotent (h : Edit.Idempotent e) : Edit.Idempotent (Owner.edit n e) := fun o =>
  have hl := Edit.list_idempotent (AddonEntry.edit_idempotent h) o.addons
  Prod.ext (congrArg (Owner.mk o.fields) hl.fst) hl.snd

theorem Owner.edit_commutes (h : n = m → Edit.Commutes e f) :
    Edit.Commutes (Owner.edit n e) (Owner.edit m f) := fun o =>
  have hl := Edit.list_commutes (AddonEntry.edit_commutes h) o.addons
  ⟨congrArg (fun addons => { o with addons := addons }) hl.1, hl.2⟩

theorem Owner.entries_edit (o : Owner) : (Owner.edit n e o).1.entries = o.entries := by
  unfold Owner.entries Owner.edit Edit.list
  rw [List.map_map]
  exact List.map_congr_left fun a _ => AddonEntry.entry_edit a

/-! ### The sections -/

theorem lookup_onSection (n : Text) (s : Edit Text Section) (d : Definition) (m : Text) :
    (onSection n s d).1.sections.lookup m =
      if m = n then (d.sections.lookup n).map fun sec => (s sec).1 else d.sections.lookup m := by
  unfold onSection
  cases hl : d.sections.lookup n with
  | none =>
    by_cases hm : m = n
    · rw [if_pos hm, hm, hl]
      rfl
    · rw [if_neg hm]
  | some sec =>
    by_cases hm : m = n
    · rw [if_pos hm, hm]
      exact Finmap.lookup_insert _
    · rw [if_neg hm]
      exact Finmap.lookup_insert_of_ne _ hm

theorem onSection_changes (n : Text) (s : Edit Text Section) (d : Definition) :
    (onSection n s d).2 = ((d.sections.lookup n).map fun sec => (s sec).2).getD [] := by
  unfold onSection
  cases d.sections.lookup n <;> rfl

/-- The rest of the definition is left. -/
theorem onSection_rest (n : Text) (s : Edit Text Section) (d : Definition) :
    (onSection n s d).1.kclusters = d.kclusters ∧ (onSection n s d).1.nodes = d.nodes ∧
      (onSection n s d).1.versions = d.versions := by
  unfold onSection
  cases d.sections.lookup n <;> exact ⟨rfl, rfl, rfl⟩

/-- Two definitions are equal when all that is read of them is. -/
theorem Definition.ext_lookup {d d' : Definition}
    (hs : ∀ m, d.sections.lookup m = d'.sections.lookup m)
    (hr : d.kclusters = d'.kclusters ∧ d.nodes = d'.nodes ∧ d.versions = d'.versions) : d = d' :=
  Definition.ext (Finmap.ext_lookup hs) hr.1 hr.2.1 hr.2.2

/-- An edit of one section, which reads besides it the names in the add-on lists only. -/
structure ActsAt (n : Text) (E : Edit Text Definition) : Prop where
  rest : ∀ d, (E d).1.kclusters = d.kclusters ∧ (E d).1.nodes = d.nodes ∧
    (E d).1.versions = d.versions
  other : ∀ d m, m ≠ n → (E d).1.sections.lookup m = d.sections.lookup m
  reads : ∀ d d', d.sections.lookup n = d'.sections.lookup n → d.lab.entries = d'.lab.entries →
    (E d).1.sections.lookup n = (E d').1.sections.lookup n ∧ (E d).2 = (E d').2

/-- An edit of the kclusters and nodes, which reads besides them one section only. -/
structure ActsOnOwners (n : Text) (F : Edit Text Definition) : Prop where
  rest : ∀ d, (F d).1.sections = d.sections ∧ (F d).1.versions = d.versions
  entries : ∀ d, (F d).1.lab.entries = d.lab.entries
  reads : ∀ d d', d.kclusters = d'.kclusters → d.nodes = d'.nodes →
    d.sections.lookup n = d'.sections.lookup n →
      (F d).1.kclusters = (F d').1.kclusters ∧ (F d).1.nodes = (F d').1.nodes ∧ (F d).2 = (F d').2

theorem entries_eq_of_owners {d d' : Definition} (hk : d.kclusters = d'.kclusters)
    (hn : d.nodes = d'.nodes) : d.lab.entries = d'.lab.entries := by
  unfold Cluster.Lab.entries Definition.lab
  simp only [hk, hn]

theorem ActsAt.entries {E : Edit Text Definition} (h : ActsAt n E) (d : Definition) :
    (E d).1.lab.entries = d.lab.entries :=
  entries_eq_of_owners (h.rest d).1 (h.rest d).2.1

/-- **Edits of different sections commute.** -/
theorem ActsAt.commutes {E F : Edit Text Definition} (hE : ActsAt n E) (hF : ActsAt m F)
    (h : n ≠ m) : Edit.Commutes E F := by
  intro d
  have hEn := hE.reads (F d).1 d (hF.other d n h) (hF.entries d)
  have hFm := hF.reads (E d).1 d (hE.other d m (Ne.symm h)) (hE.entries d)
  refine ⟨Definition.ext_lookup (fun k => ?_) ?_, hEn.2, hFm.2⟩
  · by_cases hk : k = n
    · subst hk
      rw [hF.other _ k h, hEn.1]
    · rw [hE.other (F d).1 k hk]
      by_cases hkm : k = m
      · subst hkm
        rw [hFm.1]
      · rw [hF.other _ k hkm, hE.other d k hk, hF.other d k hkm]
  · obtain ⟨h₁, h₂, h₃⟩ := hE.rest d
    obtain ⟨g₁, g₂, g₃⟩ := hF.rest d
    obtain ⟨i₁, i₂, i₃⟩ := hE.rest (F d).1
    obtain ⟨j₁, j₂, j₃⟩ := hF.rest (E d).1
    exact ⟨(j₁.trans h₁).trans (i₁.trans g₁).symm, (j₂.trans h₂).trans (i₂.trans g₂).symm,
      (j₃.trans h₃).trans (i₃.trans g₃).symm⟩

/-- **An edit of a section and one of the owners** that does not read it commute. -/
theorem ActsAt.commutes_owners {E F : Edit Text Definition} (hE : ActsAt n E)
    (hF : ActsOnOwners m F) (h : n ≠ m) : Edit.Commutes E F := by
  intro d
  have hEn := hE.reads (F d).1 d (by rw [(hF.rest d).1]) (hF.entries d)
  obtain ⟨hk, hn, hc⟩ := hF.reads (E d).1 d (hE.rest d).1 (hE.rest d).2.1
    (hE.other d m (Ne.symm h))
  obtain ⟨i₁, i₂, i₃⟩ := hE.rest (F d).1
  refine ⟨Definition.ext_lookup (fun k => ?_) ?_, hEn.2, hc⟩
  · rw [(hF.rest (E d).1).1]
    by_cases hkn : k = n
    · rw [hkn, hEn.1]
    · rw [hE.other d k hkn, hE.other (F d).1 k hkn, (hF.rest d).1]
  · exact ⟨hk.trans i₁.symm, hn.trans i₂.symm,
      ((hF.rest (E d).1).2.trans (hE.rest d).2.2).trans (i₃.trans (hF.rest d).2).symm⟩

theorem actsAt_onSection (n : Text) (s : Edit Text Section) : ActsAt n (onSection n s) where
  rest := onSection_rest n s
  other d m hm := by rw [lookup_onSection, if_neg hm]
  reads d d' hl _ := by
    rw [lookup_onSection, lookup_onSection, onSection_changes, onSection_changes, hl]
    exact ⟨rfl, rfl⟩

theorem onSection_idempotent {s : Edit Text Section} (h : Edit.Idempotent s) :
    Edit.Idempotent (onSection n s) := by
  intro d
  have hn : (onSection n s d).1.sections.lookup n =
      (d.sections.lookup n).map fun sec => (s sec).1 := by
    rw [lookup_onSection, if_pos rfl]
  refine Prod.ext (Definition.ext_lookup (fun m => ?_) (onSection_rest n s _)) ?_
  · rw [lookup_onSection]
    by_cases hm : m = n
    · rw [if_pos hm, hm, hn, Option.map_map]
      cases d.sections.lookup n with
      | none => rfl
      | some sec => exact congrArg some (h sec).fst
    · rw [if_neg hm]
  · rw [onSection_changes, hn]
    cases d.sections.lookup n with
    | none => rfl
    | some sec => exact (h sec).snd

theorem onSection_commutes {s t : Edit Text Section} (h : n = m → Edit.Commutes s t) :
    Edit.Commutes (onSection n s) (onSection m t) := by
  by_cases hnm : n = m
  swap
  · exact (actsAt_onSection n s).commutes (actsAt_onSection m t) hnm
  subst hnm
  have hc := h rfl
  intro d
  refine ⟨Definition.ext_lookup (fun k => ?_) ?_, ?_, ?_⟩
  · simp only [lookup_onSection]
    by_cases hk : k = n
    · simp only [if_pos hk, if_true, Option.map_map]
      cases d.sections.lookup n with
      | none => rfl
      | some sec => exact congrArg some (hc sec).1
    · simp only [if_neg hk]
  · have hrest : ∀ (u v : Edit Text Section),
        (onSection n u (onSection n v d).1).1.kclusters = d.kclusters ∧
        (onSection n u (onSection n v d).1).1.nodes = d.nodes ∧
        (onSection n u (onSection n v d).1).1.versions = d.versions := by
      intro u v
      obtain ⟨h₁, h₂, h₃⟩ := onSection_rest n u (onSection n v d).1
      obtain ⟨g₁, g₂, g₃⟩ := onSection_rest n v d
      exact ⟨h₁.trans g₁, h₂.trans g₂, h₃.trans g₃⟩
    obtain ⟨h₁, h₂, h₃⟩ := hrest t s
    obtain ⟨g₁, g₂, g₃⟩ := hrest s t
    exact ⟨h₁.trans g₁.symm, h₂.trans g₂.symm, h₃.trans g₃.symm⟩
  all_goals
    simp only [onSection_changes, lookup_onSection, if_true, Option.map_map]
    cases d.sections.lookup n with
    | none => rfl
    | some sec => first | exact (hc sec).2.1 | exact (hc sec).2.2

/-! ### The owners -/

theorem onOwners_idempotent {f g : Text → Edit Text Owner} (hf : ∀ k, Edit.Idempotent (f k))
    (hg : ∀ k, Edit.Idempotent (g k)) : Edit.Idempotent (onOwners f g) := by
  intro d
  have hk := Edit.list_idempotent (Edit.values_idempotent hf) d.kclusters
  have hn := Edit.list_idempotent (Edit.values_idempotent hg) d.nodes
  refine Prod.ext (Definition.ext rfl ?_ ?_ rfl) ?_
  · exact hk.fst
  · exact hn.fst
  · exact congrArg₂ (· ++ ·) hk.snd hn.snd

theorem onOwners_commutes {f g f' g' : Text → Edit Text Owner}
    (hf : ∀ k, Edit.Commutes (f k) (f' k)) (hg : ∀ k, Edit.Commutes (g k) (g' k)) :
    Edit.Commutes (onOwners f g) (onOwners f' g') := by
  intro d
  have hk := Edit.list_commutes (Edit.values_commutes hf) d.kclusters
  have hn := Edit.list_commutes (Edit.values_commutes hg) d.nodes
  exact ⟨Definition.ext rfl hk.1 hn.1 rfl, congrArg₂ (· ++ ·) hk.2.1 hn.2.1,
    congrArg₂ (· ++ ·) hk.2.2 hn.2.2⟩

theorem onSection_onOwners_commutes (s : Edit Text Section) (f g : Text → Edit Text Owner) :
    Edit.Commutes (onSection n s) (onOwners f g) := by
  intro d
  unfold onSection
  cases hl : d.sections.lookup n with
  | none => simp only [onOwners, hl, and_self]
  | some sec => simp only [onOwners, hl, and_self]

/-! ### The walk over the configurations of an add-on -/

variable {a b : Config → Edit Text Config}

theorem overOverrides_idempotent (h : ∀ inh, Edit.Idempotent (a inh)) :
    Edit.Idempotent (overOverrides n a) := by
  intro d
  have ho := fun _ : Text => Owner.edit_idempotent (n := n) (h (d.inherited n))
  have hid := onOwners_idempotent ho ho d
  have heq : ∀ d', d'.inherited n = d.inherited n → overOverrides n a d' =
      onOwners (fun _ => Owner.edit n (a (d.inherited n))) (fun _ => Owner.edit n (a (d.inherited n)))
        d' := by
    intro d' h
    unfold overOverrides
    rw [h]
  unfold Edit.Settled at hid ⊢
  rw [heq d rfl]
  refine (heq _ ?_).trans hid
  rfl

/-- **Each configuration once**: an edit that is idempotent at each is idempotent. -/
theorem overConfigs_idempotent (h : ∀ inh, Edit.Idempotent (a inh)) :
    Edit.Idempotent (overConfigs n a) := by
  refine Edit.Idempotent.andThen (onSection_idempotent (Section.edit_idempotent (h _)))
    (overOverrides_idempotent h) fun d hs => ?_
  exact (onSection_onOwners_commutes _ _ _).keeps d hs

theorem inherited_onSection (h : n ≠ m) (s : Edit Text Section) (d : Definition) :
    (onSection n s d).1.inherited m = d.inherited m := by
  unfold Definition.inherited
  rw [lookup_onSection, if_neg (Ne.symm h)]

theorem overOverrides_commutes (h : n = m → ∀ x y, Edit.Commutes (a x) (b y)) :
    Edit.Commutes (overOverrides n a) (overOverrides m b) := by
  intro d
  have ho := fun _ : Text => Owner.edit_commutes (n := n) (m := m) fun e =>
    h e (d.inherited n) (d.inherited m)
  exact onOwners_commutes ho ho d

/-- What an add-on's overrides are given does not depend on another add-on's section. -/
theorem onSection_overOverrides_commutes {s : Edit Text Section}
    (h : n = m → ∀ x y, b x = b y) :
    Edit.Commutes (onSection n s) (overOverrides m b) := by
  intro d
  have hb : b ((onSection n s d).1.inherited m) = b (d.inherited m) := by
    by_cases hnm : n = m
    · exact h hnm _ _
    · rw [inherited_onSection hnm]
  unfold overOverrides
  rw [hb]
  exact onSection_onOwners_commutes _ _ _ d

/-- **Edits of two add-ons' configurations commute**, and of one add-on's when the edits do and what is
inherited does not matter. -/
theorem overConfigs_commutes (h : n = m → (∀ x y, Edit.Commutes (a x) (b y)) ∧
    (∀ x y, a x = a y) ∧ ∀ x y, b x = b y) :
    Edit.Commutes (overConfigs n a) (overConfigs m b) := by
  have hso : Edit.Commutes (onSection n (Section.edit (a fun _ => none))) (overConfigs m b) :=
    (Edit.Commutes.andThen
      (onSection_commutes fun e => (Section.edit_commutes ((h e.symm).1 _ _)).symm)
      (onSection_overOverrides_commutes fun e => (h e).2.2).symm).symm
  refine Edit.Commutes.andThen hso (Edit.Commutes.andThen ?_ ?_).symm
  · exact onSection_overOverrides_commutes fun e => (h e.symm).2.1
  · exact overOverrides_commutes fun e x y => ((h e.symm).1 y x).symm

/-! ### What the walk leaves -/

theorem AddonEntry.without_edit (x : AddonEntry) : (AddonEntry.edit n e x).1.without n = x.without n := by
  cases x with
  | plain addon => rfl
  | mapping items =>
    unfold AddonEntry.edit AddonEntry.without Edit.list
    rw [AddonEntry.mapping.injEq, List.map_map]
    refine List.map_congr_left fun p _ => ?_
    unfold Edit.onKey Edit.values
    by_cases hp : p.1 = n
    · simp only [Function.comp_apply, if_pos hp]
    · simp only [Function.comp_apply, if_neg hp]
      rfl

theorem Owner.without_edit (o : Owner) : (Owner.edit n e o).1.without n = o.without n := by
  unfold Owner.edit Owner.without Edit.list
  rw [Owner.mk.injEq, List.map_map]
  exact ⟨rfl, List.map_congr_left fun x _ => AddonEntry.without_edit x⟩

theorem erase_onSection (s : Edit Text Section) (d : Definition) :
    (onSection n s d).1.sections.erase n = d.sections.erase n := by
  refine Finmap.ext_lookup fun m => ?_
  by_cases hm : m = n
  · rw [hm, Finmap.lookup_erase, Finmap.lookup_erase]
  · rw [Finmap.lookup_erase_ne hm, Finmap.lookup_erase_ne hm, lookup_onSection, if_neg hm]

theorem map_owners_edit {β : Type*} (g : Owner → β) (o : Text → Edit Text Owner)
    (h : ∀ k x, g (o k x).1 = g x) (ps : List (Text × Owner)) :
    (Edit.list (Edit.values o) ps).1.map (fun p => (p.1, g p.2)) =
      ps.map fun p => (p.1, g p.2) := by
  unfold Edit.list
  rw [List.map_map]
  exact List.map_congr_left fun p _ => Prod.ext rfl (h p.1 p.2)

/-- **The walk over one add-on's configurations** leaves everything else. -/
theorem without_overConfigs (d : Definition) : (overConfigs n a d).1.without n = d.without n := by
  have hs := onSection_rest n (Section.edit (a fun _ => none)) d
  refine Definition.ext (erase_onSection _ d) ?_ ?_ hs.2.2
  · refine (map_owners_edit _ _ (fun _ => Owner.without_edit) _).trans ?_
    rw [hs.1]
    rfl
  · refine (map_owners_edit _ _ (fun _ => Owner.without_edit) _).trans ?_
    rw [hs.2.1]
    rfl

theorem lab_eq {d d' : Definition}
    (hk : d.kclusters.map (fun k => (k.1, k.2.entries)) = d'.kclusters.map fun k => (k.1, k.2.entries))
    (hn : d.nodes.map (fun n => (n.1, n.2.entries)) = d'.nodes.map fun n => (n.1, n.2.entries)) :
    d.lab.kclusters = d'.lab.kclusters ∧ d.lab.nodes = d'.lab.nodes := by
  have hmap : ∀ {β : Type} (f : List Cluster.Entry → β) (ps : List (Text × Owner)),
      ps.map (fun p => (p.1, f p.2.entries)) =
        (ps.map fun p => (p.1, p.2.entries)).map fun p => (p.1, f p.2) := by
    intro β f ps
    rw [List.map_map]
    rfl
  refine ⟨?_, ?_⟩
  · refine (hmap (Cluster.Kcluster.mk []) _).trans ?_
    rw [hk]
    exact (hmap _ _).symm
  · refine (hmap (Cluster.Node.mk none [] none) _).trans ?_
    rw [hn]
    exact (hmap _ _).symm

theorem mem_lab_sections {d : Definition} {name : Text} :
    name ∈ d.lab.sections ↔ d.isConfig name = true := by
  unfold Definition.lab
  rw [Finset.mem_sort, Finset.mem_filter, Finmap.mem_keys, and_iff_right_iff_imp]
  unfold Definition.isConfig
  intro h
  by_contra hm
  rw [Finmap.lookup_eq_none.mpr hm] at h
  exact absurd h nofun

theorem isConfig_onSection (e : Edit Text Config) (d : Definition) (name : Text) :
    (onSection n (Section.edit e) d).1.isConfig name = d.isConfig name := by
  unfold Definition.isConfig
  rw [lookup_onSection]
  by_cases hm : name = n
  · rw [if_pos hm, hm]
    cases d.sections.lookup n with
    | none => rfl
    | some sec => cases sec <;> rfl
  · rw [if_neg hm]

theorem entries_overConfigs (d : Definition) :
    (overConfigs n a d).1.lab.kclusters = d.lab.kclusters ∧
      (overConfigs n a d).1.lab.nodes = d.lab.nodes := by
  have hs := onSection_rest n (Section.edit (a fun _ => none)) d
  refine lab_eq ?_ ?_
  · refine (map_owners_edit _ _ (fun _ => Owner.entries_edit) _).trans ?_
    rw [hs.1]
  · refine (map_owners_edit _ _ (fun _ => Owner.entries_edit) _).trans ?_
    rw [hs.2.1]

theorem lab_entries_overConfigs (d : Definition) :
    (overConfigs n a d).1.lab.entries = d.lab.entries := by
  unfold Cluster.Lab.entries
  rw [(entries_overConfigs d).1, (entries_overConfigs d).2]

/-- Edits of the owners that leave the names in their lists. -/
theorem actsOnOwners_onOwners {f g : Text → Edit Text Owner}
    (hf : ∀ k o, (f k o).1.entries = o.entries) (hg : ∀ k o, (g k o).1.entries = o.entries) :
    ActsOnOwners n (onOwners f g) where
  rest _ := ⟨rfl, rfl⟩
  entries d := by
    have h := @lab_eq (onOwners f g d).1 d (map_owners_edit _ f hf _) (map_owners_edit _ g hg _)
    unfold Cluster.Lab.entries
    rw [h.1, h.2]
  reads d d' hk hn _ := by
    unfold onOwners
    simp only [hk, hn, and_self]

theorem actsOnOwners_overOverrides (n : Text) (a : Config → Edit Text Config) :
    ActsOnOwners n (overOverrides n a) where
  rest _ := ⟨rfl, rfl⟩
  entries d := (actsOnOwners_onOwners (n := n) (fun _ => Owner.entries_edit)
    fun _ => Owner.entries_edit).entries d
  reads d d' hk hn hl := by
    unfold overOverrides onOwners Definition.inherited
    simp only [hk, hn, hl, and_self]

end Walks

end LabInABox.Schema
