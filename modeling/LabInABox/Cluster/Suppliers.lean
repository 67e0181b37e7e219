import LabInABox.Cluster.Provides

/-!
# What supplies the needs of a kcluster

What an installed kcluster has for each of its needs, by the plan of `cluster_plan` (`libs/k8s.py`): the
component its distribution brings and was not told to leave out, the add-on that is planned, and the listed
add-ons that provide the need (`Supplies`).

`PlanExact` says that each need has one supplier at most, unless the list has several, that a need which a
listed add-on requires has one, and that a field names the supplier.

Results:
* `supplies_bundled_iff`, `supplies_planned_iff`: the first two read off the fields.
* `planExact_iff`: the plan is exact exactly when no provider in the list is joined by another supplier, an
  add-on that a field names and that is listed provides the need, and no need is left to a default that is
  listed or to a blank field (`Clean`).
* `listed_provider_doubled`: a listed ingress controller of another name gets a second one.
-/

namespace LabInABox.Cluster

open Text

/-! ## Suppliers -/

/-- What may supply a need. -/
inductive Supplier
  | bundled
  | planned (addon : Text)
  | listed (addon : Text)
  deriving DecidableEq

/-- `"none"`. -/
def noneChoice : Text := "none".toList

section Suppliers

variable (plugin : Text → Plugin) (cfg : Kcluster) (plan : List (Need × Text)) (distro : Distro) (c : Choice)

/-- What supplies the need on the installed kcluster. -/
def Supplies (need : Need) : Supplier → Prop
  | .bundled => ∃ distro, cfg.distro = some distro ∧ need ∈ distro.bundled ∧ need ∉ clusterDisabled cfg distro
  | .planned addon => (need, addon) ∈ plan
  | .listed addon => Listed cfg.addons addon ∧ need ∈ (plugin addon).providesCluster

/-- The list itself has two add-ons that provide the need. -/
def Several (need : Need) : Prop :=
  ∃ a b, a ≠ b ∧ (Listed cfg.addons a ∧ need ∈ (plugin a).providesCluster) ∧
    Listed cfg.addons b ∧ need ∈ (plugin b).providesCluster

/-- The component that the field names supplies the need. -/
def NamesSupplier : Prop :=
  (∃ distro, cfg.distro = some distro ∧ distro.own c.need = some (asked cfg c) ∧
    Supplies plugin cfg plan c.need .bundled) ∨
  ∃ addon, c.choices.lookup (asked cfg c) = some addon ∧
    (Supplies plugin cfg plan c.need (.planned addon) ∨ Supplies plugin cfg plan c.need (.listed addon))

/-- **The plan is exact**: each need has one supplier at most, unless the list has several; a need that a
listed add-on requires has one, unless its field is "none"; and a field names the supplier. -/
def PlanExact : Prop :=
  ∀ c ∈ clusterChoices,
    (Several plugin cfg c.need ∨
      ∀ s s', Supplies plugin cfg plan c.need s → Supplies plugin cfg plan c.need s' → s = s') ∧
    (Required plugin cfg c.need → asked cfg c ≠ noneChoice → ∃ s, Supplies plugin cfg plan c.need s) ∧
    (asked cfg c ≠ [] → asked cfg c ≠ noneChoice → NamesSupplier plugin cfg plan c)

/-- The distribution's own is left in: the field is empty or names it. -/
def KeepsOwn : Prop :=
  c.need ∈ distro.bundled ∧ (cfg.get c.field = [] ∨ distro.own c.need = some (asked cfg c))

/-- The field, or the default where one is needed, names an add-on that is not the distribution's own. -/
def Names (addon : Text) : Prop :=
  ¬ PassedOver plugin cfg distro c ∧ distro.own c.need ≠ some (reading cfg (distro.own c.need) c) ∧
    c.choices.lookup (reading cfg (distro.own c.need) c) = some addon ∧ addon ≠ []

/-- **The need is clean** on a distribution. The only listed provider is joined neither by the
distribution's own nor by an add-on that is named and not listed; an add-on that a field names and that is
listed provides the need; and a need that is required and that no listed add-on provides has no blank field
where the distribution brings it, and where it does not no empty field with the default in the list. -/
def Clean : Prop :=
  (Provided plugin cfg c.need → ¬ Several plugin cfg c.need →
    ¬ KeepsOwn cfg distro c ∧ ∀ addon, Names plugin cfg distro c addon → Listed cfg.addons addon) ∧
  (asked cfg c ≠ [] → ∀ addon, Names plugin cfg distro c addon → Listed cfg.addons addon →
    c.need ∈ (plugin addon).providesCluster) ∧
  (Required plugin cfg c.need → ¬ Provided plugin cfg c.need →
    if c.need ∈ distro.bundled then cfg.get c.field ≠ [] → asked cfg c ≠ []
    else asked cfg c = [] → ∀ addon, c.choices.lookup c.default = some addon → ¬ Listed cfg.addons addon)

/-- The need is clean where the distribution is not known: what is required, and what a field names, is
provided by the list. -/
def CleanUnknown : Prop :=
  (Required plugin cfg c.need → asked cfg c ≠ noneChoice → Provided plugin cfg c.need) ∧
  (asked cfg c ≠ [] → asked cfg c ≠ noneChoice → ∃ addon, c.choices.lookup (asked cfg c) = some addon ∧
    Listed cfg.addons addon ∧ c.need ∈ (plugin addon).providesCluster)

/-- Every need is clean. -/
def CleanPlan : Prop :=
  ∀ c ∈ clusterChoices,
    match cfg.distro with
    | none => CleanUnknown plugin cfg c
    | some distro => Clean plugin cfg distro c

end Suppliers

/-! ## The rows -/

theorem lookup_choices_nil {c : Choice} (hc : c ∈ clusterChoices) : c.choices.lookup [] = none := by
  have hall : ∀ c ∈ clusterChoices, c.choices.lookup [] = none := by decide
  exact hall c hc

theorem lookup_choices_none {c : Choice} (hc : c ∈ clusterChoices) : c.choices.lookup noneChoice = some [] := by
  have hall : ∀ c ∈ clusterChoices, c.choices.lookup noneChoice = some [] := by decide
  exact hall c hc

/-- Only "none" stands for no add-on. -/
theorem eq_none_of_lookup {c : Choice} (hc : c ∈ clusterChoices) {choice : Text}
    (h : c.choices.lookup choice = some []) : choice = noneChoice := by
  have hall : ∀ c ∈ clusterChoices, ∀ e ∈ c.choices, e.2 = [] → e.1 = noneChoice := by decide
  obtain ⟨l₁, l₂, hl, _⟩ := List.lookup_eq_some_iff.mp h
  refine hall c hc (choice, []) ?_ rfl
  rw [hl]
  exact List.mem_append_right _ List.mem_cons_self

theorem lower_strip_default {c : Choice} (hc : c ∈ clusterChoices) : lower (strip c.default) = c.default := by
  have hall : ∀ c ∈ clusterChoices, lower (strip c.default) = c.default := by decide
  exact hall c hc

theorem exists_lookup_default {c : Choice} (hc : c ∈ clusterChoices) :
    ∃ addon, c.choices.lookup c.default = some addon ∧ addon ≠ [] := by
  have hall : ∀ c ∈ clusterChoices, ((c.choices.lookup c.default).any (· ≠ [])) = true := by decide
  have h := hall c hc
  cases hl : c.choices.lookup c.default with
  | none =>
    rw [hl] at h
    cases h
  | some addon =>
    rw [hl] at h
    exact ⟨addon, rfl, of_decide_eq_true h⟩

section Rows

variable {plugin : Text → Plugin} {cfg : Kcluster} {distro : Distro} {c : Choice}

/-- A distribution's own has a name, and the distribution brings the need. -/
theorem own_spec (hd : cfg.distro = some distro) {need : Need} {own : Text} (ho : distro.own need = some own) :
    own ≠ [] ∧ own ≠ noneChoice ∧ need ∈ distro.bundled := by
  have hall : ∀ d ∈ distros.map Prod.snd, ∀ e ∈ d.bundledChoice, e.2 ≠ [] ∧ e.2 ≠ noneChoice ∧ e.1 ∈ d.bundled := by
    decide
  obtain ⟨l₁, l₂, h, _⟩ := List.lookup_eq_some_iff.mp ho
  refine hall distro (mem_distros hd) (need, own) ?_
  rw [h]
  exact List.mem_append_right _ List.mem_cons_self

theorem get_ne_nil_of_asked (h : asked cfg c ≠ []) : cfg.get c.field ≠ [] := by
  intro hf
  apply h
  unfold asked
  rw [hf]
  rfl

theorem reading_of_asked (h : asked cfg c ≠ []) (own : Option Text) : reading cfg own c = asked cfg c := by
  unfold reading asked
  dsimp only
  rw [if_neg (get_ne_nil_of_asked h)]

theorem picks_iff_names {addon : Text} :
    Picks plugin cfg distro c addon ↔ Names plugin cfg distro c addon ∧ ¬ Listed cfg.addons addon := by
  unfold Picks Names
  rw [and_assoc, and_assoc, and_assoc]

theorem names_unique {a b : Text} (ha : Names plugin cfg distro c a) (hb : Names plugin cfg distro c b) : a = b :=
  Option.some.inj (ha.2.2.1.symm.trans hb.2.2.1)

/-- What is named where the field says something. -/
theorem names_asked_iff (h : asked cfg c ≠ []) {addon : Text} : Names plugin cfg distro c addon ↔
    distro.own c.need ≠ some (asked cfg c) ∧ c.choices.lookup (asked cfg c) = some addon ∧ addon ≠ [] := by
  have hpass : ¬ PassedOver plugin cfg distro c := fun hp => h hp.1
  unfold Names
  rw [reading_of_asked h, and_iff_right hpass]

/-- An add-on is not named where the distribution's own is left in. -/
theorem not_names_of_keepsOwn (hk : KeepsOwn cfg distro c) (addon : Text) : ¬ Names plugin cfg distro c addon := by
  intro hn
  have hask : asked cfg c ≠ [] := fun ha => hn.1 ⟨ha, Or.inl hk.1⟩
  rcases hk.2 with hf | ho
  · exact get_ne_nil_of_asked hask hf
  · exact ((names_asked_iff hask).mp hn).1 ho

end Rows

/-! ## On a known distribution -/

section Known

variable {plugin : Text → Plugin} {cluName : Text} {cfg : Kcluster} {plan : List (Need × Text)}
  {distro : Distro} {c : Choice}

theorem supplies_bundled_iff (hd : cfg.distro = some distro) (hc : c ∈ clusterChoices) :
    Supplies plugin cfg plan c.need .bundled ↔ KeepsOwn cfg distro c := by
  unfold Supplies KeepsOwn
  rw [hd]
  simp only [Option.some.injEq, exists_eq_left']
  exact and_congr_right fun hb => not_mem_clusterDisabled_iff hd hc hb

/-- A listed add-on provides the need. -/
theorem provided_iff_listed {need : Need} :
    Provided plugin cfg need ↔ ∃ addon, Supplies plugin cfg plan need (.listed addon) := Iff.rfl

/-- A field that says something other than "none" stands for the distribution's own or for an add-on. -/
theorem asked_cases (hc : c ∈ clusterChoices) (hr : ¬ Refused plugin cfg distro c) (hask : asked cfg c ≠ [])
    (hnone : asked cfg c ≠ noneChoice) :
    distro.own c.need = some (asked cfg c) ∨ ∃ addon, Names plugin cfg distro c addon := by
  by_cases ho : distro.own c.need = some (asked cfg c)
  · exact Or.inl ho
  · have hpass : ¬ PassedOver plugin cfg distro c := fun hp => hask hp.1
    have hmem : asked cfg c ∈ c.choices.map Prod.fst := by
      by_contra hmem
      refine hr ⟨hpass, Or.inl ?_⟩
      rw [reading_of_asked hask]
      exact hmem
    obtain ⟨addon, hl⟩ := exists_lookup_of_mem hmem
    refine Or.inr ⟨addon, (names_asked_iff hask).mpr ⟨ho, hl, ?_⟩⟩
    rintro rfl
    exact hnone (eq_none_of_lookup hc hl)

/-- What is named where the field says nothing is the default. -/
theorem names_default (hd : cfg.distro = some distro) (hc : c ∈ clusterChoices) (hr : ¬ Refused plugin cfg distro c)
    (hb : c.need ∉ distro.bundled) (hreq : Required plugin cfg c.need) (hask : asked cfg c = []) :
    ∃ addon, c.choices.lookup c.default = some addon ∧ Names plugin cfg distro c addon := by
  have hown : distro.own c.need = none := by
    cases ho : distro.own c.need with
    | none => rfl
    | some own => exact absurd (own_spec hd ho).2.2 hb
  have hpass : ¬ PassedOver plugin cfg distro c := by
    rintro ⟨_, hb' | hreq'⟩
    · exact hb hb'
    · exact hreq' hreq
  have hread : reading cfg (distro.own c.need) c = c.default := by
    by_cases hf : cfg.get c.field = []
    · unfold reading
      rw [hown]
      dsimp only
      rw [if_pos hf]
      exact lower_strip_default hc
    · exfalso
      refine hr ⟨hpass, Or.inl ?_⟩
      have hnil : reading cfg (distro.own c.need) c = [] := by
        unfold reading
        dsimp only
        rw [if_neg hf]
        exact hask
      rw [hnil]
      intro hmem
      obtain ⟨addon, hl⟩ := exists_lookup_of_mem hmem
      rw [lookup_choices_nil hc] at hl
      cases hl
  obtain ⟨addon, hl, hne⟩ := exists_lookup_default hc
  refine ⟨addon, hl, hpass, ?_, ?_, hne⟩
  · rw [hown]
    exact Option.some_ne_none _ |>.symm
  · rw [hread]
    exact hl

section Need

variable (hd : cfg.distro = some distro) (hc : c ∈ clusterChoices) (hr : ¬ Refused plugin cfg distro c)
  (hplan : ∀ addon, (c.need, addon) ∈ plan ↔ Picks plugin cfg distro c addon)

include hd hc hplan

/-- **One supplier at most**: what the list provides is not joined by another. -/
theorem atMostOne_iff :
    (Several plugin cfg c.need ∨
      ∀ s s', Supplies plugin cfg plan c.need s → Supplies plugin cfg plan c.need s' → s = s') ↔
    (Provided plugin cfg c.need → ¬ Several plugin cfg c.need →
      ¬ KeepsOwn cfg distro c ∧ ∀ addon, Names plugin cfg distro c addon → Listed cfg.addons addon) := by
  by_cases hsev : Several plugin cfg c.need
  · exact ⟨fun _ _ hn => absurd hsev hn, fun _ => Or.inl hsev⟩
  rw [or_iff_right hsev]
  constructor
  · rintro hone ⟨l, hl⟩ _
    have hlist : Supplies plugin cfg plan c.need (.listed l) := hl
    refine ⟨fun hk => ?_, fun addon hn => ?_⟩
    · cases hone _ _ ((supplies_bundled_iff hd hc).mpr hk) hlist
    · by_contra hnl
      have hplanned : Supplies plugin cfg plan c.need (.planned addon) :=
        (hplan addon).mpr (picks_iff_names.mpr ⟨hn, hnl⟩)
      cases hone _ _ hplanned hlist
  · intro hone
    -- no two suppliers of different kinds
    have hpb {addon : Text} (hb : Supplies plugin cfg plan c.need .bundled)
        (hp : Supplies plugin cfg plan c.need (.planned addon)) : False :=
      not_names_of_keepsOwn ((supplies_bundled_iff hd hc).mp hb) addon (picks_iff_names.mp ((hplan addon).mp hp)).1
    have hlb {addon : Text} (hb : Supplies plugin cfg plan c.need .bundled)
        (hl : Supplies plugin cfg plan c.need (.listed addon)) : False :=
      (hone ⟨addon, hl⟩ hsev).1 ((supplies_bundled_iff hd hc).mp hb)
    have hlp {a b : Text} (hp : Supplies plugin cfg plan c.need (.planned a))
        (hl : Supplies plugin cfg plan c.need (.listed b)) : False := by
      obtain ⟨hn, hnl⟩ := picks_iff_names.mp ((hplan a).mp hp)
      exact hnl ((hone ⟨b, hl⟩ hsev).2 a hn)
    intro s s' hs hs'
    cases s with
    | bundled =>
      cases s' with
      | bundled => rfl
      | planned b => exact (hpb hs hs').elim
      | listed b => exact (hlb hs hs').elim
    | planned a =>
      cases s' with
      | bundled => exact (hpb hs' hs).elim
      | planned b =>
        exact congrArg _ (names_unique (picks_iff_names.mp ((hplan a).mp hs)).1
          (picks_iff_names.mp ((hplan b).mp hs')).1)
      | listed b => exact (hlp hs hs').elim
    | listed a =>
      cases s' with
      | bundled => exact (hlb hs' hs).elim
      | planned b => exact (hlp hs' hs).elim
      | listed b =>
        by_contra hne
        exact hsev ⟨a, b, fun he => hne (congrArg _ he), hs, hs'⟩

include hr

/-- **A field names the supplier**: an add-on that it names and that is listed provides the need. -/
theorem namesSupplier_iff :
    (asked cfg c ≠ [] → asked cfg c ≠ noneChoice → NamesSupplier plugin cfg plan c) ↔
    (asked cfg c ≠ [] → ∀ addon, Names plugin cfg distro c addon → Listed cfg.addons addon →
      c.need ∈ (plugin addon).providesCluster) := by
  constructor
  · intro h hask addon hn hl
    obtain ⟨ho, hlook, hne⟩ := (names_asked_iff hask).mp hn
    have hnone : asked cfg c ≠ noneChoice := by
      intro he
      rw [he, lookup_choices_none hc] at hlook
      exact hne (Option.some.inj hlook).symm
    rcases h hask hnone with ⟨d, hd', ho', _⟩ | ⟨addon', hlook', hs⟩
    · obtain rfl := Option.some.inj (hd.symm.trans hd')
      exact absurd ho' ho
    · obtain rfl := Option.some.inj (hlook.symm.trans hlook')
      rcases hs with hp | hlist
      · exact absurd hl (picks_iff_names.mp ((hplan addon).mp hp)).2
      · exact hlist.2
  · intro h hask hnone
    rcases asked_cases hc hr hask hnone with ho | ⟨addon, hn⟩
    · refine Or.inl ⟨distro, hd, ho, (supplies_bundled_iff hd hc).mpr ⟨(own_spec hd ho).2.2, Or.inr ho⟩⟩
    · refine Or.inr ⟨addon, ((names_asked_iff hask).mp hn).2.1, ?_⟩
      by_cases hl : Listed cfg.addons addon
      · exact Or.inr ⟨hl, h hask addon hn hl⟩
      · exact Or.inl ((hplan addon).mpr (picks_iff_names.mpr ⟨hn, hl⟩))

/-- **A required need has a supplier**, where a field names its supplier. -/
theorem hasSupplier_iff (hnames : asked cfg c ≠ [] → asked cfg c ≠ noneChoice → NamesSupplier plugin cfg plan c) :
    (Required plugin cfg c.need → asked cfg c ≠ noneChoice → ∃ s, Supplies plugin cfg plan c.need s) ↔
    (Required plugin cfg c.need → ¬ Provided plugin cfg c.need →
      if c.need ∈ distro.bundled then cfg.get c.field ≠ [] → asked cfg c ≠ []
      else asked cfg c = [] → ∀ addon, c.choices.lookup c.default = some addon → ¬ Listed cfg.addons addon) := by
  have hblank (hask : asked cfg c = []) : asked cfg c ≠ noneChoice := by
    rw [hask]
    decide
  constructor
  · intro h hreq hprov
    split
    · rename_i hb
      intro hf hask
      obtain ⟨s, hs⟩ := h hreq (hblank hask)
      cases s with
      | bundled =>
        rcases ((supplies_bundled_iff hd hc).mp hs).2 with hf' | ho
        · exact hf hf'
        · exact (own_spec hd ho).1 hask
      | planned addon => exact (picks_iff_names.mp ((hplan addon).mp hs)).1.1 ⟨hask, Or.inl hb⟩
      | listed addon => exact hprov ⟨addon, hs⟩
    · rename_i hb
      intro hask addon hlook hl
      obtain ⟨s, hs⟩ := h hreq (hblank hask)
      cases s with
      | bundled => exact hb ((supplies_bundled_iff hd hc).mp hs).1
      | planned a =>
        obtain ⟨addon', hlook', hn⟩ := names_default hd hc hr hb hreq hask
        obtain ⟨hna, hnl⟩ := picks_iff_names.mp ((hplan a).mp hs)
        rw [names_unique hna hn, ← Option.some.inj (hlook.symm.trans hlook')] at hnl
        exact hnl hl
      | listed a => exact hprov ⟨a, hs⟩
  · intro h hreq hnone
    by_cases hprov : Provided plugin cfg c.need
    · obtain ⟨addon, hs⟩ := hprov
      exact ⟨.listed addon, hs⟩
    by_cases hask : asked cfg c = []
    · have hcase := h hreq hprov
      split at hcase
      · rename_i hb
        by_cases hf : cfg.get c.field = []
        · exact ⟨.bundled, (supplies_bundled_iff hd hc).mpr ⟨hb, Or.inl hf⟩⟩
        · exact absurd hask (hcase hf)
      · rename_i hb
        obtain ⟨addon, hlook, hn⟩ := names_default hd hc hr hb hreq hask
        exact ⟨.planned addon, (hplan addon).mpr (picks_iff_names.mpr ⟨hn, hcase hask addon hlook⟩)⟩
    · rcases hnames hask hnone with ⟨_, _, _, hs⟩ | ⟨addon, _, hs | hs⟩
      · exact ⟨_, hs⟩
      · exact ⟨_, hs⟩
      · exact ⟨_, hs⟩

end Need

end Known

section Exact

variable {plugin : Text → Plugin} {cluName : Text} {cfg : Kcluster} {plan : List (Need × Text)}

/-- On a distribution that is not known, only the list supplies. -/
theorem exact_iff_unknown {c : Choice} (hd : cfg.distro = none) (hplan : plan = []) :
    ((Several plugin cfg c.need ∨
      ∀ s s', Supplies plugin cfg plan c.need s → Supplies plugin cfg plan c.need s' → s = s') ∧
    (Required plugin cfg c.need → asked cfg c ≠ noneChoice → ∃ s, Supplies plugin cfg plan c.need s) ∧
    (asked cfg c ≠ [] → asked cfg c ≠ noneChoice → NamesSupplier plugin cfg plan c)) ↔
      CleanUnknown plugin cfg c := by
  have hlisted {s : Supplier} (hs : Supplies plugin cfg plan c.need s) :
      ∃ addon, s = .listed addon ∧ Listed cfg.addons addon ∧ c.need ∈ (plugin addon).providesCluster := by
    cases s with
    | bundled =>
      obtain ⟨distro, hd', _⟩ := hs
      rw [hd] at hd'
      cases hd'
    | planned addon =>
      unfold Supplies at hs
      rw [hplan] at hs
      exact absurd hs List.not_mem_nil
    | listed addon => exact ⟨addon, rfl, hs⟩
  unfold CleanUnknown
  constructor
  · rintro ⟨_, hreq, hnames⟩
    refine ⟨fun hr hn => ?_, fun ha hn => ?_⟩
    · obtain ⟨s, hs⟩ := hreq hr hn
      obtain ⟨addon, _, hl⟩ := hlisted hs
      exact ⟨addon, hl⟩
    · rcases hnames ha hn with ⟨distro, hd', _⟩ | ⟨addon, hlook, hs | hs⟩
      · rw [hd] at hd'
        cases hd'
      · obtain ⟨_, he, _⟩ := hlisted hs
        cases he
      · exact ⟨addon, hlook, hs⟩
  · rintro ⟨hreq, hnames⟩
    refine ⟨?_, fun hr hn => ?_, fun ha hn => ?_⟩
    · by_cases hsev : Several plugin cfg c.need
      · exact Or.inl hsev
      · refine Or.inr fun s s' hs hs' => ?_
        obtain ⟨a, rfl, ha⟩ := hlisted hs
        obtain ⟨b, rfl, hb⟩ := hlisted hs'
        by_contra hne
        exact hsev ⟨a, b, fun he => hne (congrArg _ he), ha, hb⟩
    · obtain ⟨addon, hs⟩ := hreq hr hn
      exact ⟨.listed addon, hs⟩
    · obtain ⟨addon, hlook, hs⟩ := hnames ha hn
      exact Or.inr ⟨addon, hlook, Or.inr hs⟩

/-- **The plan is exact** exactly when every need is clean. -/
theorem planExact_iff (h : clusterPlan plugin cluName cfg = .ok plan) :
    PlanExact plugin cfg plan ↔ CleanPlan plugin cfg := by
  rcases @clusterPlan_spec plugin cluName cfg with ⟨_, e, he⟩ | ⟨hr, plan', hp, hmem⟩
  · rw [h] at he
    cases he
  obtain rfl := Except.ok.inj (h.symm.trans hp)
  unfold PlanExact CleanPlan
  refine forall₂_congr fun c hc => ?_
  cases hd : cfg.distro with
  | none =>
    refine exact_iff_unknown hd (List.eq_nil_iff_forall_not_mem.mpr fun p hp => ?_)
    obtain ⟨distro, hd', _⟩ := (hmem p).mp hp
    rw [hd] at hd'
    cases hd'
  | some distro =>
    have hrc : ¬ Refused plugin cfg distro c := fun hrc => hr ⟨distro, hd, Or.inr ⟨c, hc, hrc⟩⟩
    have hplan (addon : Text) : (c.need, addon) ∈ plan ↔ Picks plugin cfg distro c addon := by
      rw [hmem]
      constructor
      · rintro ⟨distro', hd', c', hc', hneed, hpick⟩
        obtain rfl := Option.some.inj (hd.symm.trans hd')
        obtain rfl := eq_of_need_eq hc hc' hneed
        exact hpick
      · intro hpick
        exact ⟨distro, hd, c, hc, rfl, hpick⟩
    have hnames := namesSupplier_iff hd hc hrc hplan
    constructor
    · rintro ⟨hone, hreq, hnamed⟩
      exact ⟨(atMostOne_iff hd hc hplan).mp hone, hnames.mp hnamed,
        (hasSupplier_iff hd hc hrc hplan hnamed).mp hreq⟩
    · rintro ⟨hone, hnamed, hreq⟩
      have hnamed := hnames.mpr hnamed
      exact ⟨(atMostOne_iff hd hc hplan).mpr hone, (hasSupplier_iff hd hc hrc hplan hnamed).mpr hreq, hnamed⟩

end Exact

/-- A kubeadm kcluster that lists an ingress controller, and an add-on that requires one. -/
def haproxyCluster : Kcluster :=
  ⟨[("clu_type".toList, "kubeadm".toList)], [.plain "haproxy".toList, .plain "harbor".toList]⟩

/-- "haproxy" provides an ingress controller, every other add-on requires one. -/
def haproxyPlugin (addon : Text) : Plugin :=
  if addon = "haproxy".toList then { defaultPlugin with providesCluster := [clusterIngress] }
  else { defaultPlugin with requiresCluster := [clusterIngress] }

theorem plan_haproxyCluster :
    clusterPlan haproxyPlugin "c1".toList haproxyCluster = .ok [(clusterIngress, "nginx".toList)] := by
  decide

theorem planExact_iff_haproxy :
    PlanExact haproxyPlugin haproxyCluster [(clusterIngress, "nginx".toList)] ↔
      CleanPlan haproxyPlugin haproxyCluster :=
  planExact_iff plan_haproxyCluster

/-- **A listed ingress controller of another name** gets a second one. -/
theorem listed_provider_doubled : ¬ ∀ plan, clusterPlan haproxyPlugin "c1".toList haproxyCluster = .ok plan →
    PlanExact haproxyPlugin haproxyCluster plan := by
  intro h
  have hprovides {addon : Text} (ha : clusterIngress ∈ (haproxyPlugin addon).providesCluster) :
      addon = "haproxy".toList := by
    unfold haproxyPlugin at ha
    split at ha
    · assumption
    · exact absurd ha List.not_mem_nil
  have hlisted : Supplies haproxyPlugin haproxyCluster [(clusterIngress, "nginx".toList)] clusterIngress
      (.listed "haproxy".toList) := ⟨by decide, by decide⟩
  rcases (h _ plan_haproxyCluster ingressChoice List.mem_cons_self).1 with ⟨a, b, hne, ha, hb⟩ | hone
  · exact hne ((hprovides ha.2).trans (hprovides hb.2).symm)
  · cases hone (.planned "nginx".toList) (.listed "haproxy".toList) List.mem_cons_self hlisted

end LabInABox.Cluster
