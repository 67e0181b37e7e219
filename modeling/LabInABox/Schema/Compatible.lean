import LabInABox.Schema.Validate

/-!
# Compatible versions of a schema

What `breaking_changes` (`libs/schema_versions.py`) promises of two snapshots without a breaking change,
against what `section_findings` (`libs/schema_validate.py`) enforces: a section valid under the old
fields is to be valid under the new ones.

`breaking_changes` looks at the type, at `required`, and at the values dropped from an `enum` that is
still there. It looks at neither bounds nor patterns, nor at an `enum` a field did not have; and a
section may carry keys the old schema does not declare, which a field of the new one then checks.

Results:
* `numbers_kept_iff`, `texts_kept_iff`, `open_iff`: field by field, when what the old declarations let
  pass the new ones do.
* `breakingChanges_compatible_iff`: exactly when a section valid before stays valid.
* `raised_minimum_not_breaking`: a raised minimum is no breaking change, and refuses a valid section.
-/

namespace LabInABox.Schema

open Text

variable (reMatch : Text → Text → Bool) (place : Text)

/-- The section has every required field, and no finding that is an error. -/
def Valid (s : Snapshot) (cfg : Text → Option Json) : Prop :=
  (∀ f ∈ s.fields, f.isRequired = true → ∃ v, cfg f.name = some v ∧ isAbsent v = false) ∧
    ∀ x ∈ sectionFindings reMatch place s.fields cfg [], x.severity ≠ .error

/-! ## Field by field -/

/-- The new bounds hold the old range, if there is a number in it. -/
def RangeKept (f g : SchemaField) : Prop :=
  (∃ low ∈ f.low, ∃ high ∈ f.high, high < low) ∨
    (∀ low ∈ g.low, ∃ l ∈ f.low, low ≤ l) ∧ ∀ high ∈ g.high, ∃ h ∈ f.high, h ≤ high

/-- Values are declared anew only where the old pattern takes no others, and the new pattern takes what
the old declarations take. -/
def TextKept (f g : SchemaField) : Prop :=
  (g.enumValues ≠ [] → f.enumValues = [] →
    ∀ t, Checked t → PatternTakes reMatch f t → t ∈ g.enumValues) ∧
  ∀ t, Checked t → Declares reMatch f t → PatternTakes reMatch g t

/-- The field takes every value: a text, with neither values nor a pattern that leaves one out. -/
def FieldOpen (g : SchemaField) : Prop :=
  g.IsText ∧ g.enumValues = [] ∧ ∀ t, Checked t → PatternTakes reMatch g t

/-- No field is narrower than it was, and the new ones are open. -/
def NotNarrowed (old new : Snapshot) : Prop :=
  ∀ g ∈ new.fields, match old.get g.name with
    | none => FieldOpen reMatch g
    | some f => (g.IsNumber → RangeKept f g) ∧ (g.IsText → TextKept reMatch f g)

variable {reMatch place} {f g : SchemaField}

theorem checked_of_head {c : Char} {t : Text} (hs : isSpace c = false) (hq : c ≠ '?') :
    Checked (c :: t) := by
  have hd : (c :: t).dropWhile isSpace = c :: t := List.dropWhile_cons_of_neg (by rw [hs]; exact nofun)
  have hne : strip (c :: t) ≠ [] := fun h =>
    absurd (strip_eq_nil_iff.mp h c List.mem_cons_self) (by rw [hs]; exact nofun)
  have hpre : strip (c :: t) <+: c :: t := by
    rw [strip, hd]
    exact List.rdropWhile_prefix _ _
  refine ⟨hne, fun hp => ?_⟩
  obtain ⟨rest, hrest⟩ := hp.trans hpre
  exact hq (List.cons.inj hrest).1.symm

theorem IsChecked.checked_str {v : Json} (h : IsChecked v) : Checked v.str := by
  cases v with
  | null => exact absurd h.1 nofun
  | bool b => cases b <;> exact checked_of_head (by decide) (by decide)
  | int n =>
    have hdigits : Checked (Nat.toDigits 10 n.natAbs) := by
      cases hd : Nat.toDigits 10 n.natAbs with
      | nil => exact absurd hd Nat.toDigits_ne_nil
      | cons c cs =>
        have hc : c.isDigit = true :=
          Nat.isDigit_of_mem_toDigits (by decide) (by decide) (hd ▸ List.mem_cons_self)
        refine checked_of_head (isSpace_of_isAlphanum ?_) ?_
        · rw [Char.isAlphanum, hc, Bool.or_true]
        · rintro rfl
          exact absurd hc (by decide)
    change Checked (intText n)
    unfold intText
    split
    · exact checked_of_head (by decide) (by decide)
    · exact hdigits
  | real shown => exact shown.2
  | text t =>
    refine ⟨fun hs => ?_, fun hp => ?_⟩
    · exact absurd (decide_eq_true hs) (Bool.eq_false_iff.mp h.1)
    · exact absurd (List.isPrefixOf_iff_prefix.mpr hp) (Bool.eq_false_iff.mp h.2)
  | list items => exact checked_of_head (by decide) (by decide)
  | mapping items => exact checked_of_head (by decide) (by decide)

theorem isChecked_text {t : Text} (h : Checked t) : IsChecked (.text t) :=
  ⟨decide_eq_false h.1, Bool.eq_false_iff.mpr fun hp => h.2 (List.isPrefixOf_iff_prefix.mp hp)⟩

/-- There is always another text. -/
theorem exists_checked_not_mem (l : List Text) : ∃ t, Checked t ∧ t ∉ l := by
  have hbound : ∃ n, ∀ t ∈ l, t.length ≤ n := by
    induction l with
    | nil => exact ⟨0, fun _ h => absurd h List.not_mem_nil⟩
    | cons a l ih =>
      obtain ⟨n, hn⟩ := ih
      exact ⟨max a.length n, List.forall_mem_cons.mpr
        ⟨le_max_left _ _, fun t ht => (hn t ht).trans (le_max_right _ _)⟩⟩
  obtain ⟨n, hn⟩ := hbound
  refine ⟨List.replicate (n + 1) 'a', ?_, fun hm => ?_⟩
  · rw [List.replicate_succ]
    exact checked_of_head (by decide) (by decide)
  · have hle := hn _ hm
    rw [List.length_replicate] at hle
    omega

/-- **Numbers**: what passes the old bounds passes the new ones. -/
theorem numbers_kept_iff (hf : f.IsNumber) (hg : g.IsNumber) :
    (∀ v, Rejects reMatch g v place → Rejects reMatch f v place) ↔ RangeKept f g := by
  have hrange : (∀ v, Rejects reMatch g v place → Rejects reMatch f v place) ↔
      ∀ n, InRange f n → InRange g n := by
    constructor
    · intro h n hn
      by_contra hno
      have hint : IsChecked (.int n) := ⟨rfl, rfl⟩
      have hrej := h (.int n) ((rejects_number_iff hint hg).mpr fun m hm => by
        rwa [← Option.some.inj hm])
      exact (rejects_number_iff hint hf).mp hrej n rfl hn
    · intro h v hv
      by_cases hc : IsChecked v
      · rw [rejects_number_iff hc hf]
        exact fun n hn hr => (rejects_number_iff hc hg).mp hv n hn (h n hr)
      · exact absurd hv (not_rejects_of_not_isChecked hc)
  rw [hrange]
  unfold RangeKept InRange
  constructor
  · intro h
    by_cases hempty : ∃ low ∈ f.low, ∃ high ∈ f.high, high < low
    · exact Or.inl hempty
    refine Or.inr ⟨fun low hl => ?_, fun high hh => ?_⟩
    · by_contra hno
      cases hfl : f.low with
      | none =>
        have hin := (h (min (low - 1) (f.high.getD low)) ⟨fun a ha => absurd (hfl ▸ ha) nofun,
          fun b hb => by rw [Option.mem_def.mp hb, Option.getD_some]; exact min_le_right _ _⟩).1 low hl
        have := min_le_left (low - 1) (f.high.getD low)
        omega
      | some l =>
        have hlt : l < low := lt_of_not_ge fun hle => hno ⟨l, hfl, hle⟩
        have hin := (h l ⟨fun a ha => le_of_eq (Option.some.inj (ha.symm.trans hfl)), fun b hb =>
          not_lt.mp fun hlt => hempty ⟨l, hfl, b, hb, hlt⟩⟩).1 low hl
        omega
    · by_contra hno
      cases hfh : f.high with
      | none =>
        have hin := (h (max (high + 1) (f.low.getD high)) ⟨fun a ha => by
          rw [Option.mem_def.mp ha, Option.getD_some]; exact le_max_right _ _,
          fun b hb => absurd (hfh ▸ hb) nofun⟩).2 high hh
        have := le_max_left (high + 1) (f.low.getD high)
        omega
      | some b =>
        have hlt : high < b := lt_of_not_ge fun hle => hno ⟨b, hfh, hle⟩
        have hin := (h b ⟨fun a ha => not_lt.mp fun hlt => hempty ⟨a, ha, b, hfh, hlt⟩, fun b' hb =>
          le_of_eq (Option.some.inj (hfh.symm.trans hb))⟩).2 high hh
        omega
  · rintro (⟨low, hl, high, hh, hlt⟩ | ⟨hlow, hhigh⟩) n ⟨hn, hn'⟩
    · have h₁ := hn low hl
      have h₂ := hn' high hh
      omega
    · refine ⟨fun low hl => ?_, fun high hh => ?_⟩
      · obtain ⟨l, hm, hle⟩ := hlow low hl
        exact hle.trans (hn l hm)
      · obtain ⟨b, hm, hle⟩ := hhigh high hh
        exact (hn' b hm).trans hle

/-- **Texts**: what passes the old declarations passes the new ones. -/
theorem texts_kept_iff (hf : f.IsText) (hg : g.IsText) (hk : Keeps f g) :
    (∀ v, Rejects reMatch g v place → Rejects reMatch f v place) ↔ TextKept reMatch f g := by
  have hdecl : (∀ v, Rejects reMatch g v place → Rejects reMatch f v place) ↔
      ∀ t, Checked t → Declares reMatch f t → Declares reMatch g t := by
    constructor
    · intro h t ht hd
      by_contra hno
      have hrej := h (.text t) ((rejects_text_iff (isChecked_text ht) hg).mpr hno)
      exact (rejects_text_iff (isChecked_text ht) hf).mp hrej hd
    · intro h v hv
      by_cases hc : IsChecked v
      · rw [rejects_text_iff hc hf]
        exact fun hd => (rejects_text_iff hc hg).mp hv (h _ hc.checked_str hd)
      · exact absurd hv (not_rejects_of_not_isChecked hc)
  have hsub : g.enumValues ≠ [] → ∀ t ∈ f.enumValues, t ∈ g.enumValues := by
    intro hne t ht
    obtain ⟨e, he, rfl⟩ := List.mem_map.mp ht
    exact List.mem_map_of_mem (hk.enum (fun hnil => hne (by rw [SchemaField.enumValues, hnil]; rfl)) e he)
  rw [hdecl]
  constructor
  · intro h
    refine ⟨fun hne hnil t ht hp => ?_, fun t ht hd => (h t ht hd).2⟩
    exact (h t ht ⟨Or.inl hnil, hp⟩).1.resolve_left hne
  · rintro ⟨henum, hpat⟩ t ht hd
    refine ⟨?_, hpat t ht hd⟩
    by_cases hne : g.enumValues = []
    · exact Or.inl hne
    · refine Or.inr (hd.1.elim (fun hnil => henum hne hnil t ht hd.2) (hsub hne t))

theorem rejects_of_not_isText (h : ¬ g.IsText) : Rejects reMatch g (.text "x".toList) place := by
  have hc : IsChecked (.text "x".toList) := by constructor <;> decide
  by_cases hn : g.IsNumber
  · have hint : asInt (.text "x".toList) = none := by decide
    refine (rejects_number_iff hc hn).mpr fun n hx => ?_
    rw [hint] at hx
    exact absurd hx nofun
  unfold Rejects valueFinding
  rw [if_neg (mt not_isChecked_iff.mpr (not_not_intro hc)), if_neg hn]
  by_cases hb : g.kind = "boolean".toList
  · rw [if_pos hb, booleanFinding_error_iff]
    unfold SpellsBoolean
    decide
  rw [if_neg hb]
  by_cases ha : g.kind = "array".toList
  · rw [if_pos ha, containerFinding_error_iff]
    rfl
  rw [if_neg ha]
  by_cases ho : g.kind = "object".toList
  · rw [if_pos ho, containerFinding_error_iff]
    rfl
  · exact absurd ⟨hn, hb, ha, ho⟩ h

/-- **A new field** lets every value pass exactly when it is open. -/
theorem open_iff : (∀ v, ¬ Rejects reMatch g v place) ↔ FieldOpen reMatch g := by
  constructor
  · intro h
    have ht : g.IsText := by
      by_contra hno
      exact h _ (rejects_of_not_isText hno)
    have hdecl : ∀ t, Checked t → Declares reMatch g t := fun t hc => by
      by_contra hno
      exact h _ ((rejects_text_iff (isChecked_text hc) ht).mpr hno)
    refine ⟨ht, ?_, fun t hc => (hdecl t hc).2⟩
    obtain ⟨t, hc, hm⟩ := exists_checked_not_mem g.enumValues
    exact (hdecl t hc).1.resolve_right hm
  · rintro ⟨ht, hnil, hp⟩ v hv
    by_cases hc : IsChecked v
    · exact (rejects_text_iff hc ht).mp hv ⟨Or.inl hnil, hp _ hc.checked_str⟩
    · exact absurd hv (not_rejects_of_not_isChecked hc)

/-! ## The whole section -/

variable {old new : Snapshot}

theorem valid_iff {s : Snapshot} {cfg : Text → Option Json} : Valid reMatch place s cfg ↔
    (∀ f ∈ s.fields, f.isRequired = true → ∃ v, cfg f.name = some v ∧ isAbsent v = false) ∧
      ∀ f ∈ s.fields, ∀ v, cfg f.name = some v →
        ¬ Rejects reMatch f v (if place = [] then f.name else place ++ '.' :: f.name) := by
  unfold Valid sectionFindings
  refine and_congr_right fun _ => ?_
  simp only [List.mem_filterMap, List.not_mem_nil, if_false, Option.bind_eq_some_iff]
  constructor
  · rintro h f hf v hv ⟨x, hx, hs⟩
    exact h x ⟨f, hf, v, hv, hx⟩ hs
  · rintro h x ⟨f, hf, v, hv, hx⟩ hs
    exact h f hf v hv ⟨x, hx, hs⟩

/-- What a field must keep, of any kind. -/
theorem field_kept_iff (hk : Keeps f g) :
    (∀ v, Rejects reMatch g v place → Rejects reMatch f v place) ↔
      (g.IsNumber → RangeKept f g) ∧ (g.IsText → TextKept reMatch f g) := by
  have hkind : f.kind = g.kind := by
    unfold SchemaField.kind
    rw [hk.type]
  have hnum : f.IsNumber ↔ g.IsNumber := by
    unfold SchemaField.IsNumber
    rw [hkind]
  have htext : f.IsText ↔ g.IsText := by
    unfold SchemaField.IsText
    rw [hnum, hkind]
  by_cases hn : g.IsNumber
  · rw [numbers_kept_iff (hnum.mpr hn) hn]
    exact ⟨fun h => ⟨fun _ => h, fun ht => absurd hn ht.1⟩, fun h => h.1 hn⟩
  · by_cases ht : g.IsText
    · rw [texts_kept_iff (htext.mpr ht) ht hk]
      exact ⟨fun h => ⟨fun hg => absurd hg hn, fun _ => h⟩, fun h => h.2 ht⟩
    · refine iff_of_true (fun v hv => ?_) ⟨fun h => absurd h hn, fun h => absurd h ht⟩
      exact (rejects_congr (mt hnum.mp hn) (mt htext.mp ht) hkind).mpr hv

/-- A section with one value of its own and a placeholder in every field of the schema. -/
def placeholders (s : Snapshot) (name : Text) (v : Json) (key : Text) : Option Json :=
  if key = name then some v
  else if key ∈ s.fields.map SchemaField.name then some (.text "??later".toList) else none

theorem valid_placeholders {name : Text} {v : Json} (hv : IsChecked v)
    (h : ∀ f ∈ old.fields, f.name = name →
      ¬ Rejects reMatch f v (if place = [] then f.name else place ++ '.' :: f.name)) :
    Valid reMatch place old (placeholders old name v) := by
  have hother : ∀ f ∈ old.fields, f.name ≠ name →
      placeholders old name v f.name = some (.text "??later".toList) := fun f hf hne => by
    unfold placeholders
    rw [if_neg hne, if_pos (List.mem_map_of_mem hf)]
  rw [valid_iff]
  constructor
  · intro f hf _
    by_cases hn : f.name = name
    · exact ⟨v, if_pos hn, hv.1⟩
    · exact ⟨_, hother f hf hn, by decide⟩
  · intro f hf w hw
    by_cases hn : f.name = name
    · unfold placeholders at hw
      rw [if_pos hn] at hw
      rw [← Option.some.inj hw]
      exact h f hf hn
    · rw [hother f hf hn] at hw
      obtain rfl := Option.some.inj hw
      exact not_rejects_of_not_isChecked fun hc => absurd hc.2 (by decide)

theorem rejects_isChecked {v : Json} (h : Rejects reMatch f v place) : IsChecked v := by
  by_contra hc
  exact not_rejects_of_not_isChecked hc h

/-- **A section valid under the old fields is valid under the new ones**, when nothing is reported as a
breaking change, exactly when no field is narrower than it was and the new ones are open. -/
theorem breakingChanges_compatible_iff (h : breakingChanges old new = .ok []) :
    (∀ cfg, Valid reMatch place old cfg → Valid reMatch place new cfg) ↔
      NotNarrowed reMatch old new := by
  obtain ⟨hkeep, hreq⟩ := breakingChanges_eq_nil_iff.mp h
  have hkeeps : ∀ {f g}, f ∈ old.fields → g ∈ new.fields → f.name = g.name → Keeps f g := by
    intro f g hf hg hn
    obtain ⟨g', hg', hn', hk⟩ := hkeep f hf
    rwa [List.inj_on_of_nodup_map new.nodup hg' hg (hn'.trans hn)] at hk
  constructor
  · intro hall g hg
    cases ho : old.get g.name with
    | none =>
      have hno : ∀ f ∈ old.fields, f.name ≠ g.name := fun f hf hn => by
        rw [Snapshot.get_eq_some.mpr ⟨hf, hn⟩] at ho
        exact absurd ho nofun
      have hopen : ∀ v, ¬ Rejects reMatch g v (if place = [] then g.name else place ++ '.' :: g.name) := by
        intro v hv
        have hval := hall _ (valid_placeholders (rejects_isChecked hv) fun f hf hn =>
          absurd hn (hno f hf))
        exact (valid_iff.mp hval).2 g hg v (if_pos rfl) hv
      exact open_iff.mp hopen
    | some f =>
      obtain ⟨hf, hn⟩ := Snapshot.get_eq_some.mp ho
      have hkept : ∀ v, Rejects reMatch g v (if place = [] then g.name else place ++ '.' :: g.name) →
          Rejects reMatch f v (if place = [] then g.name else place ++ '.' :: g.name) := by
        intro v hv
        by_contra hrej
        have hval := hall _ (valid_placeholders (rejects_isChecked hv) fun f' hf' hn' => by
          rw [List.inj_on_of_nodup_map old.nodup hf' hf (hn'.trans hn.symm), hn]
          exact hrej)
        exact (valid_iff.mp hval).2 g hg v (if_pos rfl) hv
      exact (field_kept_iff (hkeeps hf hg hn)).mp hkept
  · intro hnot cfg hval
    obtain ⟨hpresent, hfind⟩ := valid_iff.mp hval
    refine valid_iff.mpr ⟨fun g hg hr => ?_, fun g hg v hv hrej => ?_⟩
    · obtain ⟨f, hf, hn⟩ := hreq g hg hr
      rw [← hn]
      exact hpresent f hf ((hkeeps hf hg hn).required hr)
    · have hkept := hnot g hg
      cases ho : old.get g.name with
      | none =>
        rw [ho] at hkept
        exact open_iff.mpr hkept v hrej
      | some f =>
        rw [ho] at hkept
        obtain ⟨hf, hn⟩ := Snapshot.get_eq_some.mp ho
        have hold := (field_kept_iff (hkeeps hf hg hn)).mpr hkept v hrej
        rw [← hn] at hold hv
        exact hfind f hf v hv hold

/-- A snapshot with one field, a number with a lower bound. -/
def memorySnapshot (version : Text) (low : Int) : Snapshot where
  version := version
  fields := [⟨"VM_MEM".toList, some "integer".toList, some true, none, none, none, some low, none⟩]
  nodup := List.nodup_singleton _

theorem breakingChanges_compatible_iff_memory :
    breakingChanges (memorySnapshot "1.0".toList 256) (memorySnapshot "1.1".toList 128) = .ok [] ∧
    ((∀ cfg, Valid (fun _ _ => true) "common".toList (memorySnapshot "1.0".toList 256) cfg →
        Valid (fun _ _ => true) "common".toList (memorySnapshot "1.1".toList 128) cfg) ↔
      NotNarrowed (fun _ _ => true) (memorySnapshot "1.0".toList 256)
        (memorySnapshot "1.1".toList 128)) := by
  have h : breakingChanges (memorySnapshot "1.0".toList 256) (memorySnapshot "1.1".toList 128) =
      .ok [] := by decide
  exact ⟨h, breakingChanges_compatible_iff h⟩

theorem raised_minimum_not_breaking :
    breakingChanges (memorySnapshot "1.0".toList 256) (memorySnapshot "1.1".toList 1024) = .ok [] ∧
    ¬ ∀ cfg, Valid (fun _ _ => true) "common".toList (memorySnapshot "1.0".toList 256) cfg →
      Valid (fun _ _ => true) "common".toList (memorySnapshot "1.1".toList 1024) cfg := by
  have hnil : breakingChanges (memorySnapshot "1.0".toList 256) (memorySnapshot "1.1".toList 1024) =
      .ok [] := by decide
  refine ⟨hnil, fun h => ?_⟩
  have hnew := h (fun key => if key = "VM_MEM".toList then some (.int 512) else none) ?_
  · exact absurd (hnew.2 ⟨.error, "common.VM_MEM".toList, "512 is below the minimum 1024".toList⟩
      (by decide)) (by decide)
  · refine ⟨fun f hf _ => ?_, ?_⟩
    · obtain rfl := List.mem_singleton.mp hf
      exact ⟨.int 512, rfl, rfl⟩
    · have hfind : sectionFindings (fun _ _ => true) "common".toList
          (memorySnapshot "1.0".toList 256).fields
          (fun key => if key = "VM_MEM".toList then some (.int 512) else none) [] = [] := by
        decide
      rw [hfind]
      exact fun x hx => absurd hx List.not_mem_nil

end LabInABox.Schema
