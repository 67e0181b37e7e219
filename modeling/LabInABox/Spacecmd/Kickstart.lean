import LabInABox.Schema.Versions

/-!
# The scripts of a kickstart profile

Model of `_script_spec`, `kickstart_scripts` and `ensure_kickstart_scripts` (`libs/spacecmd_common.py`)
and of the profile they work on.

* The server gives a script a number of its own, and stores its contents without trailing white space;
  both are fields, so a profile that breaks them cannot be built. Names may repeat.
* `Spec` is the six fields that are compared, of a declared script and of a stored one.
* A field that a declaration leaves out is `none`. What an API call answers is a parameter: `failed`.

Results:
* `named_ensureScripts`: what a run leaves under each name, when no call fails.
* `converges_iff`: the profile carries what is declared, and a second run has nothing to do, exactly when
  it carried no declared name twice.
-/

namespace LabInABox.Spacecmd.Kickstart

open Text
open Schema (Json)
open Versions (truthy)

/-! ## Scripts -/

/-- `str.rstrip()`. -/
def rstrip (t : Text) : Text := t.rdropWhile isSpace

theorem rstrip_rstrip (t : Text) : rstrip (rstrip t) = rstrip t := List.rdropWhile_idempotent _ _

/-- The fields of a script that `addScript` stores. -/
structure Spec where
  contents : Text
  script_type : Text
  interpreter : Text
  chroot : Bool
  template : Bool
  erroronfail : Bool
  deriving DecidableEq

/-- The fields as the server stores them. -/
def Spec.stored (spec : Spec) : Spec := { spec with contents := rstrip spec.contents }

@[simp] theorem Spec.stored_stored (spec : Spec) : spec.stored.stored = spec.stored := by
  simp [Spec.stored, rstrip_rstrip]

/-- A script of a profile. -/
structure ServerScript where
  id : Nat
  name : Text
  spec : Spec
  stripped : spec.stored = spec

/-- A script that `<prefix>_kickstart_profiles` declares. -/
structure Script where
  name : Option Text
  contents : Option Text
  type : Option Text
  interpreter : Option Text
  chroot : Option Json
  template : Option Json
  erroronfail : Option Json

/-- `value is not False`. -/
def isNotFalse : Json → Bool
  | .bool false => false
  | _ => true

/-- `_script_spec(script)`. -/
def scriptSpec (s : Script) : Spec where
  contents := s.contents.getD []
  script_type := (s.type.filter (· ≠ [])).getD "post".toList
  interpreter := s.interpreter.getD []
  chroot := isNotFalse (s.chroot.getD (.bool true))
  template := truthy (s.template.getD (.bool false))
  erroronfail := truthy (s.erroronfail.getD (.bool false))

/-- `_KS_SCRIPT_TYPES`. -/
def ksScriptTypes : List Text := ["pre".toList, "post".toList]

/-- A script that is not skipped. -/
def Script.Valid (s : Script) : Prop :=
  s.name.getD [] ≠ [] ∧ (scriptSpec s).contents ≠ [] ∧ (scriptSpec s).script_type ∈ ksScriptTypes

instance (s : Script) : Decidable s.Valid := inferInstanceAs (Decidable (_ ∧ _ ∧ _))

/-- The name of a valid script. -/
def Script.label (s : Script) : Text := s.name.getD []

/-! ## The profile -/

/-- A profile on the server, and the number of its next script. -/
structure Profile where
  scripts : List ServerScript
  next : Nat
  distinct : (scripts.map ServerScript.id).Nodup
  fresh : ∀ s ∈ scripts, s.id < next

/-- A call that changes a profile. -/
inductive Call
  | removeScript (id : Nat)
  | addScript (name : Text) (spec : Spec)
  deriving DecidableEq

/-- `kickstart.profile.removeScript`. -/
def Profile.removeScript (p : Profile) (id : Nat) : Profile where
  scripts := p.scripts.filter fun s => s.id ≠ id
  next := p.next
  distinct := p.distinct.sublist ((List.filter_sublist).map _)
  fresh s hs := p.fresh s (List.mem_of_mem_filter hs)

/-- `kickstart.profile.addScript`. -/
def Profile.addScript (p : Profile) (name : Text) (spec : Spec) : Profile where
  scripts := p.scripts ++ [⟨p.next, name, spec.stored, spec.stored_stored⟩]
  next := p.next + 1
  distinct := by
    rw [List.map_append, List.nodup_append]
    refine ⟨p.distinct, List.nodup_singleton _, ?_⟩
    intro a ha b hb
    obtain ⟨s, hs, rfl⟩ := List.mem_map.mp ha
    rw [List.map_singleton, List.mem_singleton] at hb
    have hlt := p.fresh s hs
    simp only [hb]
    omega
  fresh s hs := by
    rcases List.mem_append.mp hs with hs | hs
    · exact Nat.lt_succ_of_lt (p.fresh s hs)
    · rw [List.mem_singleton.mp hs]
      exact Nat.lt_succ_self _

section Run

variable (failed : Call → Bool)

/-- The call that adds a script. -/
def addCall (s : Script) (p : Profile × List Call) : Profile × List Call :=
  let call := Call.addScript s.label (scriptSpec s)
  (if failed call then p.1 else p.1.addScript s.label (scriptSpec s), p.2 ++ [call])

/-- One turn of the loop, given the scripts that were listed by name, and the calls so far. -/
def ensureScript (existing : Text → Option ServerScript) (p : Profile × List Call) (s : Script) :
    Profile × List Call :=
  if s.Valid then
    match existing s.label with
    | some current =>
      if current.spec.stored = (scriptSpec s).stored then p
      else
        let call := Call.removeScript current.id
        if failed call then (p.1, p.2 ++ [call])
        else addCall failed s (p.1.removeScript current.id, p.2 ++ [call])
    | none => addCall failed s p
  else p

/-- `existing`: the first script of each name. -/
def Profile.existing (p : Profile) (name : Text) : Option ServerScript :=
  p.scripts.find? fun s => decide (s.name = name)

/-- `ensure_kickstart_scripts`, with the calls it makes. -/
def ensureKickstartScripts (p : Profile) (scripts : List Script) : Profile × List Call :=
  scripts.foldl (ensureScript failed p.existing) (p, [])

end Run

/-! ## What is declared -/

/-- Valid scripts with distinct names. -/
structure Declared where
  scripts : List Script
  valid : ∀ s ∈ scripts, s.Valid
  distinct : (scripts.map Script.label).Nodup

/-- A script of the profile that is as it is declared. -/
def Carries (s : Script) (c : ServerScript) : Prop := c.spec = (scriptSpec s).stored

/-- The scripts of one name. -/
def Profile.named (p : Profile) (name : Text) : List ServerScript :=
  p.scripts.filter fun s => decide (s.name = name)

/-- A run in which every call succeeds. -/
def run (p : Profile) (d : Declared) : Profile × List Call :=
  ensureKickstartScripts (fun _ => false) p d.scripts

/-- **The profile converges to the declaration.** -/
structure Converges (p : Profile) (d : Declared) : Prop where
  exactlyOne : ∀ s ∈ d.scripts, ∃ c, (run p d).1.named s.label = [c] ∧ Carries s c
  others : ((run p d).1.scripts.filter fun c => decide (c.name ∉ d.scripts.map Script.label)) =
    p.scripts.filter fun c => decide (c.name ∉ d.scripts.map Script.label)
  again : (run (run p d).1 d).2 = []

/-! ## The calls -/

variable {p : Profile} {s : Script} {c : ServerScript} {q : Text → Bool} {name : Text}

theorem head?_named (p : Profile) (name : Text) : (p.named name).head? = p.existing name :=
  List.head?_filter

theorem carries_iff : c.spec.stored = (scriptSpec s).stored ↔ Carries s c := by
  rw [c.stripped]
  exact Iff.rfl

theorem eq_of_id_eq {a b : ServerScript} (ha : a ∈ p.scripts) (hb : b ∈ p.scripts) (h : a.id = b.id) : a = b :=
  List.inj_on_of_nodup_map p.distinct ha hb h

/-- Removing a script leaves those of other names. -/
theorem filter_removeScript (hc : c ∈ p.scripts) (hq : q c.name = false) :
    (p.removeScript c.id).scripts.filter (fun a => q a.name) = p.scripts.filter fun a => q a.name := by
  unfold Profile.removeScript
  rw [List.filter_filter]
  refine List.filter_congr fun a ha => ?_
  by_cases hid : a.id = c.id
  · rw [eq_of_id_eq ha hc hid, hq, Bool.false_and]
  · simp [hid]

/-- The first script of a name is removed from those of the name. -/
theorem named_removeScript {rest : List ServerScript} (h : p.named name = c :: rest) :
    (p.removeScript c.id).named name = rest := by
  have hids : ((c :: rest).map ServerScript.id).Nodup := by
    rw [← h]
    exact p.distinct.sublist (List.filter_sublist.map _)
  rw [List.map_cons, List.nodup_cons] at hids
  have hcomm : (p.removeScript c.id).named name = (p.named name).filter fun a => a.id ≠ c.id := by
    unfold Profile.named Profile.removeScript
    rw [List.filter_filter, List.filter_filter]
    exact List.filter_congr fun a _ => Bool.and_comm _ _
  rw [hcomm, h, List.filter_cons_of_neg (by simp)]
  refine List.filter_eq_self.mpr fun a ha => ?_
  rw [decide_eq_true_eq]
  exact fun hid => hids.1 (List.mem_map.mpr ⟨a, ha, hid⟩)

theorem filter_addScript (spec : Spec) (hq : q name = false) :
    (p.addScript name spec).scripts.filter (fun a => q a.name) = p.scripts.filter fun a => q a.name := by
  unfold Profile.addScript
  rw [List.filter_append, List.filter_cons_of_neg (by simp [hq]), List.filter_nil, List.append_nil]

theorem named_addScript (s : Script) :
    ∃ c, (p.addScript s.label (scriptSpec s)).named s.label = p.named s.label ++ [c] ∧ Carries s c := by
  refine ⟨⟨p.next, s.label, (scriptSpec s).stored, (scriptSpec s).stored_stored⟩, ?_, rfl⟩
  unfold Profile.named Profile.addScript
  rw [List.filter_append, List.filter_cons_of_pos (by simp), List.filter_nil]

/-! ## One turn -/

/-- What a turn makes of the scripts of its name. -/
def Replaces (s : Script) : List ServerScript → List ServerScript → Prop
  | [], new => ∃ c, new = [c] ∧ Carries s c
  | c :: rest, new => Carries s c ∧ new = c :: rest ∨ ¬ Carries s c ∧ ∃ c', new = rest ++ [c'] ∧ Carries s c'

section Turn

variable {existing : Text → Option ServerScript} {calls : List Call}

/-- The cases of a turn in which no call fails. -/
theorem ensureScript_cases (calls : List Call) (hvalid : s.Valid) (hexisting : existing s.label = (p.named s.label).head?) :
    (∃ calls', p.named s.label = [] ∧
      ensureScript (fun _ => false) existing (p, calls) s =
        (p.addScript s.label (scriptSpec s), calls')) ∨
    ∃ c rest, p.named s.label = c :: rest ∧
      (Carries s c ∧ ensureScript (fun _ => false) existing (p, calls) s = (p, calls) ∨
        ¬ Carries s c ∧ ∃ calls', ensureScript (fun _ => false) existing (p, calls) s =
          ((p.removeScript c.id).addScript s.label (scriptSpec s), calls')) := by
  unfold ensureScript
  rw [if_pos hvalid, hexisting]
  cases hnamed : p.named s.label with
  | nil => exact Or.inl ⟨_, rfl, rfl⟩
  | cons c rest =>
    refine Or.inr ⟨c, rest, rfl, ?_⟩
    rw [List.head?_cons]
    by_cases hc : Carries s c
    · exact Or.inl ⟨hc, if_pos (carries_iff.mpr hc)⟩
    · exact Or.inr ⟨hc, _, if_neg fun h => hc (carries_iff.mp h)⟩

/-- What a turn does under its name. -/
theorem replaces_ensureScript (hvalid : s.Valid) (hexisting : existing s.label = (p.named s.label).head?) :
    Replaces s (p.named s.label) ((ensureScript (fun _ => false) existing (p, calls) s).1.named s.label) := by
  rcases ensureScript_cases calls hvalid hexisting with
    ⟨_, hnil, hstep⟩ | ⟨c, rest, hcons, ⟨hc, hstep⟩ | ⟨hc, _, hstep⟩⟩
  · obtain ⟨c, hadd, hc⟩ := named_addScript (p := p) s
    rw [hnil, List.nil_append] at hadd
    rw [hstep, hnil, hadd]
    exact ⟨c, rfl, hc⟩
  · rw [hstep, hcons]
    exact Or.inl ⟨hc, rfl⟩
  · obtain ⟨c', hadd, hc'⟩ := named_addScript (p := p.removeScript c.id) s
    rw [named_removeScript hcons] at hadd
    rw [hstep, hcons, hadd]
    exact Or.inr ⟨hc, c', rfl, hc'⟩

/-- A turn leaves the scripts of other names. -/
theorem filter_ensureScript (hvalid : s.Valid) (hexisting : existing s.label = (p.named s.label).head?)
    (hq : q s.label = false) :
    (ensureScript (fun _ => false) existing (p, calls) s).1.scripts.filter (fun a => q a.name) =
      p.scripts.filter fun a => q a.name := by
  rcases ensureScript_cases calls hvalid hexisting with
    ⟨_, -, hstep⟩ | ⟨c, rest, hcons, ⟨-, hstep⟩ | ⟨-, _, hstep⟩⟩
  · rw [hstep, filter_addScript _ hq]
  · rw [hstep]
  · have hc : c ∈ p.named s.label := by rw [hcons]; exact List.mem_cons_self
    obtain ⟨hmem, hname⟩ := List.mem_filter.mp hc
    rw [decide_eq_true_eq] at hname
    rw [hstep, filter_addScript _ hq, filter_removeScript hmem (by rw [hname]; exact hq)]

/-! ## A run -/

theorem named_ensureScript_of_ne (hvalid : s.Valid) (hexisting : existing s.label = (p.named s.label).head?)
    (hne : s.label ≠ name) :
    (ensureScript (fun _ => false) existing (p, calls) s).1.named name = p.named name :=
  filter_ensureScript (q := fun n => decide (n = name)) hvalid hexisting (by simp [hne])

/-- A run leaves the scripts of names it is not given. -/
theorem filter_ensureScripts : ∀ {scripts : List Script} {p : Profile} {calls : List Call},
    (∀ s ∈ scripts, s.Valid) → (scripts.map Script.label).Nodup →
    (∀ s ∈ scripts, existing s.label = (p.named s.label).head?) → (∀ s ∈ scripts, q s.label = false) →
    ((scripts.foldl (ensureScript (fun _ => false) existing) (p, calls)).1.scripts.filter fun a => q a.name) =
      p.scripts.filter fun a => q a.name
  | [], _, _, _, _, _, _ => rfl
  | s :: scripts, p, calls, hvalid, hnodup, hexisting, hq => by
    rw [List.map_cons, List.nodup_cons] at hnodup
    have hs := hvalid s List.mem_cons_self
    have hex := hexisting s List.mem_cons_self
    have hexisting' : ∀ a ∈ scripts, existing a.label =
        ((ensureScript (fun _ => false) existing (p, calls) s).1.named a.label).head? := fun a ha => by
      have hne : s.label ≠ a.label := fun h => hnodup.1 (List.mem_map.mpr ⟨a, ha, h.symm⟩)
      rw [named_ensureScript_of_ne hs hex hne]
      exact hexisting a (List.mem_cons_of_mem _ ha)
    rw [List.foldl_cons, ← filter_ensureScript hs hex (hq s List.mem_cons_self)]
    exact filter_ensureScripts (fun a ha => hvalid a (List.mem_cons_of_mem _ ha)) hnodup.2 hexisting'
      fun a ha => hq a (List.mem_cons_of_mem _ ha)

/-- **What a run leaves under each name.** -/
theorem named_ensureScripts : ∀ {scripts : List Script} {p : Profile} {calls : List Call},
    (∀ s ∈ scripts, s.Valid) → (scripts.map Script.label).Nodup →
    (∀ s ∈ scripts, existing s.label = (p.named s.label).head?) → ∀ s ∈ scripts,
      Replaces s (p.named s.label)
        ((scripts.foldl (ensureScript (fun _ => false) existing) (p, calls)).1.named s.label)
  | [], _, _, _, _, _, _, hs => absurd hs List.not_mem_nil
  | s :: scripts, p, calls, hvalid, hnodup, hexisting, a, ha => by
    rw [List.map_cons, List.nodup_cons] at hnodup
    have hs := hvalid s List.mem_cons_self
    have hex := hexisting s List.mem_cons_self
    have hne : ∀ b ∈ scripts, s.label ≠ b.label := fun b hb h => hnodup.1 (List.mem_map.mpr ⟨b, hb, h.symm⟩)
    have hvalid' : ∀ b ∈ scripts, b.Valid := fun b hb => hvalid b (List.mem_cons_of_mem _ hb)
    have hexisting' : ∀ b ∈ scripts, existing b.label =
        ((ensureScript (fun _ => false) existing (p, calls) s).1.named b.label).head? := fun b hb => by
      rw [named_ensureScript_of_ne hs hex (hne b hb)]
      exact hexisting b (List.mem_cons_of_mem _ hb)
    rw [List.foldl_cons]
    rcases List.mem_cons.mp ha with rfl | ha
    · have hrest : (scripts.foldl (ensureScript (fun _ => false) existing)
          (ensureScript (fun _ => false) existing (p, calls) a)).1.named a.label =
            (ensureScript (fun _ => false) existing (p, calls) a).1.named a.label :=
        filter_ensureScripts (q := fun n => decide (n = a.label)) hvalid' hnodup.2 hexisting'
          fun b hb => by simp [Ne.symm (hne b hb)]
      rw [hrest]
      exact replaces_ensureScript hs hex
    · have hname : (ensureScript (fun _ => false) existing (p, calls) s).1.named a.label =
          p.named a.label := named_ensureScript_of_ne hs hex (hne a ha)
      rw [← hname]
      exact named_ensureScripts hvalid' hnodup.2 hexisting' a ha

/-- A profile that carries what is declared needs no call. -/
theorem ensureScripts_of_carries : ∀ {scripts : List Script}, (∀ s ∈ scripts, s.Valid) →
    (∀ s ∈ scripts, ∃ c, existing s.label = some c ∧ Carries s c) →
    scripts.foldl (ensureScript (fun _ => false) existing) (p, calls) = (p, calls)
  | [], _, _ => rfl
  | s :: scripts, hvalid, h => by
    obtain ⟨c, hex, hc⟩ := h s List.mem_cons_self
    have hstep : ensureScript (fun _ => false) existing (p, calls) s = (p, calls) := by
      unfold ensureScript
      rw [if_pos (hvalid s List.mem_cons_self), hex]
      exact if_pos (carries_iff.mpr hc)
    rw [List.foldl_cons, hstep]
    exact ensureScripts_of_carries (fun a ha => hvalid a (List.mem_cons_of_mem _ ha))
      fun a ha => h a (List.mem_cons_of_mem _ ha)

end Turn

/-! ## Convergence -/

/-- One script is left under a name exactly when there was at most one. -/
theorem replaces_one_iff {old new : List ServerScript} (h : Replaces s old new) :
    (∃ c, new = [c] ∧ Carries s c) ↔ old.length ≤ 1 := by
  cases old with
  | nil => exact iff_of_true h (Nat.zero_le 1)
  | cons c rest =>
    rcases h with ⟨hc, rfl⟩ | ⟨-, c', rfl, hc'⟩
    · cases rest with
      | nil => exact iff_of_true ⟨c, rfl, hc⟩ (Nat.le_refl 1)
      | cons d rest => simp
    · cases rest with
      | nil => exact iff_of_true ⟨c', rfl, hc'⟩ (Nat.le_refl 1)
      | cons d rest => simp

/-- **Exactly when the profile converges to the declaration.** -/
theorem converges_iff (p : Profile) (d : Declared) :
    Converges p d ↔ ∀ s ∈ d.scripts, (p.named s.label).length ≤ 1 := by
  have hexisting : ∀ s ∈ d.scripts, p.existing s.label = (p.named s.label).head? := fun s _ =>
    (head?_named p s.label).symm
  have hnamed : ∀ s ∈ d.scripts, Replaces s (p.named s.label) ((run p d).1.named s.label) :=
    named_ensureScripts d.valid d.distinct hexisting
  constructor
  · intro h s hs
    exact (replaces_one_iff (hnamed s hs)).mp (h.exactlyOne s hs)
  · intro h
    have hone : ∀ s ∈ d.scripts, ∃ c, (run p d).1.named s.label = [c] ∧ Carries s c := fun s hs =>
      (replaces_one_iff (hnamed s hs)).mpr (h s hs)
    refine ⟨hone, ?_, ?_⟩
    · refine filter_ensureScripts (q := fun n => decide (n ∉ d.scripts.map Script.label)) d.valid d.distinct
        hexisting fun s hs => ?_
      simpa using ⟨s, hs, rfl⟩
    · have hagain : run (run p d).1 d = ((run p d).1, []) := by
        refine ensureScripts_of_carries d.valid fun s hs => ?_
        obtain ⟨c, hc, hcarries⟩ := hone s hs
        refine ⟨c, ?_, hcarries⟩
        rw [← head?_named, hc]
        rfl
      rw [hagain]

/-- A profile that carries a script of one name twice. -/
def doubled : Profile where
  scripts := [⟨1, "register".toList, ⟨"a".toList, "post".toList, [], true, false, false⟩, by decide⟩,
    ⟨2, "register".toList, ⟨"b".toList, "post".toList, [], true, false, false⟩, by decide⟩]
  next := 3
  distinct := by decide
  fresh := by decide

/-- The script of this name is declared once. -/
def register : Declared where
  scripts := [⟨some "register".toList, some "a".toList, none, none, none, none, none⟩]
  valid := by decide
  distinct := by decide

/-- The second script of a declared name stays beside the first. -/
theorem second_script_stays : ¬ Converges doubled register := by
  intro h
  obtain ⟨c, hc, -⟩ := h.exactlyOne _ List.mem_cons_self
  have htwo : ((run doubled register).1.named "register".toList).length = 2 := by decide
  have hone : ((run doubled register).1.named "register".toList).length = 1 := congrArg List.length hc
  omega

end LabInABox.Spacecmd.Kickstart
