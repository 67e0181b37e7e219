import Mathlib.Data.List.Perm.Basic
import LabInABox.Web.VersionMatrix

/-!
# Version warnings agree

When `versionIssues` (`webui/htdocs/app.js`) says of one matrix what `issues` (`libs/versions.py`) says of
it, where each has its own values of the fields and its own release of the kcluster.

* Warnings are the same one for one: the two lists are permutations of each other, since the two sort
  by different orders.
* `FieldAgrees` says it of one field, by what each side finds in the matrix and by what each says of the
  kcluster and of the variants.

Results:
* `perm_flatMap_iff`: lists put together by key are permutations of each other when they are at every key.
* `fieldIssues_perm_iff`: the issues of one field are the same exactly when both say the same of it.
* `versionIssues_perm_iff`: two lists of warnings agree exactly when every field does.
-/

namespace LabInABox.Web

open Text Versions
open Schema (Json)

/-! ## Issues, by their fields -/

section Perm

variable {κ β : Type} [DecidableEq κ] {f g : κ → List β} {tag : β → κ} {ks ks' : List κ} {k : κ}

theorem filter_flatMap_of_not_mem (hf : ∀ k, ∀ b ∈ f k, tag b = k) (h : k ∉ ks) :
    (ks.flatMap f).filter (fun b => decide (tag b = k)) = [] := by
  refine List.filter_eq_nil_iff.mpr fun b hb htag => ?_
  obtain ⟨k', hk', hb⟩ := List.mem_flatMap.mp hb
  rw [hf k' b hb] at htag
  exact h (of_decide_eq_true htag ▸ hk')

theorem filter_flatMap_of_mem (hf : ∀ k, ∀ b ∈ f k, tag b = k) (hnd : ks.Nodup) (h : k ∈ ks) :
    (ks.flatMap f).filter (fun b => decide (tag b = k)) = f k := by
  induction ks with
  | nil => exact absurd h List.not_mem_nil
  | cons k' ks ih =>
    obtain ⟨hnot, hnd⟩ := List.nodup_cons.mp hnd
    rw [List.flatMap_cons, List.filter_append]
    rcases List.mem_cons.mp h with rfl | h
    · rw [filter_flatMap_of_not_mem hf hnot, List.append_nil]
      exact List.filter_eq_self.mpr fun b hb => decide_eq_true (hf k b hb)
    · have hne : k' ≠ k := fun he => hnot (he ▸ h)
      have hnil : (f k').filter (fun b => decide (tag b = k)) = [] :=
        List.filter_eq_nil_iff.mpr fun b hb htag => hne ((hf k' b hb).symm.trans (of_decide_eq_true htag))
      rw [hnil, List.nil_append, ih hnd h]

/-- Two lists put together by key are permutations of each other exactly when they are at every key. -/
theorem perm_flatMap_iff (hf : ∀ k, ∀ b ∈ f k, tag b = k) (hg : ∀ k, ∀ b ∈ g k, tag b = k) (hnd : ks.Nodup)
    (hp : ks.Perm ks') : (ks.flatMap f).Perm (ks'.flatMap g) ↔ ∀ k ∈ ks, (f k).Perm (g k) := by
  constructor
  · intro h k hk
    have hfilter := h.filter fun b => decide (tag b = k)
    rwa [filter_flatMap_of_mem hf hnd hk,
      filter_flatMap_of_mem hg (hp.nodup_iff.mp hnd) (hp.mem_iff.mp hk)] at hfilter
  · intro h
    exact (List.Perm.flatMap_left ks h).trans (hp.flatMap_right g)

theorem perm_append_iff {p : β → Bool} {a b a' b' : List β} (ha : ∀ x ∈ a, p x = false)
    (hb : ∀ x ∈ b, p x = true) (ha' : ∀ x ∈ a', p x = false) (hb' : ∀ x ∈ b', p x = true) :
    (a ++ b).Perm (a' ++ b') ↔ a.Perm a' ∧ b.Perm b' := by
  have hselect : ∀ {a b : List β}, (∀ x ∈ a, p x = false) → (∀ x ∈ b, p x = true) →
      (a ++ b).filter p = b ∧ (a ++ b).filter (fun x => !p x) = a := by
    intro a b ha hb
    rw [List.filter_append, List.filter_append]
    constructor
    · rw [List.filter_eq_nil_iff.mpr fun x hx => by simp [ha x hx], List.filter_eq_self.mpr hb,
        List.nil_append]
    · rw [List.filter_eq_self.mpr fun x hx => by simp [ha x hx],
        List.filter_eq_nil_iff.mpr fun x hx => by simp [hb x hx], List.append_nil]
  constructor
  · intro h
    have hone := h.filter fun x => !p x
    have htwo := h.filter p
    rw [(hselect ha hb).2, (hselect ha' hb').2] at hone
    rw [(hselect ha hb).1, (hselect ha' hb').1] at htwo
    exact ⟨hone, htwo⟩
  · rintro ⟨h, h'⟩
    exact h.append h'

end Perm

/-! ## What each side says -/

/-- What is said of a kcluster. -/
inductive Verdict
  | fine
  | undeclared
  | outside
  deriving DecidableEq

/-- What is found of a value in the matrix. -/
inductive Listing
  | unset
  | unlisted
  | entry (e : MatrixEntry)

/-- The kcluster types that an entry declares. -/
def types (e : MatrixEntry) : List Text := (e.kubernetes.map Obj.keys).getD []

/-- The range that an entry declares for a type. -/
def rangeOf (e : MatrixEntry) (cluType : Text) : Range :=
  ((e.kubernetes.bind fun s => s.get cluType).bind id).getD ⟨none, none⟩

/-- An entry does not declare a variant. -/
def Rejects (allowed : List Text) (v : Text) : Prop := allowed ≠ [] ∧ v ∉ allowed

section Sides

variable (string : Json → Text) (cluType : Text)

/-- What the web UI finds. -/
def jsListing (entries : List MatrixEntry) : Option Json → Listing
  | none | some .null | some (.text []) => .unset
  | some v => (findEntry string entries (jsString string v)).elim .unlisted .entry

/-- What the preflight finds. -/
def pyListing (entries : List MatrixEntry) : Option Json → Listing
  | none | some .null | some (.text []) => .unset
  | some v => (entryFor entries v.str).elim .unlisted .entry

/-- What the web UI says of the kcluster. -/
def jsVerdict (cluRel : Json) (e : MatrixEntry) : Verdict :=
  if e.kubernetes.isNone ∨ cluType = [] then .fine
  else if cluType ∉ types e then (if cluType ∈ inherited then .fine else .undeclared)
  else if kube string cluRel ≠ [] ∧
    isOutsideRange string (kube string cluRel) (rangeOf e cluType) = true then .outside
  else .fine

/-- What the preflight says of it. -/
def pyVerdict (cluRel : Json) (e : MatrixEntry) : Verdict :=
  if types e = [] ∨ cluType = [] then .fine
  else if cluType ∉ types e then .undeclared
  else if kubernetesMinor cluRel ≠ [] ∧ isOutside (kubernetesMinor cluRel) (rangeOf e cluType) = true then
    .outside
  else .fine

/-- What is said in words is the same. -/
def SameWords (jsRel pyRel : Json) (e e' : MatrixEntry) : Verdict → Prop
  | .fine => True
  | .undeclared => shownVersion string e = e'.shown ∧
      joinNames (sortNames (types e)) = joinNames (sorted (types e'))
  | .outside => shownVersion string e = e'.shown ∧
      shownBound string (rangeOf e cluType).min =
        ((rangeOf e' cluType).min.map Json.str).getD "any".toList ∧
      shownBound string (rangeOf e cluType).max =
        ((rangeOf e' cluType).max.map Json.str).getD "any".toList ∧
      jsString string jsRel = pyRel.str

/-- Both say the same of the kcluster. -/
def KubernetesAgrees (jsRel pyRel : Json) (e e' : MatrixEntry) : Prop :=
  jsVerdict string cluType jsRel e = pyVerdict cluType pyRel e' ∧
    SameWords string cluType jsRel pyRel e e' (pyVerdict cluType pyRel e')

/-- Both say the same of the variants. -/
def VariantsAgree (variants : List Text) (e e' : MatrixEntry) : Prop :=
  (∀ v ∈ variants, Rejects e.os v ↔ Rejects e'.os v) ∧
    ((∃ v ∈ variants, Rejects e.os v) → shownVersion string e = e'.shown ∧ joinNames e.os = joinNames e'.os)

/-- **Both say the same of a field**: they find the same of its value, and say the same of what they find.
A value that only one of them has is one that it says nothing of. -/
def FieldAgrees (jsRel pyRel : Json) (variants : List Text) (entries : List MatrixEntry)
    (jsValue pyValue : Option Json) : Prop :=
  match jsListing string entries jsValue, pyListing entries pyValue with
  | .unset, .unset => True
  | .unset, .entry e => pyVerdict cluType pyRel e = .fine ∧ ∀ v ∈ variants, ¬ Rejects e.os v
  | .entry e, .unset => jsVerdict string cluType jsRel e = .fine ∧ ∀ v ∈ variants, ¬ Rejects e.os v
  | .unlisted, .unlisted => jsValue.map (jsString string) = pyValue.map Json.str ∧
      declaredOrNone (versionSuggestions string entries) = declaredOrNone (suggestions entries)
  | .entry e, .entry e' => KubernetesAgrees string cluType jsRel pyRel e e' ∧
      VariantsAgree string variants e e'
  | _, _ => False

end Sides

/-! ## Issues of one field -/

/-- An issue about a variant. -/
def isVariant : Issue → Bool
  | .variant .. => true
  | _ => false

/-- What is said of a kcluster, in the words of one side. -/
def said (undeclared outside : Issue) : Verdict → List Issue
  | .fine => []
  | .undeclared => [undeclared]
  | .outside => [outside]

/-- What is said of the variants, which stand in the order of one side. -/
def variantsOf (field version : Text) (allowed names : List Text) : List Issue :=
  if allowed = [] then []
  else (names.filter (· ∉ allowed)).map fun v => .variant field version v (joinNames allowed)

/-- The issues of a value, by what is found of it. -/
def issuesOf (field shown declared : Text) (ofEntry : MatrixEntry → List Issue) : Listing → List Issue
  | .unset => []
  | .unlisted => [.unlisted field shown declared]
  | .entry e => ofEntry e

section Fields

variable {string : Json → Text} {cluType field version version' : Text} {cluRel jsRel pyRel : Json}
  {variants allowed allowed' names names' : List Text} {entries : List MatrixEntry} {e : MatrixEntry}

theorem mem_variantsOf {issue : Issue} : issue ∈ variantsOf field version allowed names ↔
    ∃ v ∈ names, Rejects allowed v ∧ issue = .variant field version v (joinNames allowed) := by
  unfold variantsOf
  split
  · rename_i h
    exact ⟨fun hm => absurd hm List.not_mem_nil, fun ⟨_, _, hr, _⟩ => absurd h hr.1⟩
  · rename_i h
    simp only [List.mem_map, List.mem_filter, decide_eq_true_eq]
    constructor
    · rintro ⟨v, ⟨hv, hn⟩, rfl⟩
      exact ⟨v, hv, ⟨h, hn⟩, rfl⟩
    · rintro ⟨v, hv, hr, rfl⟩
      exact ⟨v, ⟨hv, hr.2⟩, rfl⟩

theorem nodup_variantsOf (h : names.Nodup) : (variantsOf field version allowed names).Nodup := by
  unfold variantsOf
  split
  · exact List.nodup_nil
  · exact (h.filter _).map fun a b hab => (Issue.variant.inj hab).2.2.1

theorem variantsOf_eq_nil_iff (hm : ∀ v, v ∈ names ↔ v ∈ variants) :
    variantsOf field version allowed names = [] ↔ ∀ v ∈ variants, ¬ Rejects allowed v := by
  rw [List.eq_nil_iff_forall_not_mem]
  constructor
  · intro h v hv hr
    exact h _ (mem_variantsOf.mpr ⟨v, (hm v).mpr hv, hr, rfl⟩)
  · intro h issue hi
    obtain ⟨v, hv, hr, -⟩ := mem_variantsOf.mp hi
    exact h v ((hm v).mp hv) hr

/-- **What is said of the variants** is the same in any order. -/
theorem variantsOf_perm_iff (hnd : names.Nodup) (hnd' : names'.Nodup) (hm : ∀ v, v ∈ names ↔ v ∈ variants)
    (hm' : ∀ v, v ∈ names' ↔ v ∈ variants) :
    (variantsOf field version allowed names).Perm (variantsOf field version' allowed' names') ↔
      (∀ v ∈ variants, Rejects allowed v ↔ Rejects allowed' v) ∧
        ((∃ v ∈ variants, Rejects allowed v) → version = version' ∧ joinNames allowed = joinNames allowed') := by
  have hinj : ∀ {v v' d d' : Text}, Issue.variant field version v d = .variant field version' v' d' →
      version = version' ∧ v = v' ∧ d = d' := fun h => (Issue.variant.inj h).2
  rw [List.perm_ext_iff_of_nodup (nodup_variantsOf hnd) (nodup_variantsOf hnd')]
  simp only [mem_variantsOf]
  constructor
  · intro h
    refine ⟨fun v hv => ⟨fun hr => ?_, fun hr => ?_⟩, ?_⟩
    · obtain ⟨v', _, hr', he⟩ := (h _).mp ⟨v, (hm v).mpr hv, hr, rfl⟩
      exact (hinj he).2.1 ▸ hr'
    · obtain ⟨v', _, hr', he⟩ := (h _).mpr ⟨v, (hm' v).mpr hv, hr, rfl⟩
      exact (hinj he.symm).2.1 ▸ hr'
    · rintro ⟨v, hv, hr⟩
      obtain ⟨v', _, _, he⟩ := (h _).mp ⟨v, (hm v).mpr hv, hr, rfl⟩
      exact ⟨(hinj he).1, (hinj he).2.2⟩
  · rintro ⟨hr, hw⟩ issue
    constructor
    · rintro ⟨v, hv, hv', rfl⟩
      have hv := (hm v).mp hv
      obtain ⟨hver, hall⟩ := hw ⟨v, hv, hv'⟩
      exact ⟨v, (hm' v).mpr hv, (hr v hv).mp hv', by rw [hver, hall]⟩
    · rintro ⟨v, hv, hv', rfl⟩
      have hv := (hm' v).mp hv
      obtain ⟨hver, hall⟩ := hw ⟨v, hv, (hr v hv).mpr hv'⟩
      exact ⟨v, (hm v).mpr hv, (hr v hv).mpr hv', by rw [hver, hall]⟩

theorem toList_kubeIssue :
    (e.kubernetes.bind (kubeIssue string field version cluType cluRel)).toList =
      said (.undeclared field version cluType (joinNames (sortNames (types e))))
        (.outside field version (shownBound string (rangeOf e cluType).min)
          (shownBound string (rangeOf e cluType).max) cluType (jsString string cluRel))
        (jsVerdict string cluType cluRel e) := by
  unfold jsVerdict types rangeOf
  cases e.kubernetes with
  | none => rfl
  | some supported =>
    simp only [Option.bind_some, kubeIssue, Option.isNone_some, Bool.false_eq_true, false_or, Option.map_some,
      Option.getD_some]
    by_cases ht : cluType = []
    · rw [if_pos ht, if_pos ht]
      rfl
    · rw [if_neg ht, if_neg ht]
      by_cases hk : cluType ∈ supported.keys
      · rw [if_neg fun h => h.1 hk, if_neg (not_not.mpr hk)]
        split <;> rfl
      · rw [if_pos hk]
        by_cases hi : cluType ∈ inherited
        · -- what an object inherits has no bounds
          have hrange : isOutsideRange string (kube string cluRel) ⟨none, none⟩ = false := by
            have hb : jsBound string none = [] := rfl
            simp [isOutsideRange, hb]
          rw [if_neg fun h => h.2 hi, if_pos hi, Obj.not_mem_keys_iff.mp hk, Option.bind_none,
            Option.getD_none, if_neg fun h => Bool.false_ne_true (hrange.symm.trans h.2)]
          rfl
        · rw [if_pos ⟨hk, hi⟩, if_neg hi]
          rfl

theorem toList_kubernetesIssue :
    (e.kubernetes.bind (kubernetesIssue field version cluType cluRel)).toList =
      said (.undeclared field version cluType (joinNames (sorted (types e))))
        (.outside field version (((rangeOf e cluType).min.map Json.str).getD "any".toList)
          (((rangeOf e cluType).max.map Json.str).getD "any".toList) cluType cluRel.str)
        (pyVerdict cluType cluRel e) := by
  unfold pyVerdict types rangeOf
  cases e.kubernetes with
  | none => rfl
  | some supported =>
    have hnil : supported.entries.isEmpty = true ↔ supported.keys = [] := by
      rw [List.isEmpty_iff, Obj.keys, List.map_eq_nil_iff]
    simp only [Option.bind_some, kubernetesIssue, hnil, Option.map_some, Option.getD_some]
    by_cases ht : supported.keys = [] ∨ cluType = []
    · rw [if_pos ht, if_pos ht]
      rfl
    · rw [if_neg ht, if_neg ht]
      by_cases hk : cluType ∈ supported.keys
      · obtain ⟨rng, hg⟩ := Obj.mem_keys_iff.mp hk
        rw [if_neg (not_not.mpr hk)]
        simp only [hg, Option.bind_some, id]
        split <;> rfl
      · rw [if_pos hk]
        simp only [Obj.not_mem_keys_iff.mp hk]
        rfl

/-- What the web UI says of an entry. -/
def jsEntryIssues (string : Json → Text) (cluType : Text) (cluRel : Json) (variants : List Text)
    (field : Text) (e : MatrixEntry) : List Issue :=
  (e.kubernetes.bind (kubeIssue string field (shownVersion string e) cluType cluRel)).toList ++
    variantIssues field (shownVersion string e) e.os variants

/-- What the preflight says of it. -/
def pyEntryIssues (cluType : Text) (cluRel : Json) (variants : List Text) (field : Text) (e : MatrixEntry) :
    List Issue :=
  (e.kubernetes.bind (kubernetesIssue field e.shown cluType cluRel)).toList ++
    osIssues field e.shown e.os variants

theorem jsListing_some {v : Json} (hnull : v ≠ .null) (hempty : v ≠ .text []) :
    jsListing string entries (some v) = (findEntry string entries (jsString string v)).elim .unlisted .entry := by
  unfold jsListing
  split
  · rename_i h
    cases h
  · rename_i h
    exact absurd (Option.some.inj h) hnull
  · rename_i h
    exact absurd (Option.some.inj h) hempty
  · rename_i h
    rw [Option.some.inj h]

theorem pyListing_some {v : Json} (hnull : v ≠ .null) (hempty : v ≠ .text []) :
    pyListing entries (some v) = (entryFor entries v.str).elim .unlisted .entry := by
  unfold pyListing
  split
  · rename_i h
    cases h
  · rename_i h
    exact absurd (Option.some.inj h) hnull
  · rename_i h
    exact absurd (Option.some.inj h) hempty
  · rename_i h
    rw [Option.some.inj h]

theorem versionIssuesOf_eq (value : Option Json) :
    versionIssuesOf string cluType jsRel variants field entries value =
      issuesOf field ((value.map (jsString string)).getD [])
        (declaredOrNone (versionSuggestions string entries))
        (jsEntryIssues string cluType jsRel variants field) (jsListing string entries value) := by
  unfold versionIssuesOf
  split
  · rfl
  · rfl
  · rfl
  · rename_i v hnull hempty
    rw [jsListing_some hnull hempty]
    cases findEntry string entries (jsString string v) <;> rfl

theorem fieldIssues_eq (value : Option Json) :
    fieldIssues cluType pyRel variants field entries value =
      issuesOf field ((value.map Json.str).getD []) (declaredOrNone (suggestions entries))
        (pyEntryIssues cluType pyRel variants field) (pyListing entries value) := by
  unfold fieldIssues
  split
  · rfl
  · rfl
  · rfl
  · rename_i v hnull hempty
    rw [pyListing_some hnull hempty]
    cases entryFor entries v.str <;> rfl

theorem variantIssues_eq : variantIssues field version allowed variants =
    variantsOf field version allowed (sortNames variants.eraseDups) := rfl

theorem osIssues_eq : osIssues field version allowed variants =
    variantsOf field version allowed (sorted variants.eraseDups) := rfl

theorem nodup_sortNames (h : names.Nodup) : (sortNames names).Nodup :=
  (List.perm_insertionSort _ _).nodup_iff.mpr h

theorem mem_sortNames {v : Text} : v ∈ sortNames variants.eraseDups ↔ v ∈ variants :=
  (List.mem_insertionSort _).trans List.mem_eraseDups

theorem nodup_sorted (h : names.Nodup) : (sorted names).Nodup := (List.perm_insertionSort _ _).nodup_iff.mpr h

theorem mem_sorted_eraseDups {v : Text} : v ∈ sorted variants.eraseDups ↔ v ∈ variants :=
  mem_sorted.trans List.mem_eraseDups

theorem isVariant_of_mem_variantsOf : ∀ issue ∈ variantsOf field version allowed names, isVariant issue = true := by
  intro issue h
  obtain ⟨_, _, _, rfl⟩ := mem_variantsOf.mp h
  rfl

theorem isVariant_of_mem_said {u o : Issue} (hu : isVariant u = false) (ho : isVariant o = false)
    (v : Verdict) : ∀ issue ∈ said u o v, isVariant issue = false := by
  intro issue h
  cases v with
  | fine => exact absurd h List.not_mem_nil
  | undeclared => exact List.mem_singleton.mp h ▸ hu
  | outside => exact List.mem_singleton.mp h ▸ ho

theorem said_eq_nil_iff {u o : Issue} {v : Verdict} : said u o v = [] ↔ v = .fine := by
  cases v <;> simp [said]

theorem jsEntryIssues_eq_nil_iff : jsEntryIssues string cluType jsRel variants field e = [] ↔
    jsVerdict string cluType jsRel e = .fine ∧ ∀ v ∈ variants, ¬ Rejects e.os v := by
  unfold jsEntryIssues
  rw [List.append_eq_nil_iff, toList_kubeIssue, said_eq_nil_iff, variantIssues_eq,
    variantsOf_eq_nil_iff fun _ => mem_sortNames]

theorem pyEntryIssues_eq_nil_iff : pyEntryIssues cluType pyRel variants field e = [] ↔
    pyVerdict cluType pyRel e = .fine ∧ ∀ v ∈ variants, ¬ Rejects e.os v := by
  unfold pyEntryIssues
  rw [List.append_eq_nil_iff, toList_kubernetesIssue, said_eq_nil_iff, osIssues_eq,
    variantsOf_eq_nil_iff fun _ => mem_sorted_eraseDups]

/-- **What is said of an entry** is the same exactly when it is of the kcluster and of the variants. -/
theorem entryIssues_perm_iff {e' : MatrixEntry} :
    (jsEntryIssues string cluType jsRel variants field e).Perm (pyEntryIssues cluType pyRel variants field e') ↔
      KubernetesAgrees string cluType jsRel pyRel e e' ∧ VariantsAgree string variants e e' := by
  unfold jsEntryIssues pyEntryIssues
  rw [toList_kubeIssue, toList_kubernetesIssue, variantIssues_eq, osIssues_eq,
    perm_append_iff (isVariant_of_mem_said rfl rfl _) isVariant_of_mem_variantsOf
      (isVariant_of_mem_said rfl rfl _) isVariant_of_mem_variantsOf,
    variantsOf_perm_iff (nodup_sortNames (nodup_eraseDups _)) (nodup_sorted (nodup_eraseDups _))
      (fun _ => mem_sortNames) fun _ => mem_sorted_eraseDups]
  refine and_congr_left' ?_
  unfold KubernetesAgrees
  cases jsVerdict string cluType jsRel e <;> cases pyVerdict cluType pyRel e' <;>
    simp [said, SameWords]

/-- An entry that is found leaves no version unlisted. -/
theorem unlisted_not_mem {u o : Issue} {shown declared : Text} (v : Verdict)
    (hu : u ≠ .unlisted field shown declared) (ho : o ≠ .unlisted field shown declared) :
    .unlisted field shown declared ∉ said u o v ++ variantsOf field version allowed names := by
  intro h
  rcases List.mem_append.mp h with h | h
  · cases v with
    | fine => exact List.not_mem_nil h
    | undeclared => exact hu (List.mem_singleton.mp h).symm
    | outside => exact ho (List.mem_singleton.mp h).symm
  · obtain ⟨_, _, _, he⟩ := mem_variantsOf.mp h
    cases he

theorem unlisted_not_mem_jsEntryIssues {shown declared : Text} :
    .unlisted field shown declared ∉ jsEntryIssues string cluType jsRel variants field e := by
  unfold jsEntryIssues
  rw [toList_kubeIssue]
  exact unlisted_not_mem _ (fun h => by cases h) fun h => by cases h

theorem unlisted_not_mem_pyEntryIssues {shown declared : Text} :
    .unlisted field shown declared ∉ pyEntryIssues cluType pyRel variants field e := by
  unfold pyEntryIssues
  rw [toList_kubernetesIssue]
  exact unlisted_not_mem _ (fun h => by cases h) fun h => by cases h

theorem exists_of_jsListing_ne {value : Option Json} (h : jsListing string entries value ≠ .unset) :
    ∃ v, value = some v := by
  cases value with
  | none => exact absurd rfl h
  | some v => exact ⟨v, rfl⟩

theorem exists_of_pyListing_ne {value : Option Json} (h : pyListing entries value ≠ .unset) :
    ∃ v, value = some v := by
  cases value with
  | none => exact absurd rfl h
  | some v => exact ⟨v, rfl⟩

/-- **The issues of a field** are the same exactly when both say the same of it. -/
theorem fieldIssues_perm_iff {jsValue pyValue : Option Json} :
    (versionIssuesOf string cluType jsRel variants field entries jsValue).Perm
        (fieldIssues cluType pyRel variants field entries pyValue) ↔
      FieldAgrees string cluType jsRel pyRel variants entries jsValue pyValue := by
  rw [versionIssuesOf_eq, fieldIssues_eq]
  unfold FieldAgrees
  cases hj : jsListing string entries jsValue with
  | unset =>
    cases pyListing entries pyValue with
    | unset => exact iff_of_true (List.Perm.refl _) trivial
    | unlisted => exact iff_of_false (fun h => List.not_mem_nil (h.mem_iff.mpr List.mem_cons_self)) id
    | entry e => exact List.nil_perm.trans pyEntryIssues_eq_nil_iff
  | unlisted =>
    cases hp : pyListing entries pyValue with
    | unset => exact iff_of_false (fun h => List.not_mem_nil (h.mem_iff.mp List.mem_cons_self)) id
    | unlisted =>
      obtain ⟨v, rfl⟩ := exists_of_jsListing_ne fun h => by rw [hj] at h; cases h
      obtain ⟨w, rfl⟩ := exists_of_pyListing_ne fun h => by rw [hp] at h; cases h
      simp [issuesOf]
    | entry e =>
      exact iff_of_false
        (fun h => unlisted_not_mem_pyEntryIssues (h.mem_iff.mp List.mem_cons_self)) id
  | entry e =>
    cases pyListing entries pyValue with
    | unset => exact List.perm_nil.trans jsEntryIssues_eq_nil_iff
    | unlisted =>
      exact iff_of_false
        (fun h => unlisted_not_mem_jsEntryIssues (h.mem_iff.mpr List.mem_cons_self)) id
    | entry e' => exact entryIssues_perm_iff

theorem field_of_mem_variantsOf : ∀ issue ∈ variantsOf field version allowed names, issue.field = field := by
  intro issue h
  obtain ⟨_, _, _, rfl⟩ := mem_variantsOf.mp h
  rfl

theorem field_of_mem_issuesOf {shown declared : Text} {ofEntry : MatrixEntry → List Issue} {l : Listing}
    (h : ∀ e, ∀ issue ∈ ofEntry e, issue.field = field) :
    ∀ issue ∈ issuesOf field shown declared ofEntry l, issue.field = field := by
  intro issue hi
  cases l with
  | unset => exact absurd hi List.not_mem_nil
  | unlisted => exact List.mem_singleton.mp hi ▸ rfl
  | entry e => exact h e issue hi

theorem field_of_mem_said {u o : Issue} (hu : u.field = field) (ho : o.field = field) (v : Verdict) :
    ∀ issue ∈ said u o v ++ variantsOf field version allowed names, issue.field = field := by
  intro issue h
  rcases List.mem_append.mp h with h | h
  · cases v with
    | fine => exact absurd h List.not_mem_nil
    | undeclared => exact List.mem_singleton.mp h ▸ hu
    | outside => exact List.mem_singleton.mp h ▸ ho
  · exact field_of_mem_variantsOf issue h

theorem field_of_mem_versionIssuesOf {value : Option Json} :
    ∀ issue ∈ versionIssuesOf string cluType jsRel variants field entries value, issue.field = field := by
  rw [versionIssuesOf_eq]
  refine field_of_mem_issuesOf fun e => ?_
  unfold jsEntryIssues
  rw [toList_kubeIssue]
  exact fun issue hi => field_of_mem_said (by rfl) (by rfl) _ issue hi

theorem field_of_mem_fieldIssues {value : Option Json} :
    ∀ issue ∈ fieldIssues cluType pyRel variants field entries value, issue.field = field := by
  rw [fieldIssues_eq]
  refine field_of_mem_issuesOf fun e => ?_
  unfold pyEntryIssues
  rw [toList_kubernetesIssue]
  exact fun issue hi => field_of_mem_said (by rfl) (by rfl) _ issue hi

/-- **Two lists of warnings** are the same exactly when every field of the matrix agrees. -/
theorem versionIssues_perm_iff {versions : Matrix} {jsCfg pyCfg : Obj Text Json} :
    (versionIssues string versions jsCfg cluType jsRel variants).Perm
        (issues versions pyCfg cluType pyRel variants) ↔
      ∀ e ∈ versions.entries, FieldAgrees string cluType jsRel pyRel variants e.2
        (jsCfg.get e.1) (pyCfg.get e.1) := by
  have hkeys : (sortNames versions.keys).Perm versions.keys := List.perm_insertionSort _ _
  have hsorted : (sorted versions.keys).Perm versions.keys := List.perm_insertionSort _ _
  unfold versionIssues issues
  rw [perm_flatMap_iff (fun k => field_of_mem_versionIssuesOf) (fun k => field_of_mem_fieldIssues)
    (hkeys.nodup_iff.mpr versions.nodup) (hkeys.trans hsorted.symm)]
  simp only [fieldIssues_perm_iff, hkeys.mem_iff]
  constructor
  · intro h e he
    have hk := h e.1 (List.mem_map_of_mem he)
    rwa [Obj.mem_entries_iff.mp he] at hk
  · intro h k hk
    obtain ⟨es, hes⟩ := Obj.mem_keys_iff.mp hk
    rw [hes]
    exact h (k, es) (Obj.mem_entries_iff.mpr hes)

end Fields

end LabInABox.Web
