import LabInABox.JsValue
import LabInABox.Keyed

/-!
# Values at paths

General facts about programs that read and set JSON values by paths of keys.

* A path leads through mappings only. Setting a value makes the mappings on its way that are missing, or
  null; another value on the way stops it.
* Two paths clash when one leads through the end of the other, or they are the same.

Results:
* `at?_setAt_iff`: what is not a mapping, after a value is set.
* `exists_build`: of values set one after another, those are there that no later one clashes with.
* `build_eq_none`: setting them stops exactly when a later path leads on from the end of an earlier one.
-/

namespace LabInABox

namespace JsValue

variable {ν : Type}

/-! ## Reading and setting -/

/-- The value is a mapping. -/
def IsMapping : JsValue ν → Prop
  | mapping _ => True
  | _ => False

/-- The value at a path. -/
def at? : JsValue ν → List Text → Option (JsValue ν)
  | v, [] => some v
  | mapping es, k :: ks => (es.lookup k).bind fun v => v.at? ks
  | _, _ :: _ => none

/-- The value of a key, set where it stands or at the end. -/
def put (es : List (Text × JsValue ν)) (k : Text) (v : JsValue ν) : List (Text × JsValue ν) :=
  if k ∈ es.map Prod.fst then setValue es k v else es ++ [(k, v)]

/-- The value of a key, or a mapping where there is none. -/
def child (es : List (Text × JsValue ν)) (k : Text) : JsValue ν :=
  match es.lookup k with
  | none | some null => mapping []
  | some v => v

/-- The value with another set at a path, unless something is in the way. -/
def setAt : JsValue ν → List Text → JsValue ν → Option (JsValue ν)
  | mapping es, [k], v => some (mapping (put es k v))
  | mapping es, k :: k' :: ks, v => (setAt (child es k) (k' :: ks) v).map fun c => mapping (put es k c)
  | _, _, _ => none

/-- The value with others set, one after another. -/
def build (o : JsValue ν) (as : List (List Text × JsValue ν)) : Option (JsValue ν) :=
  as.foldlM (fun o a => o.setAt a.1 a.2) o

/-- One path leads through the end of the other, or they are the same. -/
def Clash (p q : List Text) : Prop := p <+: q ∨ q <+: p

/-- A path leads on from the end of another. -/
def LeadsOn (p q : List Text) : Prop := p <+: q ∧ p ≠ q

/-- A value that no later one clashes with. -/
def Last (as : List (List Text × JsValue ν)) (a : List Text × JsValue ν) : Prop :=
  ∃ pre post, as = pre ++ a :: post ∧ ∀ b ∈ post, ¬ Clash b.1 a.1

/-! ## One value set -/

theorem Clash.symm {p q : List Text} (h : Clash p q) : Clash q p := Or.symm h

theorem clash_cons_iff {k : Text} {p q : List Text} : Clash (k :: p) (k :: q) ↔ Clash p q := by
  simp [Clash, List.cons_prefix_cons]

theorem not_clash_of_ne {k k' : Text} {p q : List Text} (h : k ≠ k') : ¬ Clash (k :: p) (k' :: q) := by
  simp [Clash, List.cons_prefix_cons, h, Ne.symm h]

variable {o o' v x : JsValue ν} {es : List (Text × JsValue ν)} {k : Text} {p q : List Text}

theorem lookup_of_not_mem (h : k ∉ es.map Prod.fst) : es.lookup k = none := by
  rw [List.lookup_eq_none_iff]
  intro e he
  have hne : k ≠ e.1 := fun hk => h (hk ▸ List.mem_map_of_mem he)
  simpa using hne

theorem lookup_put (es : List (Text × JsValue ν)) (k k' : Text) (v : JsValue ν) :
    (put es k v).lookup k' = if k' = k then some v else es.lookup k' := by
  unfold put
  split
  · rename_i h
    rw [lookup_setValue]
    obtain ⟨w, hw⟩ := exists_lookup_of_mem h
    rw [hw, Option.map_some]
  · rename_i h
    rw [List.lookup_append]
    by_cases hk : k' = k
    · rw [if_pos hk, hk, lookup_of_not_mem h]
      simp
    · rw [if_neg hk]
      have hb : (k' == k) = false := beq_eq_false_iff_ne.mpr hk
      simp [List.lookup_cons, hb]

theorem mem_keys_put {k' : Text} (h : k' ∈ (put es k v).map Prod.fst) : k' = k ∨ k' ∈ es.map Prod.fst := by
  unfold put at h
  split at h
  · rw [map_fst_setValue] at h
    exact Or.inr h
  · rw [List.map_append, List.mem_append] at h
    exact h.symm.imp_left List.mem_singleton.mp

theorem nodup_put (h : (es.map Prod.fst).Nodup) (k : Text) (v : JsValue ν) : ((put es k v).map Prod.fst).Nodup := by
  unfold put
  split
  · rw [map_fst_setValue]
    exact h
  · rename_i hk
    rw [List.map_append, List.nodup_append_comm]
    exact List.nodup_cons.mpr ⟨hk, h⟩

theorem mem_keys_foldl_put {es' : List (Text × JsValue ν)}
    (h : k ∈ (es'.foldl (fun es e => put es e.1 e.2) es).map Prod.fst) :
    k ∈ es'.map Prod.fst ∨ k ∈ es.map Prod.fst := by
  induction es' generalizing es with
  | nil => exact Or.inr h
  | cons e es' ih =>
    rcases ih h with hmem | hmem
    · exact Or.inl (List.mem_cons_of_mem _ hmem)
    · rcases mem_keys_put hmem with rfl | hmem
      · exact Or.inl List.mem_cons_self
      · exact Or.inr hmem

/-- Entries set one after another, each key once. -/
theorem lookup_foldl_put {es' : List (Text × JsValue ν)} (h : (es'.map Prod.fst).Nodup)
    (es : List (Text × JsValue ν)) (k : Text) :
    (es'.foldl (fun es e => put es e.1 e.2) es).lookup k = (es'.lookup k).or (es.lookup k) := by
  induction es' generalizing es with
  | nil => rfl
  | cons e es' ih =>
    obtain ⟨hnew, hnd⟩ := List.nodup_cons.mp h
    rw [List.foldl_cons, ih hnd, lookup_put, List.lookup_cons]
    by_cases hk : k = e.1
    · rw [if_pos hk, hk, lookup_of_not_mem hnew, beq_self_eq_true]
      rfl
    · rw [if_neg hk, beq_eq_false_iff_ne.mpr hk]

theorem nodup_foldl_put (es' : List (Text × JsValue ν)) (h : (es.map Prod.fst).Nodup) :
    ((es'.foldl (fun es e => put es e.1 e.2) es).map Prod.fst).Nodup := by
  induction es' generalizing es with
  | nil => exact h
  | cons e es' ih => exact ih (nodup_put h _ _)

theorem at?_of_not_mapping (h : ¬ IsMapping o) : o.at? p = some x ↔ p = [] ∧ x = o := by
  cases p with
  | nil =>
    rw [at?, Option.some.injEq, eq_comm]
    exact (and_iff_right rfl).symm
  | cons k ks =>
    cases o with
    | mapping es => exact absurd trivial h
    | _ => simp [at?]

theorem at?_nil_mapping (h : ¬ IsMapping x) : (mapping [] : JsValue ν).at? p ≠ some x := by
  cases p with
  | nil =>
    rintro heq
    exact h (Option.some.inj heq ▸ trivial)
  | cons k ks => simp [at?]

/-- Below a key, when it is not the value of the key itself that is asked for. -/
theorem at?_child (h : p ≠ []) (hx : ¬ IsMapping x) :
    (child es k).at? p = some x ↔ (mapping es).at? (k :: p) = some x := by
  rw [at?]
  unfold child
  cases hl : es.lookup k with
  | none => simp [at?_nil_mapping hx]
  | some c =>
    cases c with
    | null =>
      simp only [Option.bind_some, at?_nil_mapping hx, false_iff]
      rw [at?_of_not_mapping (by simp [IsMapping])]
      exact fun hp => h hp.1
    | _ => rfl

/-- **What is not a mapping, after a value is set.** -/
theorem at?_setAt_iff (h : o.setAt p v = some o') (hv : ¬ IsMapping v) (hx : ¬ IsMapping x) :
    o'.at? q = some x ↔ (q = p ∧ x = v) ∨ (¬ Clash p q ∧ o.at? q = some x) := by
  induction p generalizing o o' q with
  | nil => cases o <;> simp [setAt] at h
  | cons k ks ih =>
    cases o with
    | mapping es =>
      cases q with
      | nil =>
        have hclash : Clash (k :: ks) [] := Or.inr List.nil_prefix
        have hmap : IsMapping o' := by
          cases ks with
          | nil =>
            obtain rfl := Option.some.inj h
            trivial
          | cons k' ks =>
            obtain ⟨c, -, rfl⟩ := Option.map_eq_some_iff.mp h
            trivial
        simp only [at?, Option.some.injEq, hclash, not_true_eq_false, false_and, or_false, List.nil_eq, reduceCtorEq,
          iff_false]
        rintro rfl
        exact hx hmap
      | cons k₂ q =>
        cases ks with
        | nil =>
          obtain rfl := Option.some.inj h
          rw [at?, lookup_put]
          by_cases hk : k₂ = k
          · subst hk
            have hclash : Clash [k₂] (k₂ :: q) := Or.inl (by simp)
            simp [at?_of_not_mapping hv, hclash]
          · simp [hk, not_clash_of_ne (Ne.symm hk), at?]
        | cons k' ks =>
          obtain ⟨c, hc, rfl⟩ := Option.map_eq_some_iff.mp h
          rw [at?, lookup_put]
          by_cases hk : k₂ = k
          · subst hk
            rw [if_pos rfl, Option.bind_some, ih hc, clash_cons_iff, List.cons.injEq, and_iff_right rfl]
            refine or_congr Iff.rfl (and_congr_right fun hclash => ?_)
            have hq : q ≠ [] := by
              rintro rfl
              exact hclash (Or.inr List.nil_prefix)
            exact at?_child hq hx
          · simp [hk, not_clash_of_ne (Ne.symm hk), at?]
    | _ => simp [setAt] at h

/-- **A value can be set** where nothing but mappings and null is on the way. -/
theorem exists_setAt (ho : IsMapping o) (hp : p ≠ [])
    (h : ∀ q x, q <+: p → q ≠ p → o.at? q = some x → IsMapping x ∨ x = null) (v : JsValue ν) :
    ∃ o', o.setAt p v = some o' ∧ IsMapping o' := by
  induction p generalizing o with
  | nil => exact absurd rfl hp
  | cons k ks ih =>
    cases o with
    | mapping es =>
      cases ks with
      | nil => exact ⟨_, rfl, trivial⟩
      | cons k' ks =>
        have hchild : IsMapping (child es k) := by
          unfold child
          cases hl : es.lookup k with
          | none => trivial
          | some c =>
            have hc : (mapping es).at? [k] = some c := by rw [at?, hl]; rfl
            rcases h [k] c (by simp) (by simp) hc with hmap | rfl
            · cases c with
              | mapping => trivial
              | _ => exact hmap.elim
            · trivial
        obtain ⟨c, hc, -⟩ := ih hchild (by simp) fun q x hq hne hx => by
          by_cases hq0 : q = []
          · subst hq0
            obtain rfl := Option.some.inj hx
            exact Or.inl hchild
          · by_cases hmap : IsMapping x
            · exact Or.inl hmap
            · exact h (k :: q) x (List.cons_prefix_cons.mpr ⟨rfl, hq⟩) (by simpa using hne) ((at?_child hq0 hmap).mp hx)
        exact ⟨mapping (put es k c), by rw [setAt, hc]; rfl, trivial⟩
    | _ => exact ho.elim

/-- A value that is in the way stops it. -/
theorem setAt_eq_none (hq : LeadsOn q p) (hx : ¬ IsMapping x) (hnull : x ≠ null) (h : o.at? q = some x)
    (v : JsValue ν) : o.setAt p v = none := by
  induction p generalizing o q with
  | nil => exact absurd (List.prefix_nil.mp hq.1) hq.2
  | cons k ks ih =>
    cases q with
    | nil =>
      obtain rfl := Option.some.inj h
      cases o with
      | mapping es => exact absurd trivial hx
      | _ => rfl
    | cons k' q =>
      obtain ⟨rfl, hqks⟩ := List.cons_prefix_cons.mp hq.1
      have hleads : LeadsOn q ks := ⟨hqks, fun heq => hq.2 (by rw [heq])⟩
      cases o with
      | mapping es =>
        rw [at?, Option.bind_eq_some_iff] at h
        obtain ⟨c, hc, hrest⟩ := h
        cases ks with
        | nil => exact absurd (List.prefix_nil.mp hleads.1) hleads.2
        | cons k'' ks =>
          have hchild : child es k' = c := by
            unfold child
            rw [hc]
            cases c with
            | null => exact absurd ((at?_of_not_mapping id).mp hrest).2 hnull
            | _ => rfl
          rw [setAt, hchild, ih hleads hrest]
          rfl
      | _ => cases h

/-! ## Values set one after another -/

section Build

variable {as : List (List Text × JsValue ν)} {a : List Text × JsValue ν}

theorem Last.mem (h : Last as a) : a ∈ as := by
  obtain ⟨pre, post, rfl, -⟩ := h
  simp

theorem last_append_singleton_iff {c : List Text × JsValue ν} :
    Last (as ++ [a]) c ↔ c = a ∨ (Last as c ∧ ¬ Clash a.1 c.1) := by
  constructor
  · rintro ⟨pre, post, heq, hpost⟩
    rcases List.eq_nil_or_concat post with rfl | ⟨post', b, rfl⟩
    · exact Or.inl (List.append_inj_right' heq rfl |> List.cons.inj |>.1).symm
    · rw [List.concat_eq_append, ← List.cons_append, ← List.append_assoc] at heq
      obtain ⟨rfl, hb⟩ := List.append_inj' heq rfl
      obtain rfl := (List.cons.inj hb).1
      rw [List.concat_eq_append] at hpost
      exact Or.inr ⟨⟨pre, post', rfl, fun b hb => hpost b (List.mem_append_left _ hb)⟩, hpost _ (by simp)⟩
  · rintro (rfl | ⟨⟨pre, post, rfl, hpost⟩, hclash⟩)
    · exact ⟨as, [], rfl, by simp⟩
    · refine ⟨pre, post ++ [a], by simp, fun b hb => ?_⟩
      rcases List.mem_append.mp hb with hb | hb
      · exact hpost b hb
      · rw [List.mem_singleton.mp hb]
        exact hclash

theorem build_append_singleton (o : JsValue ν) : build o (as ++ [a]) = (build o as).bind fun o => o.setAt a.1 a.2 := by
  rw [build, List.foldlM_append, build]
  simp

theorem pairwise_append_singleton :
    (as ++ [a]).Pairwise (fun b c => ¬ LeadsOn b.1 c.1) ↔
      as.Pairwise (fun b c => ¬ LeadsOn b.1 c.1) ∧ ∀ b ∈ as, ¬ LeadsOn b.1 a.1 := by
  simp [List.pairwise_append]

/-- **Values set one after another**, where no path leads on from the end of an earlier one: those are there
that no later one clashes with. -/
theorem exists_build (hne : ∀ a ∈ as, a.1 ≠ []) (hvalues : ∀ a ∈ as, ¬ IsMapping a.2)
    (h : as.Pairwise fun b c => ¬ LeadsOn b.1 c.1) : ∃ o, build (mapping []) as = some o ∧ IsMapping o ∧
      ∀ q x, ¬ IsMapping x → (o.at? q = some x ↔ Last as (q, x)) := by
  induction as using List.reverseRecOn with
  | nil =>
    refine ⟨mapping [], rfl, trivial, fun q x hx => iff_of_false (at?_nil_mapping hx) fun hlast => ?_⟩
    exact absurd hlast.mem List.not_mem_nil
  | append_singleton as a ih =>
    obtain ⟨hfree, hway⟩ := pairwise_append_singleton.mp h
    obtain ⟨o, ho, hmap, hleaf⟩ := ih (fun b hb => hne b (List.mem_append_left _ hb))
      (fun b hb => hvalues b (List.mem_append_left _ hb)) hfree
    obtain ⟨o', ho', hmap'⟩ := exists_setAt hmap (hne a (by simp)) (fun q x hq hne hx => by
      by_contra hcon
      have hlast := (hleaf q x fun hmap => hcon (Or.inl hmap)).mp hx
      exact hway _ hlast.mem ⟨hq, hne⟩) a.2
    refine ⟨o', by rw [build_append_singleton, ho]; exact ho', hmap', fun q x hx => ?_⟩
    rw [at?_setAt_iff ho' (hvalues a (by simp)) hx, hleaf q x hx, last_append_singleton_iff, Prod.ext_iff, and_comm
      (a := ¬ _)]

/-- A value in the way of a path is there at the end. -/
theorem exists_last (h : as.Pairwise fun b c => ¬ LeadsOn b.1 c.1) {p : List Text} (ha : a ∈ as)
    (hp : LeadsOn a.1 p) : ∃ c, Last as c ∧ LeadsOn c.1 p := by
  induction as using List.reverseRecOn with
  | nil => cases ha
  | append_singleton as b ih =>
    obtain ⟨hfree, hway⟩ := pairwise_append_singleton.mp h
    by_cases hb : LeadsOn b.1 p
    · exact ⟨b, last_append_singleton_iff.mpr (Or.inl rfl), hb⟩
    · have hmem : a ∈ as := by
        rcases List.mem_append.mp ha with hmem | hmem
        · exact hmem
        · exact absurd (List.mem_singleton.mp hmem ▸ hp) hb
      obtain ⟨c, hlast, hc⟩ := ih hfree hmem
      refine ⟨c, last_append_singleton_iff.mpr (Or.inr ⟨hlast, ?_⟩), hc⟩
      rintro (hclash | hclash)
      · refine hb ⟨hclash.trans hc.1, fun heq => ?_⟩
        rw [heq] at hclash
        exact hc.2 (hc.1.eq_of_length_le hclash.length_le)
      · by_cases heq : c.1 = b.1
        · exact hb (heq ▸ hc)
        · exact hway c hlast.mem ⟨hclash, heq⟩

/-- **Setting values stops** where a path leads on from the end of an earlier one. -/
theorem build_eq_none (hne : ∀ a ∈ as, a.1 ≠ []) (hvalues : ∀ a ∈ as, ¬ IsMapping a.2 ∧ a.2 ≠ null)
    (h : ¬ as.Pairwise fun b c => ¬ LeadsOn b.1 c.1) : build (mapping []) as = none := by
  induction as using List.reverseRecOn with
  | nil => exact absurd List.Pairwise.nil h
  | append_singleton as a ih =>
    have hne' : ∀ b ∈ as, b.1 ≠ [] := fun b hb => hne b (List.mem_append_left _ hb)
    have hvalues' : ∀ b ∈ as, ¬ IsMapping b.2 ∧ b.2 ≠ null := fun b hb => hvalues b (List.mem_append_left _ hb)
    rw [build_append_singleton]
    by_cases hfree : as.Pairwise fun b c => ¬ LeadsOn b.1 c.1
    · obtain ⟨o, ho, -, hleaf⟩ := exists_build hne' (fun b hb => (hvalues' b hb).1) hfree
      have hway : ∃ b ∈ as, LeadsOn b.1 a.1 := by
        by_contra hcon
        exact h (pairwise_append_singleton.mpr ⟨hfree, fun b hb hleads => hcon ⟨b, hb, hleads⟩⟩)
      obtain ⟨b, hb, hleads⟩ := hway
      obtain ⟨c, hlast, hc⟩ := exists_last hfree hb hleads
      obtain ⟨hmap, hnull⟩ := hvalues' c hlast.mem
      rw [ho]
      exact setAt_eq_none hc hmap hnull ((hleaf c.1 c.2 hmap).mpr hlast) a.2
    · rw [ih hne' hvalues' hfree]
      rfl

end Build

end JsValue

end LabInABox
