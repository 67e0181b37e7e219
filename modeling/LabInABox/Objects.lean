import LabInABox.Keyed

/-!
# Objects

General facts about programs that build objects: entries in the order of their keys, no key twice.

* `set` replaces the value where the key stands, or adds the entry at the end. `assign` sets one entry
  after another.
* An object `Represents` what looking up gives, so that selecting entries is that of `Keyed`.

Results:
* `get_assign`: the last entry of a key counts, and the other keys stay as they were.
* `entries_assign`: entries of distinct keys are taken over as they stand.
-/

namespace LabInABox

/-! ## The last entry of a key -/

section DictGet

variable {κ β : Type*} [BEq κ]

theorem dictGet_append (es es' : List (κ × β)) (k : κ) :
    dictGet (es ++ es') k = (dictGet es' k).or (dictGet es k) := by
  rw [dictGet, List.reverse_append, List.lookup_append]
  rfl

theorem dictGet_map {γ : Type*} (es : List (κ × β)) (f : β → γ) (k : κ) :
    dictGet (es.map fun e => (e.1, f e.2)) k = (dictGet es k).map f := by
  unfold dictGet
  rw [← List.map_reverse]
  induction es.reverse with
  | nil => rfl
  | cons e es ih =>
    rw [List.map_cons, List.lookup_cons, List.lookup_cons]
    cases k == e.1 with
    | true => rfl
    | false => exact ih

variable [LawfulBEq κ] {es : List (κ × β)} {k : κ}

theorem dictGet_eq_none (h : k ∉ es.map Prod.fst) : dictGet es k = none := by
  rw [dictGet, List.lookup_eq_none_iff]
  intro e he
  have hne : k ≠ e.1 := fun hk => h (hk ▸ List.mem_map_of_mem (List.mem_reverse.mp he))
  simpa using hne

/-- A key whose entries all have one value. -/
theorem dictGet_eq_of_forall {w : Option β} (h : ∀ e ∈ es, e.1 = k → some e.2 = w)
    (hk : k ∈ es.map Prod.fst) : dictGet es k = w := by
  have hr : k ∈ es.reverse.map Prod.fst := by
    rw [List.map_reverse, List.mem_reverse]
    exact hk
  obtain ⟨v, hv⟩ := exists_lookup_of_mem hr
  obtain ⟨l₁, l₂, hl, _⟩ := List.lookup_eq_some_iff.mp hv
  have hm : (k, v) ∈ es := by
    rw [← List.mem_reverse, hl]
    exact List.mem_append_right _ List.mem_cons_self
  rw [dictGet, hv]
  exact h _ hm rfl

end DictGet

/-! ## Objects -/

/-- Entries in the order of their keys. -/
@[ext]
structure Obj (κ β : Type*) where
  entries : List (κ × β)
  nodup : (entries.map Prod.fst).Nodup

namespace Obj

variable {κ β γ : Type*}

/-- The keys, in order. -/
def keys (o : Obj κ β) : List κ := o.entries.map Prod.fst

/-- No entry. -/
def empty : Obj κ β := ⟨[], List.nodup_nil⟩

variable [DecidableEq κ]

/-- The value of a key. -/
def get (o : Obj κ β) (k : κ) : Option β := o.entries.lookup k

theorem represents (o : Obj κ β) : Represents o.entries o.get where
  nodup := o.nodup
  mem_iff k v := by
    constructor
    · exact lookup_of_mem o.nodup
    · intro h
      obtain ⟨l₁, l₂, hl, _⟩ := List.lookup_eq_some_iff.mp h
      rw [hl]
      exact List.mem_append_right _ List.mem_cons_self

theorem nodup_append_singleton {o : Obj κ β} {k : κ} (h : k ∉ o.keys) (v : β) :
    ((o.entries ++ [(k, v)]).map Prod.fst).Nodup :=
  (o.represents.insert (o.represents.not_mem_keys.mp h) v).nodup

/-- The value of a key replaced where it stands, or added at the end. -/
def set (o : Obj κ β) (k : κ) (v : β) : Obj κ β :=
  if h : k ∈ o.keys then
    ⟨setValue o.entries k v, by rw [map_fst_setValue]; exact o.nodup⟩
  else
    ⟨o.entries ++ [(k, v)], nodup_append_singleton h v⟩

/-- The entries, set one after another. -/
def assign (o : Obj κ β) (es : List (κ × β)) : Obj κ β := es.foldl (fun o e => o.set e.1 e.2) o

/-- The entries that the test selects. -/
def filter (o : Obj κ β) (p : κ × β → Bool) : Obj κ β :=
  ⟨o.entries.filter p, (o.represents.filter p).nodup⟩

/-- The entries, each with the value it is given; one that is given none is left out. -/
def filterMap (o : Obj κ β) (f : κ → β → Option γ) : Obj κ γ :=
  ⟨o.entries.filterMap fun e => (f e.1 e.2).map (Prod.mk e.1), (o.represents.filterMap f).nodup⟩

/-- No entry under the key. -/
def erase (o : Obj κ β) (k : κ) : Obj κ β := o.filter fun e => decide (e.1 ≠ k)

variable {o : Obj κ β}

theorem mem_entries_iff {k : κ} {v : β} : (k, v) ∈ o.entries ↔ o.get k = some v :=
  o.represents.mem_iff k v

theorem mem_keys_iff {k : κ} : k ∈ o.keys ↔ ∃ v, o.get k = some v := by
  simp only [keys, List.mem_map, Prod.exists, exists_and_right, exists_eq_right, mem_entries_iff]

theorem not_mem_keys_iff {k : κ} : k ∉ o.keys ↔ o.get k = none := o.represents.not_mem_keys

@[simp] theorem get_empty (k : κ) : (empty : Obj κ β).get k = none := rfl

theorem get_eq_of_represents {o : Obj κ β} {m : κ → Option β} (h : Represents o.entries m) (k : κ) :
    o.get k = m k := by
  cases hm : m k with
  | none => exact not_mem_keys_iff.mp (h.not_mem_keys.mpr hm)
  | some v => exact mem_entries_iff.mp ((h.mem_iff k v).mpr hm)

theorem get_filter (p : κ × β → Bool) (k : κ) :
    (o.filter p).get k = (o.get k).filter fun v => p (k, v) :=
  get_eq_of_represents (o := o.filter p) (o.represents.filter p) k

theorem get_filterMap (f : κ → β → Option γ) (k : κ) :
    (o.filterMap f).get k = (o.get k).bind (f k) :=
  get_eq_of_represents (o := o.filterMap f) (o.represents.filterMap f) k

theorem get_erase (k k' : κ) : (o.erase k).get k' = if k' = k then none else o.get k' := by
  unfold erase
  rw [get_filter]
  by_cases hk : k' = k
  · rw [if_pos hk]
    cases o.get k' <;> simp [hk]
  · rw [if_neg hk]
    cases o.get k' <;> simp [hk]

theorem get_set (k k' : κ) (v : β) : (o.set k v).get k' = if k' = k then some v else o.get k' := by
  unfold set
  split
  · rename_i h
    obtain ⟨w, hw⟩ := mem_keys_iff.mp h
    have hl : o.entries.lookup k = some w := hw
    rw [get, lookup_setValue, hl]
    rfl
  · rename_i h
    have hi := o.represents.insert (o.represents.not_mem_keys.mp h) v
    rw [get_eq_of_represents (o := ⟨o.entries ++ [(k, v)], _⟩) hi, Function.update_apply]

theorem keys_set_of_mem {k : κ} (h : k ∈ o.keys) (v : β) : (o.set k v).keys = o.keys := by
  unfold set
  rw [dif_pos h]
  exact map_fst_setValue _ _ _

theorem dictGet_entries (o : Obj κ β) (k : κ) : dictGet o.entries k = o.get k := o.represents.dictGet_eq k

/-- **Setting entries**: the last entry of a key counts. -/
theorem get_assign (es : List (κ × β)) (o : Obj κ β) (k : κ) :
    (o.assign es).get k = (dictGet es k).or (o.get k) := by
  induction es generalizing o with
  | nil => rfl
  | cons e es ih =>
    have hc : o.assign (e :: es) = (o.set e.1 e.2).assign es := rfl
    rw [hc, ih, get_set]
    unfold dictGet
    rw [List.reverse_cons, List.lookup_append]
    cases es.reverse.lookup k with
    | some v => rfl
    | none =>
      have hone : [e].reverse.lookup k = if k = e.1 then some e.2 else none := by
        rw [List.reverse_singleton, List.lookup_cons, List.lookup_nil]
        by_cases hk : k = e.1
        · simp [hk]
        · rw [beq_false_of_ne hk, if_neg hk]
      rw [Option.none_or, Option.none_or, ← List.reverse_singleton, hone]
      split <;> rfl

/-- The same, for any equality test of the keys. -/
theorem get_assign_of_lawful [i : BEq κ] [LawfulBEq κ] (es : List (κ × β)) (o : Obj κ β) (k : κ) :
    (o.assign es).get k = (dictGet es k).or (o.get k) := by
  obtain rfl : i = instBEqOfDecidableEq := lawful_beq_subsingleton _ _
  exact get_assign es o k

theorem get_assign_of_not_mem {es : List (κ × β)} {k : κ} (h : k ∉ es.map Prod.fst) :
    (o.assign es).get k = o.get k := by
  rw [get_assign, dictGet_eq_none h, Option.none_or]

theorem mem_keys_assign {es : List (κ × β)} {k : κ} (h : k ∈ es.map Prod.fst) : k ∈ (o.assign es).keys := by
  have hmem : k ∈ es.reverse.map Prod.fst := by
    rw [List.map_reverse, List.mem_reverse]
    exact h
  obtain ⟨v, hv⟩ := exists_lookup_of_mem hmem
  refine mem_keys_iff.mpr ⟨v, ?_⟩
  rw [get_assign, dictGet, hv, Option.some_or]

theorem get_assign_of_forall {es : List (κ × β)} {k : κ} {v : β} (h : ∀ e ∈ es, e.1 = k → e.2 = v)
    (hk : k ∈ es.map Prod.fst) : (o.assign es).get k = some v := by
  rw [get_assign, dictGet_eq_of_forall (fun e he hek => congrArg some (h e he hek)) hk, Option.some_or]

theorem get_assign_entries (o o' : Obj κ β) (k : κ) :
    (o.assign o'.entries).get k = (o'.get k).or (o.get k) := by
  rw [get_assign, dictGet_entries]

theorem assign_append (es es' : List (κ × β)) : o.assign (es ++ es') = (o.assign es).assign es' :=
  List.foldl_append

theorem entries_assign_append (es : List (κ × β)) (o : Obj κ β)
    (h : ((o.entries ++ es).map Prod.fst).Nodup) : (o.assign es).entries = o.entries ++ es := by
  induction es generalizing o with
  | nil => exact (List.append_nil _).symm
  | cons e es ih =>
    have hk : e.1 ∉ o.keys := by
      rw [List.map_append, List.map_cons, List.nodup_append] at h
      exact fun hk => h.2.2 e.1 hk e.1 List.mem_cons_self rfl
    have hs : (o.set e.1 e.2).entries = o.entries ++ [e] := by
      unfold set
      rw [dif_neg hk]
    have hc : o.assign (e :: es) = (o.set e.1 e.2).assign es := rfl
    have happ : o.entries ++ e :: es = o.entries ++ [e] ++ es := List.append_cons _ _ _
    rw [happ] at h ⊢
    rw [hc, ih _ (by rw [hs]; exact h), hs]

/-- **Entries of distinct keys** make the object of these entries. -/
theorem entries_assign {es : List (κ × β)} (h : (es.map Prod.fst).Nodup) :
    ((empty : Obj κ β).assign es).entries = es :=
  entries_assign_append es empty h

/-! ## Objects with related values -/

/-- The two have the same keys, and what they have under a key is related. -/
def RelatedBy (R : β → γ → Prop) (o : Obj κ β) (o' : Obj κ γ) : Prop := ∀ k, Option.Rel R (o.get k) (o'.get k)

variable {R : β → γ → Prop} {o' : Obj κ γ}

theorem RelatedBy.empty : RelatedBy R (Obj.empty : Obj κ β) Obj.empty := fun _ => Option.Rel.none

theorem RelatedBy.mem_keys_iff (h : RelatedBy R o o') (k : κ) : k ∈ o.keys ↔ k ∈ o'.keys := by
  rw [Obj.mem_keys_iff, Obj.mem_keys_iff]
  have hk := h k
  cases hv : o.get k <;> cases hv' : o'.get k <;> rw [hv, hv'] at hk <;> simp at hk ⊢

theorem RelatedBy.get (h : RelatedBy R o o') {k : κ} {v : β} {v' : γ} (hv : o.get k = some v)
    (hv' : o'.get k = some v') : R v v' := by
  have hk := h k
  rw [hv, hv'] at hk
  exact Option.rel_some_some.mp hk

theorem RelatedBy.set (h : RelatedBy R o o') (k : κ) {v : β} {v' : γ} (hv : R v v') :
    RelatedBy R (o.set k v) (o'.set k v') := fun k' => by
  rw [get_set, get_set]
  split
  · exact Option.Rel.some hv
  · exact h k'

theorem RelatedBy.erase (h : RelatedBy R o o') (k : κ) : RelatedBy R (o.erase k) (o'.erase k) := fun k' => by
  rw [get_erase, get_erase]
  split
  · exact Option.Rel.none
  · exact h k'

end Obj

end LabInABox
