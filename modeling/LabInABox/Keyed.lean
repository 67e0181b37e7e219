import Mathlib.Data.List.Nodup
import Mathlib.Data.List.ReduceOption
import Mathlib.Logic.Function.Basic

/-!
# Keyed data

General facts about programs that keep one value for each key.

`Represents es m` says a list of entries is the finite map `m`: no key twice, and the entries of the
list are those of the map.

Results:
* `Represents.upsert`, `Represents.insert`, `Represents.filterMap`: what replacing an entry, adding
  a new one and selecting entries do to the map.
* `foldl_at_key`: a fold of steps that each touch their own key gives every key its own step.
* `mapM_select`: when a map that can fail completes, and what it then selects.
* `lookup_setValue`: what replacing the value of a key does to the values of all keys.
* `nodup_eraseDups`: the keys of a dictionary built from a list are distinct. `mem_dictItems`: its items
  are what looking up gives.
-/

namespace LabInABox

/-! ## Steps that each touch their own key -/

section FoldAtKeys

variable {σ κ α β : Type*} [DecidableEq κ] {get : σ → κ → β} {key : α → κ} {step : σ → α → σ}
  {upd : α → β → β}

/-- Steps that each touch their own key leave every other key. -/
theorem foldl_of_not_mem_keys
    (hstep : ∀ m a k, get (step m a) k = if k = key a then upd a (get m k) else get m k) {k : κ} :
    ∀ {as : List α} (m : σ), k ∉ as.map key → get (as.foldl step m) k = get m k
  | [], _, _ => rfl
  | a :: as, m, h => by
    rw [List.map_cons, List.mem_cons, not_or] at h
    rw [List.foldl_cons, foldl_of_not_mem_keys hstep _ h.2, hstep, if_neg h.1]

/-- **Steps with distinct keys**: each key ends with its own step applied to what it held. -/
theorem foldl_at_key
    (hstep : ∀ m a k, get (step m a) k = if k = key a then upd a (get m k) else get m k) :
    ∀ {as : List α} (m : σ), (as.map key).Nodup → ∀ a ∈ as,
      get (as.foldl step m) (key a) = upd a (get m (key a))
  | [], _, _, _, ha => absurd ha List.not_mem_nil
  | b :: bs, m, hnd, a, ha => by
    rw [List.map_cons, List.nodup_cons] at hnd
    rw [List.foldl_cons]
    rcases List.mem_cons.mp ha with rfl | ha
    · rw [foldl_of_not_mem_keys hstep _ hnd.1, hstep, if_pos rfl]
    · have hne : key a ≠ key b := fun e => hnd.1 (e ▸ List.mem_map_of_mem ha)
      rw [foldl_at_key hstep _ hnd.2 a ha, hstep, if_neg hne]

end FoldAtKeys

/-! ## First occurrences -/

theorem nodup_eraseDups {α : Type*} [BEq α] [LawfulBEq α] : ∀ l : List α, l.eraseDups.Nodup
  | [] => by rw [List.eraseDups_nil]; exact List.nodup_nil
  | a :: as => by
    rw [List.eraseDups_cons, List.nodup_cons]
    exact ⟨by simp, nodup_eraseDups _⟩
termination_by l => l.length
decreasing_by exact Nat.lt_succ_of_le (List.length_filter_le _ _)

/-! ## Results of a fallible map -/

theorem exists_of_mapM_eq_some {α β : Type*} {f : α → Option β} :
    ∀ {l : List α} {bs : List β}, l.mapM f = some bs → ∀ a ∈ l, ∃ b ∈ bs, f a = some b
  | [], _, _, _, ha => absurd ha List.not_mem_nil
  | x :: xs, bs, h, a, ha => by
    simp only [List.mapM_cons, Option.bind_eq_bind, Option.bind_eq_some_iff] at h
    obtain ⟨y, hy, ys, hys, h⟩ := h
    obtain rfl := Option.some.inj h
    rcases List.mem_cons.mp ha with rfl | ha
    · exact ⟨y, List.mem_cons_self, hy⟩
    · obtain ⟨b, hb, hf⟩ := exists_of_mapM_eq_some hys a ha
      exact ⟨b, List.mem_cons_of_mem _ hb, hf⟩

/-- The results are those of the elements. -/
theorem mem_of_mapM_eq_some {α β : Type*} {f : α → Option β} :
    ∀ {l : List α} {bs : List β}, l.mapM f = some bs → ∀ {b}, b ∈ bs ↔ ∃ a ∈ l, f a = some b
  | [], bs, h, b => by
    obtain rfl := Option.some.inj h
    simp
  | x :: xs, bs, h, b => by
    simp only [List.mapM_cons, Option.bind_eq_bind, Option.bind_eq_some_iff] at h
    obtain ⟨y, hy, ys, hys, h⟩ := h
    obtain rfl := Option.some.inj h
    rw [List.mem_cons, mem_of_mapM_eq_some hys, List.exists_mem_cons_iff, hy, Option.some.injEq,
      eq_comm]

/-- A map completes when it does at each element. -/
theorem exists_mapM_eq_some {α β : Type*} {f : α → Option β} :
    ∀ {l : List α}, (∀ a ∈ l, ∃ b, f a = some b) → ∃ bs, l.mapM f = some bs
  | [], _ => ⟨[], rfl⟩
  | x :: xs, h => by
    obtain ⟨y, hy⟩ := h x List.mem_cons_self
    obtain ⟨ys, hys⟩ := exists_mapM_eq_some fun a ha => h a (List.mem_cons_of_mem _ ha)
    exact ⟨y :: ys, by rw [List.mapM_cons, hy, hys]; rfl⟩

theorem bind_eq_ok {α β ε : Type*} {x : Except ε α} {f : α → Except ε β} {b : β} :
    x.bind f = .ok b ↔ ∃ a, x = .ok a ∧ f a = .ok b := by
  cases x with
  | error e => exact ⟨nofun, fun ⟨_, h, _⟩ => absurd h nofun⟩
  | ok a => exact ⟨fun h => ⟨a, rfl, h⟩, fun ⟨_, h, hf⟩ => Except.ok.inj h ▸ hf⟩

theorem map_eq_ok {α β ε : Type*} {x : Except ε α} {f : α → β} {b : β} :
    x.map f = .ok b ↔ ∃ a, x = .ok a ∧ f a = b := by
  cases x with
  | error e => exact ⟨nofun, fun ⟨_, h, _⟩ => absurd h nofun⟩
  | ok a => exact ⟨fun h => ⟨a, rfl, Except.ok.inj h⟩, fun ⟨_, h, hf⟩ =>
      congrArg Except.ok (Except.ok.inj h ▸ hf)⟩

theorem mapError_eq_ok {α ε ε' : Type*} {x : Except ε α} {f : ε → ε'} {a : α} :
    x.mapError f = .ok a ↔ x = .ok a := by
  cases x with
  | error e => exact ⟨nofun, nofun⟩
  | ok a' => exact ⟨fun h => congrArg Except.ok (Except.ok.inj h), fun h =>
      congrArg Except.ok (Except.ok.inj h)⟩

theorem bind_eq_error {α β ε : Type*} {x : Except ε α} {f : α → Except ε β} {e : ε} :
    x.bind f = .error e ↔ x = .error e ∨ ∃ a, x = .ok a ∧ f a = .error e := by
  cases x with
  | error e' =>
    exact ⟨fun h => Or.inl (congrArg Except.error (Except.error.inj h)), fun h => h.elim
      (fun h => congrArg Except.error (Except.error.inj h)) fun ⟨_, h, _⟩ => absurd h nofun⟩
  | ok a =>
    exact ⟨fun h => Or.inr ⟨a, rfl, h⟩, fun h => h.elim (fun h => absurd h nofun)
      fun ⟨_, h, hf⟩ => Except.ok.inj h ▸ hf⟩

theorem mapM_eq_ok_cons {α β ε : Type*} {f : α → Except ε β} {a : α} {l : List α} {bs : List β} :
    (a :: l).mapM f = .ok bs ↔ ∃ b bs', f a = .ok b ∧ l.mapM f = .ok bs' ∧ bs = b :: bs' := by
  rw [List.mapM_cons]
  cases f a with
  | error e => exact ⟨nofun, nofun⟩
  | ok b =>
    cases l.mapM f with
    | error e => exact ⟨nofun, nofun⟩
    | ok bs' =>
      constructor
      · intro h
        exact ⟨b, bs', rfl, rfl, (Except.ok.inj h).symm⟩
      · rintro ⟨_, _, hb, hbs, rfl⟩
        rw [← Except.ok.inj hb, ← Except.ok.inj hbs]
        rfl

/-- The results are those of the elements. -/
theorem mem_of_mapM_eq_ok {α β ε : Type*} {f : α → Except ε β} :
    ∀ {l : List α} {bs : List β}, l.mapM f = .ok bs → ∀ {b}, b ∈ bs ↔ ∃ a ∈ l, f a = .ok b
  | [], bs, h, b => by
    obtain rfl := Except.ok.inj h
    simp
  | x :: xs, bs, h, b => by
    obtain ⟨y, ys, hy, hys, rfl⟩ := mapM_eq_ok_cons.mp h
    rw [List.mem_cons, mem_of_mapM_eq_ok hys, List.exists_mem_cons_iff, hy, Except.ok.injEq,
      eq_comm]

theorem exists_of_mapM_eq_error {α β ε : Type*} {f : α → Except ε β} {e : ε} :
    ∀ {l : List α}, l.mapM f = .error e → ∃ a ∈ l, f a = .error e
  | [], h => absurd h nofun
  | x :: xs, h => by
    rw [List.mapM_cons] at h
    obtain h | ⟨_, _, h⟩ := bind_eq_error.mp h
    · exact ⟨x, List.mem_cons_self, h⟩
    · obtain h | ⟨_, _, h⟩ := bind_eq_error.mp h
      · obtain ⟨a, ha, hf⟩ := exists_of_mapM_eq_error h
        exact ⟨a, List.mem_cons_of_mem _ ha, hf⟩
      · exact absurd h nofun

/-- **A map completes** exactly when it does at each element. -/
theorem mapM_isOk_iff {α β ε : Type*} {f : α → Except ε β} :
    ∀ {l : List α}, (∃ bs, l.mapM f = .ok bs) ↔ ∀ a ∈ l, ∃ b, f a = .ok b
  | [] => ⟨fun _ _ ha => absurd ha List.not_mem_nil, fun _ => ⟨[], rfl⟩⟩
  | x :: xs => by
    rw [List.forall_mem_cons, ← mapM_isOk_iff]
    constructor
    · rintro ⟨bs, h⟩
      obtain ⟨y, ys, hy, hys, _⟩ := mapM_eq_ok_cons.mp h
      exact ⟨⟨y, hy⟩, ys, hys⟩
    · rintro ⟨⟨y, hy⟩, ys, hys⟩
      exact ⟨y :: ys, mapM_eq_ok_cons.mpr ⟨y, ys, hy, hys, rfl⟩⟩

/-- **Selecting with a map that can fail**: it fails at an element that is `bad`, or selects what every
element picks. -/
theorem mapM_select {α β ε : Type*} {f : α → Except ε (Option β)} {bad : α → Prop}
    {pick : α → β → Prop} {l : List α}
    (h : ∀ a ∈ l, (bad a ∧ ∃ e, f a = .error e) ∨
      (¬ bad a ∧ ∃ o, f a = .ok o ∧ ∀ b, o = some b ↔ pick a b)) :
    ((∃ a ∈ l, bad a) ∧ ∃ e, l.mapM f = .error e) ∨
    (¬ (∃ a ∈ l, bad a) ∧ ∃ os, l.mapM f = .ok os ∧
      ∀ b, b ∈ os.reduceOption ↔ ∃ a ∈ l, pick a b) := by
  cases hm : l.mapM f with
  | error e =>
    refine Or.inl ⟨?_, e, rfl⟩
    by_contra hno
    obtain ⟨os, hos⟩ := mapM_isOk_iff.mpr fun a ha =>
      (h a ha).elim (fun h => absurd ⟨a, ha, h.1⟩ hno) fun h => ⟨_, h.2.choose_spec.1⟩
    rw [hm] at hos
    exact absurd hos nofun
  | ok os =>
    have hpick : ∀ a ∈ l, ¬ bad a ∧ ∀ b, f a = .ok (some b) ↔ pick a b := by
      intro a ha
      obtain ⟨_, e, he⟩ | ⟨hb, o, ho, hp⟩ := h a ha
      · obtain ⟨o, ho⟩ := mapM_isOk_iff.mp ⟨os, hm⟩ a ha
        rw [he] at ho
        exact absurd ho nofun
      · refine ⟨hb, fun b => ?_⟩
        rw [ho, Except.ok.injEq, hp]
    refine Or.inr ⟨fun ⟨a, ha, hb⟩ => (hpick a ha).1 hb, os, rfl, fun b => ?_⟩
    rw [List.reduceOption_mem_iff, mem_of_mapM_eq_ok hm]
    exact exists_congr fun a => and_congr_right fun ha => (hpick a ha).2 b

/-! ## Lists of entries -/

/-- The value of a key in the dictionary built from the entries: the last one counts. -/
def dictGet {κ β : Type*} [BEq κ] (es : List (κ × β)) (k : κ) : Option β := es.reverse.lookup k

/-- The items of that dictionary: its keys in the order they first came in. -/
def dictItems {κ β : Type*} [BEq κ] (es : List (κ × β)) : List (κ × β) :=
  (es.map Prod.fst).eraseDups.filterMap fun k => (dictGet es k).map (Prod.mk k)

theorem mem_dictItems {κ β : Type*} [BEq κ] [LawfulBEq κ] {es : List (κ × β)} {k : κ} {v : β} :
    (k, v) ∈ dictItems es ↔ dictGet es k = some v := by
  simp only [dictItems, List.mem_filterMap, List.mem_eraseDups, Option.map_eq_some_iff, Prod.mk.injEq]
  constructor
  · rintro ⟨k', _, v', hv, rfl, rfl⟩
    exact hv
  · intro hv
    obtain ⟨l₁, l₂, hl, _⟩ := List.lookup_eq_some_iff.mp hv
    have he : (k, v) ∈ es := by
      rw [← List.mem_reverse, hl]
      exact List.mem_append_right _ List.mem_cons_self
    exact ⟨k, List.mem_map_of_mem he, v, hv, rfl, rfl⟩

section Lookup

variable {κ β : Type*} [BEq κ] [LawfulBEq κ]

theorem exists_lookup_of_mem {es : List (κ × β)} {k : κ}
    (h : k ∈ es.map Prod.fst) : ∃ v, es.lookup k = some v := by
  cases hl : es.lookup k with
  | some v => exact ⟨v, rfl⟩
  | none =>
    obtain ⟨e, he, rfl⟩ := List.mem_map.mp h
    exact absurd (List.lookup_eq_none_iff.mp hl e he) (by simp)

theorem lookup_of_mem {es : List (κ × β)} (hnd : (es.map Prod.fst).Nodup)
    {k : κ} {v : β} (h : (k, v) ∈ es) : es.lookup k = some v := by
  obtain ⟨l₁, l₂, rfl⟩ := List.append_of_mem h
  rw [List.lookup_eq_some_iff]
  refine ⟨l₁, l₂, rfl, fun e he => ?_⟩
  rw [List.map_append, List.map_cons, List.nodup_append] at hnd
  have hne := hnd.2.2 e.1 (List.mem_map_of_mem he) k List.mem_cons_self
  simpa using fun h => hne h.symm

end Lookup

section SetValue

variable {κ β : Type*} [DecidableEq κ]

/-- The entries with the value of a key replaced. -/
def setValue (es : List (κ × β)) (k : κ) (v : β) : List (κ × β) :=
  es.map fun e => if e.1 = k then (k, v) else e

theorem map_fst_setValue (es : List (κ × β)) (k : κ) (v : β) :
    (setValue es k v).map Prod.fst = es.map Prod.fst := by
  unfold setValue
  rw [List.map_map]
  refine List.map_congr_left fun e _ => ?_
  rw [Function.comp_apply]
  split
  · rename_i h
    exact h.symm
  · rfl

theorem lookup_setValue [BEq κ] [LawfulBEq κ] (es : List (κ × β)) (k k' : κ) (v : β) :
    (setValue es k v).lookup k' =
      if k' = k then (es.lookup k).map fun _ => v else es.lookup k' := by
  unfold setValue
  induction es with
  | nil => simp
  | cons e es ih =>
    rw [List.map_cons, List.lookup_cons, ih, List.lookup_cons, List.lookup_cons]
    by_cases hk : k' = k
    · subst hk
      by_cases he : e.1 = k'
      · simp [he]
      · have hb : (k' == e.1) = false := by simpa using fun h => he h.symm
        simp [he, hb]
    · by_cases he : e.1 = k
      · have hb : (k' == k) = false := by simpa using hk
        simp [he, hk, hb]
      · simp [he, hk]

end SetValue

section Represents

variable {κ β γ : Type*} {es : List (κ × β)} {m : κ → Option β}

/-- The entries are those of the map, and no key has two. -/
structure Represents (es : List (κ × β)) (m : κ → Option β) : Prop where
  nodup : (es.map Prod.fst).Nodup
  mem_iff : ∀ k v, (k, v) ∈ es ↔ m k = some v

namespace Represents

theorem nil : Represents ([] : List (κ × β)) fun _ => none where
  nodup := List.nodup_nil
  mem_iff := by simp

theorem not_mem_keys (h : Represents es m) {k : κ} : k ∉ es.map Prod.fst ↔ m k = none := by
  constructor
  · intro hk
    cases hm : m k with
    | none => rfl
    | some v => exact absurd (List.mem_map_of_mem ((h.mem_iff k v).mpr hm)) hk
  · intro hm hk
    obtain ⟨⟨k', v⟩, he, rfl⟩ := List.mem_map.mp hk
    rw [(h.mem_iff k' v).mp he] at hm
    exact absurd hm (by simp)

/-- **Selecting entries**, each with a new value. -/
theorem filterMap (h : Represents es m) (f : κ → β → Option γ) :
    Represents (es.filterMap fun e => (f e.1 e.2).map (Prod.mk e.1)) fun k => (m k).bind (f k) where
  nodup := by
    refine List.Nodup.sublist ?_ h.nodup
    clear h
    induction es with
    | nil => exact List.Sublist.slnil
    | cons e es ih =>
      rw [List.filterMap_cons]
      cases f e.1 e.2 with
      | none => exact ih.cons _
      | some w => exact ih.cons_cons _
  mem_iff k w := by
    simp only [List.mem_filterMap, Option.map_eq_some_iff, Prod.mk.injEq, Option.bind_eq_some_iff]
    constructor
    · rintro ⟨⟨k', v⟩, he, w', hw, rfl, rfl⟩
      exact ⟨v, (h.mem_iff _ _).mp he, hw⟩
    · rintro ⟨v, hv, hw⟩
      exact ⟨(k, v), (h.mem_iff _ _).mpr hv, w, hw, rfl, rfl⟩

theorem filter (h : Represents es m) (p : κ × β → Bool) :
    Represents (es.filter p) fun k => (m k).filter fun v => p (k, v) where
  nodup := (List.filter_sublist.map Prod.fst).nodup h.nodup
  mem_iff k v := by
    rw [List.mem_filter, h.mem_iff, Option.filter_eq_some_iff]

theorem dictGet_eq [BEq κ] [LawfulBEq κ] (h : Represents es m) (k : κ) : dictGet es k = m k := by
  cases hm : m k with
  | none =>
    have hk := h.not_mem_keys.mpr hm
    rw [dictGet, List.lookup_eq_none_iff]
    intro e he
    have hne : e.1 ≠ k := by
      rintro rfl
      exact hk (List.mem_map_of_mem (List.mem_reverse.mp he))
    simpa using fun e' => hne e'.symm
  | some v =>
    refine lookup_of_mem ?_ (List.mem_reverse.mpr ((h.mem_iff k v).mpr hm))
    rw [List.map_reverse]
    exact List.nodup_reverse.mpr h.nodup

variable [DecidableEq κ]

/-- **Adding an entry** under a new key. -/
theorem insert (h : Represents es m) {k : κ} (hk : m k = none) (v : β) :
    Represents (es ++ [(k, v)]) (Function.update m k (some v)) where
  nodup := by
    rw [List.map_append, List.nodup_append]
    refine ⟨h.nodup, List.nodup_singleton _, fun a ha b hb => ?_⟩
    rw [List.map_singleton, List.mem_singleton] at hb
    rw [hb]
    rintro rfl
    exact h.not_mem_keys.mpr hk ha
  mem_iff k' v' := by
    rw [List.mem_append, List.mem_singleton, h.mem_iff, Prod.mk.injEq]
    by_cases hkk : k' = k
    · subst hkk
      rw [Function.update_self, hk]
      simp [eq_comm]
    · rw [Function.update_of_ne hkk]
      simp [hkk]

theorem erase (h : Represents es m) (k : κ) :
    Represents (es.filter fun e => decide (e.1 ≠ k)) (Function.update m k none) := by
  have hf := h.filter fun e => decide (e.1 ≠ k)
  have he : (fun k' => (m k').filter fun v => decide ((k', v).1 ≠ k)) = Function.update m k none := by
    funext k'
    by_cases hkk : k' = k
    · subst hkk
      rw [Function.update_self]
      cases m k' <;> simp
    · rw [Function.update_of_ne hkk]
      cases m k' <;> simp [hkk]
  rwa [he] at hf

/-- **Replacing the entry of a key**, or adding it. -/
theorem upsert (h : Represents es m) (k : κ) (v : β) :
    Represents ((es.filter fun e => decide (e.1 ≠ k)) ++ [(k, v)])
      (Function.update m k (some v)) := by
  have hi := (h.erase k).insert (Function.update_self k none m) v
  rwa [Function.update_idem] at hi

end Represents

end Represents

end LabInABox
