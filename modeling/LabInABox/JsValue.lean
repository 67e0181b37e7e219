import LabInABox.Text.Fields

/-!
# JSON values and edits below their keys

General facts about programs that copy a JSON value and change it by its keys.

* Numbers are of any type. The entries of a mapping stand in the order they were set.
* `walk` copies a value. An `Edit` says for each key and its value whether the entry is dropped, holds
  another value, or holds the copy of its value.

Results:
* `walk_walk`: two walks, one after the other, are one.
* `walk_eq_self_iff`: when dropping a key changes nothing.
-/

namespace LabInABox

/-- A JSON value. -/
inductive JsValue (ν : Type)
  | null
  | bool (b : Bool)
  | number (n : ν)
  | text (t : Text)
  | list (vs : List (JsValue ν))
  | mapping (es : List (Text × JsValue ν))

namespace JsValue

variable {ν : Type}

/-- What becomes of an entry. -/
inductive Edit (ν : Type)
  | drop
  | replace (v : JsValue ν)
  | descend

mutual

/-- A copy of the value, with its entries edited. -/
def walk (f : Text → JsValue ν → Edit ν) : JsValue ν → JsValue ν
  | list vs => list (walkList f vs)
  | mapping es => mapping (walkEntries f es)
  | v => v

def walkList (f : Text → JsValue ν → Edit ν) : List (JsValue ν) → List (JsValue ν)
  | [] => []
  | v :: vs => walk f v :: walkList f vs

def walkEntries (f : Text → JsValue ν → Edit ν) : List (Text × JsValue ν) → List (Text × JsValue ν)
  | [] => []
  | (k, v) :: es =>
    match f k v with
    | .drop => walkEntries f es
    | .replace w => (k, w) :: walkEntries f es
    | .descend => (k, walk f v) :: walkEntries f es

end

mutual

/-- The keys of a value, at any depth. -/
def keys : JsValue ν → List Text
  | list vs => keysList vs
  | mapping es => keysEntries es
  | _ => []

def keysList : List (JsValue ν) → List Text
  | [] => []
  | v :: vs => keys v ++ keysList vs

def keysEntries : List (Text × JsValue ν) → List Text
  | [] => []
  | (k, v) :: es => k :: (keys v ++ keysEntries es)

end

@[simp] theorem walk_null (f : Text → JsValue ν → Edit ν) : walk f null = null := rfl

@[simp] theorem walk_bool (f : Text → JsValue ν → Edit ν) (b : Bool) : walk f (bool b) = bool b := rfl

@[simp] theorem walk_number (f : Text → JsValue ν → Edit ν) (n : ν) : walk f (number n) = number n := rfl

@[simp] theorem walk_text (f : Text → JsValue ν → Edit ν) (t : Text) : walk f (text t) = text t := rfl

@[simp] theorem walk_list (f : Text → JsValue ν → Edit ν) (vs : List (JsValue ν)) :
    walk f (list vs) = list (walkList f vs) := rfl

@[simp] theorem walk_mapping (f : Text → JsValue ν → Edit ν) (es : List (Text × JsValue ν)) :
    walk f (mapping es) = mapping (walkEntries f es) := rfl

/-- One edit after another. -/
def Edit.andThen (f : Text → JsValue ν → Edit ν) (k : Text) : Edit ν → JsValue ν → Edit ν
  | drop, _ => drop
  | replace w, _ =>
    match f k w with
    | drop => drop
    | replace u => replace u
    | descend => replace (walk f w)
  | descend, copied => f k copied

/-! ## Two walks -/

section Two

variable {f g h : Text → JsValue ν → Edit ν}

mutual

/-- **Two walks are one**, which does what the second does with what the first has left. -/
theorem walk_walk (hh : ∀ k v, h k v = Edit.andThen f k (g k v) (walk g v)) :
    ∀ v, walk f (walk g v) = walk h v
  | list vs => by rw [walk_list, walk_list, walk_list, walkList_walkList hh vs]
  | mapping es => by rw [walk_mapping, walk_mapping, walk_mapping, walkEntries_walkEntries hh es]
  | null => rfl
  | bool _ => rfl
  | number _ => rfl
  | text _ => rfl

theorem walkList_walkList (hh : ∀ k v, h k v = Edit.andThen f k (g k v) (walk g v)) :
    ∀ vs, walkList f (walkList g vs) = walkList h vs
  | [] => rfl
  | v :: vs => by rw [walkList, walkList, walkList, walk_walk hh v, walkList_walkList hh vs]

theorem walkEntries_walkEntries (hh : ∀ k v, h k v = Edit.andThen f k (g k v) (walk g v)) :
    ∀ es, walkEntries f (walkEntries g es) = walkEntries h es
  | [] => rfl
  | (k, v) :: es => by
    have hk := hh k v
    have ih := walkEntries_walkEntries hh es
    have ihv := walk_walk hh v
    cases hg : g k v with
    | drop =>
      rw [hg, Edit.andThen] at hk
      simp only [walkEntries, hg, hk, ih]
    | replace w =>
      rw [hg, Edit.andThen] at hk
      cases hf : f k w with
      | drop =>
        rw [hf] at hk
        simp only [walkEntries, hg, hf, hk, ih]
      | replace u =>
        rw [hf] at hk
        simp only [walkEntries, hg, hf, hk, ih]
      | descend =>
        rw [hf] at hk
        simp only [walkEntries, hg, hf, hk, ih]
    | descend =>
      rw [hg, Edit.andThen] at hk
      cases hf : f k (walk g v) with
      | drop =>
        rw [hf] at hk
        simp only [walkEntries, hg, hf, hk, ih]
      | replace u =>
        rw [hf] at hk
        simp only [walkEntries, hg, hf, hk, ih]
      | descend =>
        rw [hf] at hk
        simp only [walkEntries, hg, hf, hk, ih, ihv]

end

end Two

/-! ## Dropping a key -/

/-- The entries of a key are dropped, wherever they stand. -/
def without (key : Text) : JsValue ν → JsValue ν := walk fun k _ => if k = key then .drop else .descend

section Without

variable {key : Text}

theorem length_walkEntries_le (f : Text → JsValue ν → Edit ν) (es : List (Text × JsValue ν)) :
    (walkEntries f es).length ≤ es.length := by
  induction es with
  | nil => exact Nat.le_refl _
  | cons e es ih =>
    obtain ⟨k, v⟩ := e
    rw [walkEntries]
    split <;> simp only [List.length_cons] <;> omega

mutual

/-- Nothing is dropped exactly when the key does not occur. -/
theorem without_eq_self_iff : ∀ v : JsValue ν, without key v = v ↔ key ∉ keys v
  | list vs => by
    rw [without, walk_list, list.injEq, keys]
    exact withoutList_eq_self_iff vs
  | mapping es => by
    rw [without, walk_mapping, mapping.injEq, keys]
    exact withoutEntries_eq_self_iff es
  | null => iff_of_true rfl List.not_mem_nil
  | bool _ => iff_of_true rfl List.not_mem_nil
  | number _ => iff_of_true rfl List.not_mem_nil
  | text _ => iff_of_true rfl List.not_mem_nil

theorem withoutList_eq_self_iff : ∀ vs : List (JsValue ν),
    walkList (fun k _ => if k = key then .drop else .descend) vs = vs ↔ key ∉ keysList vs
  | [] => iff_of_true rfl List.not_mem_nil
  | v :: vs => by
    rw [walkList, List.cons.injEq, keysList, List.mem_append, not_or]
    exact and_congr (without_eq_self_iff v) (withoutList_eq_self_iff vs)

theorem withoutEntries_eq_self_iff : ∀ es : List (Text × JsValue ν),
    walkEntries (fun k _ => if k = key then .drop else .descend) es = es ↔ key ∉ keysEntries es
  | [] => iff_of_true rfl List.not_mem_nil
  | (k, v) :: es => by
    rw [walkEntries, keysEntries, List.mem_cons, List.mem_append, not_or, not_or]
    by_cases hk : k = key
    · rw [if_pos hk]
      refine iff_of_false (fun h => ?_) fun h => h.1 hk.symm
      have hlen := length_walkEntries_le (fun k _ => if k = key then Edit.drop else Edit.descend) es
      have := congrArg List.length h
      simp only [List.length_cons] at this
      omega
    · rw [if_neg hk, List.cons.injEq, Prod.mk.injEq]
      have hv := without_eq_self_iff v
      have hes := withoutEntries_eq_self_iff es
      constructor
      · rintro ⟨⟨-, h₁⟩, h₂⟩
        exact ⟨Ne.symm hk, hv.mp h₁, hes.mp h₂⟩
      · rintro ⟨-, h₁, h₂⟩
        exact ⟨⟨rfl, hv.mpr h₁⟩, hes.mpr h₂⟩

end

end Without

end JsValue

end LabInABox
