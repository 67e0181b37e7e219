import Mathlib.Data.List.Nodup
import Mathlib.Data.List.Perm.Subperm
import LabInABox.Text.Fields

/-!
# Identifiers for raw names

A table that gives every raw name an identifier of its own, in the order the names come: `nameOf` is the
identifier a name would like, and a taken one gets the first number that is free.

* `Table` is the names seen so far with their identifiers, all different, so a table with a clash cannot
  be built.

Results:
* `firstFree_not_mem`: there is always a free number.
* `identOf_addAll`: a name keeps its identifier, whatever comes after it.
* `identOf_injective`: different names have different identifiers.
-/

namespace LabInABox.Idents

/-- The identifier with a number. -/
def numbered (base : Text) (n : Nat) : Text := base ++ '_' :: Nat.toDigits 10 n

/-- What is tried for a name, as many as could be taken and one more. -/
def candidates (base : Text) (taken : Nat) : List Text :=
  base :: (List.range taken).map fun n => numbered base (n + 2)

/-- The first candidate that is not taken. -/
def firstFree (claimed : List Text) (base : Text) : Text :=
  ((candidates base claimed.length).find? fun t => decide (t ∉ claimed)).getD base

theorem numbered_injective (base : Text) : Function.Injective (numbered base) := fun m n h => by
  have hdigits := (List.cons.inj (List.append_cancel_left h)).2
  rw [← Nat.ofDigitChars_ten_toDigits (n := m), hdigits, Nat.ofDigitChars_ten_toDigits]

theorem nodup_candidates (base : Text) (taken : Nat) : (candidates base taken).Nodup := by
  unfold candidates
  rw [List.nodup_cons]
  constructor
  · intro h
    obtain ⟨n, -, hn⟩ := List.mem_map.mp h
    have hlen := congrArg List.length hn
    simp [numbered] at hlen
  · refine List.Nodup.map (fun m n h => ?_) List.nodup_range
    have hmn := numbered_injective base h
    omega

/-- **There is always a free number.** -/
theorem firstFree_not_mem (claimed : List Text) (base : Text) : firstFree claimed base ∉ claimed := by
  unfold firstFree
  cases hfind : (candidates base claimed.length).find? fun t => decide (t ∉ claimed) with
  | some t => simpa using List.find?_some hfind
  | none =>
    have hsub : candidates base claimed.length ⊆ claimed := fun t ht => by
      simpa using List.find?_eq_none.mp hfind t ht
    have hle := (List.subperm_of_subset (nodup_candidates base claimed.length) hsub).length_le
    simp only [candidates, List.length_cons, List.length_map, List.length_range] at hle
    omega

/-- Names and their identifiers, in the order they came. -/
structure Table where
  entries : List (Text × Text)
  names : (entries.map Prod.fst).Nodup
  idents : (entries.map Prod.snd).Nodup

/-- No names. -/
def Table.empty : Table := ⟨[], List.nodup_nil, List.nodup_nil⟩

/-- The identifier of a name. -/
def Table.identOf (t : Table) (raw : Text) : Text := (t.entries.lookup raw).getD []

section Add

variable (nameOf : Text → Text)

/-- What is seen at the end, if it is new, leaves a list without repetitions. -/
theorem nodup_map_append {α : Type} {es : List α} {f : α → Text} {e : α} (h : (es.map f).Nodup)
    (he : f e ∉ es.map f) : ((es ++ [e]).map f).Nodup := by
  rw [List.map_append]
  refine List.nodup_append.mpr ⟨h, List.nodup_singleton _, fun a ha b hb => ?_⟩
  rw [List.mem_singleton.mp hb]
  rintro rfl
  exact he ha

/-- A name is seen: it keeps its identifier, or gets one. -/
def Table.add (t : Table) (raw : Text) : Table :=
  if h : raw ∈ t.entries.map Prod.fst then t
  else
    { entries := t.entries ++ [(raw, firstFree (t.entries.map Prod.snd) (nameOf raw))]
      names := nodup_map_append t.names h
      idents := nodup_map_append t.idents (firstFree_not_mem _ _) }

/-- Names are seen in turn. -/
def Table.addAll (t : Table) (raws : List Text) : Table := raws.foldl (Table.add nameOf) t

variable {nameOf} {t : Table} {raw : Text} {raws : List Text}

theorem add_entries (nameOf : Text → Text) (t : Table) (raw : Text) :
    ∃ more, (t.add nameOf raw).entries = t.entries ++ more ∧ raw ∈ (t.add nameOf raw).entries.map Prod.fst := by
  unfold Table.add
  by_cases h : raw ∈ t.entries.map Prod.fst
  · rw [dif_pos h]
    exact ⟨[], (List.append_nil _).symm, h⟩
  · rw [dif_neg h]
    exact ⟨_, rfl, by simp⟩

theorem addAll_entries (nameOf : Text → Text) (t : Table) (raws : List Text) :
    ∃ more, (t.addAll nameOf raws).entries = t.entries ++ more ∧
      ∀ raw ∈ raws, raw ∈ (t.addAll nameOf raws).entries.map Prod.fst := by
  induction raws generalizing t with
  | nil => exact ⟨[], (List.append_nil _).symm, fun _ h => absurd h List.not_mem_nil⟩
  | cons raw raws ih =>
    obtain ⟨first, hfirst, hmem⟩ := add_entries nameOf t raw
    obtain ⟨more, hmore, hall⟩ := ih (t.add nameOf raw)
    refine ⟨first ++ more, ?_, fun r hr => ?_⟩
    · rw [← List.append_assoc, ← hfirst]
      exact hmore
    · rcases List.mem_cons.mp hr with rfl | hr
      · have hall' : ((t.add nameOf r).addAll nameOf raws).entries = (t.add nameOf r).entries ++ more := hmore
        change r ∈ ((t.add nameOf r).addAll nameOf raws).entries.map Prod.fst
        rw [hall', List.map_append]
        exact List.mem_append_left _ hmem
      · exact hall r hr

/-- **A name keeps its identifier.** -/
theorem identOf_addAll (h : raw ∈ t.entries.map Prod.fst) (raws : List Text) :
    (t.addAll nameOf raws).identOf raw = t.identOf raw := by
  obtain ⟨more, hmore, -⟩ := addAll_entries nameOf t raws
  unfold Table.identOf
  rw [hmore, List.lookup_append]
  obtain ⟨e, he, rfl⟩ := List.mem_map.mp h
  cases hl : t.entries.lookup e.1 with
  | some id => rfl
  | none => simpa using List.lookup_eq_none_iff.mp hl e he

/-- **Different names have different identifiers.** -/
theorem identOf_injective {raw' : Text} (h : raw ∈ t.entries.map Prod.fst)
    (h' : raw' ∈ t.entries.map Prod.fst) (heq : t.identOf raw = t.identOf raw') : raw = raw' := by
  have hget : ∀ r ∈ t.entries.map Prod.fst, (r, t.identOf r) ∈ t.entries := fun r hr => by
    unfold Table.identOf
    cases hl : t.entries.lookup r with
    | some id =>
      obtain ⟨before, after, heq, -⟩ := List.lookup_eq_some_iff.mp hl
      rw [heq]
      simp
    | none =>
      obtain ⟨e, he, rfl⟩ := List.mem_map.mp hr
      simpa using List.lookup_eq_none_iff.mp hl e he
  have hpair := List.inj_on_of_nodup_map t.idents (hget raw h) (hget raw' h') heq
  exact congrArg Prod.fst hpair

end Add

end LabInABox.Idents
