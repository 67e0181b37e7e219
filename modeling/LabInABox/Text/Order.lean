import Mathlib.Data.Char
import Mathlib.Data.List.Lex
import Mathlib.Data.List.Sort
import LabInABox.Text.Fields

/-!
# Text: order and case

* `sorted` is `sorted(..)` of texts: by code points.
* `lower` is `str.lower()` as far as comparing with ASCII words goes: the ASCII capitals and the
  Kelvin sign, the one character besides them whose lower case is ASCII alone.
-/

namespace LabInABox.Text

/-- `sorted(..)` of texts. -/
def sorted (rs : List Text) : List Text := rs.insertionSort (· ≤ ·)

/-- `", ".join(sorted(..))`. -/
def sortedNames (rs : List Text) : Text := ", ".toList.intercalate (sorted rs)

theorem mem_sorted {rs : List Text} {r : Text} : r ∈ sorted rs ↔ r ∈ rs := List.mem_insertionSort _

theorem sorted_strict {rs : List Text} (h : rs.Nodup) : (sorted rs).Pairwise (· < ·) := by
  have hle : (sorted rs).Pairwise (· ≤ ·) := List.pairwise_insertionSort _ _
  have hnd : (sorted rs).Nodup := (List.perm_insertionSort _ rs).nodup_iff.mpr h
  exact (hle.and hnd).imp fun h => lt_of_le_of_ne h.1 h.2

/-- Sorting depends on the texts only. -/
theorem sorted_congr {rs rs' : List Text} (hn : rs.Nodup) (hn' : rs'.Nodup)
    (h : ∀ r, r ∈ rs ↔ r ∈ rs') : sorted rs = sorted rs' := by
  have hp : (sorted rs).Perm (sorted rs') :=
    ((List.perm_insertionSort _ rs).trans ((List.perm_ext_iff_of_nodup hn hn').mpr h)).trans
      (List.perm_insertionSort _ rs').symm
  refine hp.eq_of_pairwise (fun a b _ _ hab hba => ?_) (sorted_strict hn) (sorted_strict hn')
  exact absurd hba (lt_asymm hab)

/-- The lower case of one character. -/
def lowerChar (c : Char) : Char := if c.toNat = 0x212A then 'k' else c.toLower

/-- `str.lower()`. -/
def lower (t : Text) : Text := t.map lowerChar

theorem lower_eq_nil_iff {t : Text} : lower t = [] ↔ t = [] := List.map_eq_nil_iff

end LabInABox.Text
