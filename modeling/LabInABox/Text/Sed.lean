import Mathlib.Data.List.Forall2
import LabInABox.Text.Regex

/-!
# Editing a file by its lines

`sed '/pattern/d' -i` on a file: the lines the pattern selects go, and a last line that no newline
ends stays without one. `sedFilter` is that edit for any test of a line, `sedDrop` the one a pattern
makes.

* A zone file is read by `str.splitlines`, which knows more line boundaries than `sed`:
  `exists_splitlines_iff` says that it reads each line of `sed` by itself.

Results:
* `lines_sedFilter`, `sedFilter_idem`: the lines left, and that a second edit changes nothing.
* `selects_dots_iff`: a pattern of plain characters and dots selects the lines that hold a text like
  it, with any character in the place of a dot.
-/

namespace LabInABox.Text

/-! ## Ended lines and the open one -/

/-- The lines that a newline ends, and what follows the last newline. -/
def cutLines : Text → List Text × Text
  | [] => ([], [])
  | c :: cs =>
    if c = '\n' then ([] :: (cutLines cs).1, (cutLines cs).2)
    else match (cutLines cs).1 with
      | [] => ([], c :: (cutLines cs).2)
      | l :: ls => ((c :: l) :: ls, (cutLines cs).2)

/-- Keep the lines that pass a test. -/
def sedFilter (keep : Text → Bool) (t : Text) : Text :=
  unlines ((cutLines t).1.filter keep) ++ if keep (cutLines t).2 then (cutLines t).2 else []

/-- Text that stands on lines of its own: every line of it is ended. -/
def Ended (t : Text) : Prop := (cutLines t).2 = []

instance decidableEnded (t : Text) : Decidable (Ended t) := inferInstanceAs (Decidable (_ = _))

theorem cutLines_append {l : Text} (h : '\n' ∉ l) (t : Text) :
    cutLines (l ++ '\n' :: t) = (l :: (cutLines t).1, (cutLines t).2) := by
  induction l with
  | nil => simp [cutLines]
  | cons c cs ih =>
    have hc : c ≠ '\n' := fun e => h (e ▸ List.mem_cons_self)
    rw [List.cons_append, cutLines, if_neg hc, ih fun hm => h (List.mem_cons_of_mem _ hm)]

theorem cutLines_of_not_mem {t : Text} (h : '\n' ∉ t) : cutLines t = ([], t) := by
  induction t with
  | nil => rfl
  | cons c cs ih =>
    have hc : c ≠ '\n' := fun e => h (e ▸ List.mem_cons_self)
    rw [cutLines, if_neg hc, ih fun hm => h (List.mem_cons_of_mem _ hm)]

/-- **A file is cut where it was put together.** -/
theorem cutLines_unlines_append {ls : List Text} {u : Text} (h : ∀ l ∈ ls, '\n' ∉ l) (hu : '\n' ∉ u) :
    cutLines (unlines ls ++ u) = (ls, u) := by
  induction ls with
  | nil => exact cutLines_of_not_mem hu
  | cons l ls ih =>
    rw [unlines_cons, List.append_assoc, List.cons_append, cutLines_append (h l List.mem_cons_self),
      ih fun x hx => h x (List.mem_cons_of_mem _ hx)]

/-- What `cutLines` gives is the text again, and no piece of it has a newline. -/
theorem cutLines_spec (t : Text) :
    t = unlines (cutLines t).1 ++ (cutLines t).2 ∧ (∀ l ∈ (cutLines t).1, '\n' ∉ l) ∧
      '\n' ∉ (cutLines t).2 := by
  by_cases h : '\n' ∈ t
  · obtain ⟨l, u, rfl, hl⟩ := List.eq_append_cons_of_mem h
    have hlt : u.length < (l ++ '\n' :: u).length := by simp; omega
    obtain ⟨hu, hls, htail⟩ := cutLines_spec u
    rw [cutLines_append hl]
    refine ⟨?_, List.forall_mem_cons.mpr ⟨hl, hls⟩, htail⟩
    rw [unlines_cons, List.append_assoc, List.cons_append, ← hu]
  · rw [cutLines_of_not_mem h]
    exact ⟨rfl, nofun, h⟩
termination_by t.length

theorem lines_unlines_append {ls : List Text} (h : ∀ l ∈ ls, '\n' ∉ l) (t : Text) :
    lines (unlines ls ++ t) = ls ++ lines t := by
  induction ls with
  | nil => rfl
  | cons l ls ih =>
    rw [unlines_cons, List.append_assoc, List.cons_append, lines_append_newline (h l List.mem_cons_self),
      ih fun x hx => h x (List.mem_cons_of_mem _ hx)]
    rfl

theorem lines_eq_cutLines (t : Text) :
    lines t = (cutLines t).1 ++ if (cutLines t).2 = [] then [] else [(cutLines t).2] := by
  obtain ⟨ht, hls, hu⟩ := cutLines_spec t
  conv_lhs => rw [ht]
  rw [lines_unlines_append hls]
  split
  · rename_i hnil
    rw [hnil]
    rfl
  · rename_i hne
    rw [lines_of_not_mem hne hu]

theorem unlines_lines_of_ended {t : Text} (h : Ended t) : unlines (lines t) = t := by
  have hnil : (cutLines t).2 = [] := h
  have ht := (cutLines_spec t).1
  rw [hnil, List.append_nil] at ht
  rw [lines_eq_cutLines, if_pos hnil, List.append_nil, ← ht]

theorem ended_unlines {ls : List Text} (h : ∀ l ∈ ls, '\n' ∉ l) : Ended (unlines ls) := by
  have := cutLines_unlines_append (u := []) h List.not_mem_nil
  rw [List.append_nil] at this
  rw [Ended, this]

/-! ## The edit -/

theorem cutLines_sedFilter (keep : Text → Bool) (t : Text) :
    cutLines (sedFilter keep t) =
      ((cutLines t).1.filter keep, if keep (cutLines t).2 then (cutLines t).2 else []) := by
  obtain ⟨_, hls, hu⟩ := cutLines_spec t
  refine cutLines_unlines_append (fun l hl => hls l (List.mem_filter.mp hl).1) ?_
  split
  · exact hu
  · exact List.not_mem_nil

/-- **The lines left** are those that pass. -/
theorem lines_sedFilter (keep : Text → Bool) (t : Text) :
    lines (sedFilter keep t) = (lines t).filter keep := by
  rw [lines_eq_cutLines, lines_eq_cutLines t, cutLines_sedFilter, List.filter_append]
  congr 1
  by_cases hnil : (cutLines t).2 = []
  · simp [hnil]
  · cases hk : keep (cutLines t).2 <;> simp [hnil, hk]

/-- **A second edit changes nothing.** -/
theorem sedFilter_idem (keep : Text → Bool) (t : Text) :
    sedFilter keep (sedFilter keep t) = sedFilter keep t := by
  rw [sedFilter, cutLines_sedFilter, List.filter_filter]
  simp only [Bool.and_self]
  unfold sedFilter
  cases hk : keep (cutLines t).2 <;> simp [hk]

@[simp] theorem sedFilter_nil (keep : Text → Bool) : sedFilter keep [] = [] := by
  rw [sedFilter, cutLines, List.filter_nil, unlines_nil, List.nil_append, ite_self]

/-- Two edits are one. -/
theorem sedFilter_sedFilter (keep keep' : Text → Bool) (t : Text) :
    sedFilter keep' (sedFilter keep t) = sedFilter (fun l => keep' l && keep l) t := by
  rw [sedFilter, cutLines_sedFilter, List.filter_filter]
  unfold sedFilter
  cases hk : keep (cutLines t).2 <;> simp [hk]

theorem sedFilter_of_ended {keep : Text → Bool} {t : Text} (h : Ended t) :
    sedFilter keep t = unlines ((lines t).filter keep) := by
  have hnil : (cutLines t).2 = [] := h
  rw [sedFilter, lines_eq_cutLines, hnil, if_pos rfl, List.append_nil, ite_self, List.append_nil]

theorem ended_sedFilter {keep : Text → Bool} {t : Text} (h : Ended t) : Ended (sedFilter keep t) := by
  have hnil : (cutLines t).2 = [] := h
  rw [Ended, cutLines_sedFilter, hnil, ite_self]

/-! ## Reading the lines with `str.splitlines` -/

theorem splitlines_cons_ne_nil (c : Char) (cs : Text) : splitlines (c :: cs) ≠ [] := by
  rw [splitlines.eq_def]
  split
  · simp_all
  · simp
  · split
    · simp
    · cases splitlines _ <;> simp [consHead]

theorem consHead_append {c : Char} {ls : List Text} (h : ls ≠ []) (ls' : List Text) :
    consHead c (ls ++ ls') = consHead c ls ++ ls' := by
  cases ls with
  | nil => exact absurd rfl h
  | cons l ls => rfl

/-- A newline ends a line for `str.splitlines` too, at most with an empty one before it: none after
`'\r'`, which it completes. -/
theorem splitlines_append_newline_cons {l : Text} (h : '\n' ∉ l) (t : Text) :
    ∃ gap : List Text, (∀ x ∈ gap, x = []) ∧
      splitlines (l ++ '\n' :: t) = splitlines l ++ (gap ++ splitlines t) := by
  induction l using splitlines.induct with
  | case1 => exact ⟨[[]], fun _ => List.mem_singleton.mp, splitlines_newline t⟩
  | case2 cs => exact absurd (List.mem_cons_of_mem _ List.mem_cons_self) h
  | case3 c cs hcrlf hbr ih =>
    have hcs : splitlines (c :: cs) = [] :: splitlines cs := by
      rw [splitlines]
      · rw [if_pos hbr]
      · exact hcrlf
    rw [hcs]
    by_cases hr : c = '\r' ∧ cs = []
    · obtain ⟨rfl, rfl⟩ := hr
      exact ⟨[], fun x hx => absurd hx List.not_mem_nil,
        by rw [List.cons_append, List.nil_append, splitlines]; rfl⟩
    · have hnext : splitlines (c :: (cs ++ '\n' :: t)) = [] :: splitlines (cs ++ '\n' :: t) := by
        rw [splitlines]
        · rw [if_pos hbr]
        · rintro ds rfl hds
          cases cs with
          | nil => exact hr ⟨rfl, rfl⟩
          | cons d es =>
            obtain ⟨rfl, -⟩ := List.cons.inj hds
            exact h (List.mem_cons_of_mem _ List.mem_cons_self)
      obtain ⟨gap, hgap, ih⟩ := ih fun hm => h (List.mem_cons_of_mem _ hm)
      exact ⟨gap, hgap, by rw [List.cons_append, hnext, ih]; rfl⟩
  | case4 c cs hcrlf hbr ih =>
    have hbr : isLineBreak c = false := Bool.not_eq_true _ ▸ hbr
    rw [List.cons_append, splitlines_cons hbr, splitlines_cons hbr]
    cases cs with
    | nil =>
      exact ⟨[], fun x hx => absurd hx List.not_mem_nil, by rw [List.nil_append, splitlines_newline]; rfl⟩
    | cons d ds =>
      obtain ⟨gap, hgap, ih⟩ := ih fun hm => h (List.mem_cons_of_mem _ hm)
      exact ⟨gap, hgap, by rw [ih, consHead_append (splitlines_cons_ne_nil d ds)]⟩

/-- **`str.splitlines` reads each line of `sed` by itself**, but for empty lines. -/
theorem exists_splitlines_iff {q : Text → Prop} (hq : ¬ q []) (t : Text) :
    (∃ l ∈ splitlines t, q l) ↔ ∃ line ∈ lines t, ∃ l ∈ splitlines line, q l := by
  by_cases hm : '\n' ∈ t
  · obtain ⟨l, u, rfl, hl⟩ := List.eq_append_cons_of_mem hm
    have hlt : u.length < (l ++ '\n' :: u).length := by simp; omega
    have ih := exists_splitlines_iff hq u
    obtain ⟨gap, hgap, hs⟩ := splitlines_append_newline_cons hl u
    rw [hs, lines_append_newline hl, List.exists_mem_cons_iff, ← ih]
    constructor
    · rintro ⟨x, hx, hqx⟩
      rcases List.mem_append.mp hx with hx | hx
      · exact Or.inl ⟨x, hx, hqx⟩
      · rcases List.mem_append.mp hx with hx | hx
        · exact absurd (hgap x hx ▸ hqx) hq
        · exact Or.inr ⟨x, hx, hqx⟩
    · rintro (⟨x, hx, hqx⟩ | ⟨x, hx, hqx⟩)
      · exact ⟨x, List.mem_append_left _ hx, hqx⟩
      · exact ⟨x, List.mem_append_right _ (List.mem_append_right _ hx), hqx⟩
  · cases t with
    | nil => simp [lines, splitlines]
    | cons c cs => rw [lines_of_not_mem (List.cons_ne_nil c cs) hm]; simp
termination_by t.length

/-! ## The lines a pattern selects -/

/-- Is a line selected by `/pattern/`? `false` for an expression that cannot be read. -/
def selects (pattern l : Text) : Bool :=
  match parseBre pattern with
  | none => false
  | some b => b.search l

/-- `sed '/pattern/d' -i`. An expression that cannot be read leaves the file. -/
def sedDrop (pattern t : Text) : Text := sedFilter (fun l => !selects pattern l) t

/-- Texts that agree but where the first has a dot. -/
def Like (w v : Text) : Prop := List.Forall₂ (fun c d => c = '.' ∨ c = d) w v

theorem Like.refl (w : Text) : Like w w := List.forall₂_same.mpr fun _ _ => Or.inr rfl

theorem Like.length_eq {w v : Text} (h : Like w v) : w.length = v.length := List.Forall₂.length_eq h

theorem like_append_iff {u u' v : Text} :
    Like (u ++ u') v ↔ ∃ w w', v = w ++ w' ∧ Like u w ∧ Like u' w' := by
  induction u generalizing v with
  | nil =>
    constructor
    · exact fun h => ⟨[], v, rfl, List.Forall₂.nil, h⟩
    · rintro ⟨w, w', rfl, hw, hw'⟩
      rwa [List.forall₂_nil_left_iff.mp hw]
  | cons c cs ih =>
    rw [List.cons_append, Like, List.forall₂_cons_left_iff]
    constructor
    · rintro ⟨d, v', hd, hv', rfl⟩
      obtain ⟨w, w', rfl, hw, hw'⟩ := ih.mp hv'
      exact ⟨d :: w, w', rfl, List.Forall₂.cons hd hw, hw'⟩
    · rintro ⟨w, w', rfl, hw, hw'⟩
      obtain ⟨d, x, hd, hx, rfl⟩ := List.forall₂_cons_left_iff.mp hw
      exact ⟨d, x ++ w', hd, ih.mpr ⟨x, w', rfl, hx, hw'⟩, rfl⟩

/-- A text without dots is like itself only. -/
theorem like_iff_eq {u v : Text} (h : '.' ∉ u) : Like u v ↔ v = u := by
  refine ⟨fun hl => ?_, fun e => e ▸ Like.refl v⟩
  induction hl with
  | nil => rfl
  | cons hd _ ih =>
    obtain ⟨hc, hcs⟩ := not_or.mp fun hm => h (List.mem_cons.mpr hm)
    rw [ih hcs, hd.resolve_left fun e => hc e.symm]

/-- The expression a plain character or a dot stands for. -/
def dotRe (c : Char) : Re := if c = '.' then .any else .literal c

theorem matches_dotRe_iff {c : Char} {t : Text} :
    Re.Matches (dotRe c) t ↔ ∃ d, t = [d] ∧ (c = '.' ∨ c = d) := by
  unfold dotRe
  split
  · rename_i hc
    rw [Re.any, Re.matches_chr_iff]
    simp [hc]
  · rename_i hc
    rw [Re.literal, Re.matches_chr_iff]
    simp only [hc, false_or, beq_iff_eq]
    exact ⟨fun ⟨d, ht, hd⟩ => ⟨d, ht, hd.symm⟩, fun ⟨d, ht, hd⟩ => ⟨d, ht, hd.symm⟩⟩

theorem matches_seq_dots_iff {w t : Text} : Re.Matches (.seq (w.map dotRe)) t ↔ Like w t := by
  induction w generalizing t with
  | nil =>
    change Re.Matches .empty t ↔ _
    rw [Re.matches_empty_iff, Like, List.forall₂_nil_left_iff]
  | cons c cs ih =>
    change Re.Matches (.cat (dotRe c) (.seq (cs.map dotRe))) t ↔ _
    rw [Re.matches_cat_iff, Like, List.forall₂_cons_left_iff]
    constructor
    · rintro ⟨u, v, rfl, hu, hv⟩
      obtain ⟨d, rfl, hd⟩ := matches_dotRe_iff.mp hu
      exact ⟨d, v, hd, ih.mp hv, rfl⟩
    · rintro ⟨d, v, hd, hv, rfl⟩
      exact ⟨[d], v, rfl, matches_dotRe_iff.mpr ⟨d, rfl, hd⟩, ih.mpr hv⟩

theorem head?_ne_star {w rest : Text} (h : ∀ c ∈ w, Plain c ∨ c = '.') (hrest : rest.head? ≠ some '*') :
    (w ++ rest).head? ≠ some '*' := by
  cases w with
  | nil => exact hrest
  | cons c cs =>
    have hc : c ≠ '*' := by
      rintro rfl
      rcases h '*' List.mem_cons_self with h | h
      · exact h (by decide)
      · exact absurd h (by decide)
    simpa using hc

/-- Plain characters and dots are read one by one. -/
theorem items_dots {w rest : Text} (h : ∀ c ∈ w, Plain c ∨ c = '.') (hrest : rest.head? ≠ some '*')
    (n : Nat) : items (w.length + n) (w ++ rest) =
      (items n rest).map fun (rs, e) => (w.map dotRe ++ rs, e) := by
  induction w with
  | nil =>
    rw [List.length_nil, Nat.zero_add]
    change items n rest = _
    cases items n rest <;> rfl
  | cons c cs ih =>
    have htl : ∀ x ∈ cs, Plain x ∨ x = '.' := fun x hx => h x (List.mem_cons_of_mem _ hx)
    have hatom : atom (c :: (cs ++ rest)) = some (dotRe c, cs ++ rest) := by
      unfold dotRe
      by_cases hc : c = '.'
      · subst hc
        rfl
      · rw [if_neg hc]
        exact atom_plain ((h c List.mem_cons_self).resolve_right hc) _
    have hd : c :: (cs ++ rest) ≠ ['$'] := fun e => by
      obtain ⟨rfl, -⟩ := List.cons.inj e
      rcases h '$' List.mem_cons_self with h | h
      · exact h (by decide)
      · exact absurd h (by decide)
    have hlen : (c :: cs).length + n = cs.length + n + 1 := by rw [List.length_cons]; omega
    rw [hlen, List.cons_append, items_atom (List.cons_ne_nil _ _) hd hatom (head?_ne_star htl hrest),
      ih htl]
    cases items n rest <;> rfl

/-- **A pattern of plain characters and dots** selects the lines that hold a text like it. -/
theorem selects_dots_iff {w l : Text} (h : ∀ c ∈ w, Plain c ∨ c = '.') :
    selects w l = true ↔ ∃ v, v <:+: l ∧ Like w v := by
  have hhead : w.head? ≠ some '^' := fun e => by
    rcases h '^' (List.mem_of_head? e) with h | h
    · exact h (by decide)
    · exact absurd h (by decide)
  have hparse : parseBre w = some ⟨false, w.map dotRe, false⟩ := by
    have hrest : ([] : Text).head? ≠ some '*' := by simp
    have hi := items_dots h hrest 0
    rw [List.append_nil, Nat.add_zero] at hi
    rw [parseBre_of_head? hhead, hi]
    simp [items]
  rw [selects, hparse]
  change Bre.search _ l = true ↔ _
  rw [Bre.search_iff]
  simp only [Bool.false_eq_true, false_imp_iff, and_true]
  constructor
  · rintro ⟨u, v, x, rfl, hv⟩
    exact ⟨v, ⟨u, x, (List.append_assoc _ _ _)⟩, matches_seq_dots_iff.mp hv⟩
  · rintro ⟨v, ⟨u, x, rfl⟩, hv⟩
    exact ⟨u, v, x, List.append_assoc _ _ _, matches_seq_dots_iff.mpr hv⟩

theorem matches_seq_literals_iff {w v : Text} : Re.Matches (.seq (w.map .literal)) v ↔ v = w := by
  have h : Re.Matches (.seq (w.map .literal ++ [])) v ↔ _ := Re.matches_seq_literals
  rw [List.append_nil] at h
  rw [h]
  constructor
  · rintro ⟨u, rfl, hu⟩
    rw [Re.matches_empty_iff.mp hu, List.append_nil]
  · rintro rfl
    exact ⟨[], (List.append_nil _).symm, Re.Matches.empty⟩

/-- **An escaped text at the end** selects the lines that end with it. -/
theorem selects_suffix_iff {w l : Text} (h : ∀ c ∈ w, Plain c ∨ c = '.') :
    selects (escapeDots w ++ ['$']) l = true ↔ w <:+ l := by
  have hhead : (escapeDots w ++ ['$']).head? ≠ some '^' := by
    cases w with
    | nil => simp [escapeDots]
    | cons c cs =>
      have hc : c ≠ '^' := by
        rintro rfl
        rcases h '^' List.mem_cons_self with h | h
        · exact h (by decide)
        · exact absurd h (by decide)
      rw [escapeDots, List.flatMap_cons]
      split <;> simp [hc]
  have hparse : parseBre (escapeDots w ++ ['$']) = some ⟨false, w.map .literal, true⟩ := by
    obtain ⟨k, hk⟩ : ∃ k, (escapeDots w ++ ['$']).length = w.length + (k + 1) := by
      have hle := length_le_escapeDots w
      refine ⟨(escapeDots w).length - w.length, ?_⟩
      rw [List.length_append, List.length_singleton]
      omega
    have hend : items (k + 1) ['$'] = some ([], true) := by rw [items, if_pos rfl]; simp
    rw [parseBre_of_head? hhead, hk, items_escapeDots h (by decide), hend]
    simp
  rw [selects, hparse]
  change Bre.search _ l = true ↔ _
  rw [Bre.search_iff]
  constructor
  · rintro ⟨u, v, x, rfl, hv, _, hx⟩
    rw [matches_seq_literals_iff.mp hv, hx rfl, List.append_nil]
    exact ⟨u, rfl⟩
  · rintro ⟨u, rfl⟩
    exact ⟨u, w, [], by rw [List.append_nil], matches_seq_literals_iff.mpr rfl,
      fun e => absurd e Bool.false_ne_true, fun _ => rfl⟩

/-- **A plain word at the beginning, and a blank**. -/
theorem selects_word_iff {w l : Text} (h : ∀ c ∈ w, Plain c) :
    selects ('^' :: (w ++ spaceClass)) l = true ↔ ∃ c u, l = w ++ c :: u ∧ posixSpace c = true := by
  have hparse : parseBre ('^' :: (w ++ spaceClass)) =
      some ⟨true, w.map .literal ++ [.chr posixSpace], false⟩ := by
    have hlast : ∀ n, items (n + 1) spaceClass = some ([.chr posixSpace], false) := fun n => by
      have := items_atom (n := n) (by decide) (by decide) (atom_spaceClass []) (by simp)
      rw [List.append_nil] at this
      rw [this]
      cases n <;> rfl
    have hrest : spaceClass.head? ≠ some '*' := by decide
    have hi := items_escapeDots (fun c hc => Or.inl (h c hc)) hrest 11
    rw [escapeDots_of_plain h, hlast] at hi
    have hlen : (w ++ spaceClass).length = w.length + 11 := by simp [spaceClass]
    rw [parseBre, hlen, hi]
    rfl
  rw [selects, hparse]
  change Bre.search _ l = true ↔ _
  rw [Bre.search_iff]
  constructor
  · rintro ⟨u, v, x, rfl, hv, hu, _⟩
    obtain ⟨y, rfl, hy⟩ := Re.matches_seq_literals.mp hv
    obtain ⟨a, b, rfl, ha, hb⟩ := Re.matches_cat_iff.mp hy
    obtain ⟨c, rfl, hc⟩ := Re.matches_chr_iff.mp ha
    rw [Re.matches_empty_iff.mp hb, hu rfl]
    exact ⟨c, x, by simp, hc⟩
  · rintro ⟨c, x, rfl, hc⟩
    refine ⟨[], w ++ [c], x, by simp, Re.matches_seq_literals.mpr ⟨[c], rfl, ?_⟩, fun _ => rfl,
      fun e => absurd e Bool.false_ne_true⟩
    exact Re.Matches.cat (t := [c]) (u := []) (Re.Matches.chr hc) Re.Matches.empty

end LabInABox.Text
