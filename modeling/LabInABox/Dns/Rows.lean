import LabInABox.Dns.Sync
import LabInABox.Dns.Address
import LabInABox.Text.Sed

/-!
# The rows of a zone file, and what the edits of the DNS service do to them

A row is what a line of a zone file says: its fields before the comment. `records` joins the rows it
keeps. The DNS service edits a file in four ways, and each has one lemma here that says which rows
it leaves:

* `dropMatched`: the rewrites of this host, `"\n".join(l for l in text.splitlines() if ..) + "\n"`;
* `dnsAddLine`: `_dns_add_line` of this host;
* `sedFilter`: `sed -i '/../d'` of a master;
* `guardAdd`: `grep -qF .. || echo .. >>` of a master.

Results:
* `mem_records_iff`: the records of a file are its rows, joined, that the loop of `records` keeps.
* `mem_rows_dropMatched`, `mem_rows_dnsAddLine`, `mem_rows_sedFilter`, `mem_rows_guardAdd`.
* `guardAdd_idem`: an append that the guard sees is made once.
-/

namespace LabInABox.Dns

open Text

/-! ## Rows -/

/-- The fields of a line before its comment. -/
def rowOf (line : Text) : List Text := fields (bare line)

/-- The rows of a text: those of its lines that say something. -/
def rows (t : Text) : List (List Text) := ((splitlines t).map rowOf).filter (· ≠ [])

variable {t r line : Text} {ρ : List Text}

theorem mem_rows : ρ ∈ rows t ↔ ∃ l ∈ splitlines t, ρ ≠ [] ∧ rowOf l = ρ := by
  rw [rows, List.mem_filter, List.mem_map]
  simp only [decide_eq_true_eq]
  exact ⟨fun ⟨⟨l, hl, hr⟩, hne⟩ => ⟨l, hl, hne, hr⟩, fun ⟨l, hl, hne, hr⟩ => ⟨⟨l, hl, hr⟩, hne⟩⟩

theorem rowOf_nil : rowOf [] = [] := rfl

theorem recordOf_nil : recordOf [] = none := recordOf_of_blank fun _ hc => absurd hc List.not_mem_nil

theorem rowOf_blank {b : Text} (hb : Blank b) : rowOf b = [] :=
  fieldsBy_eq_nil_of_blank fun c hc => hb c (List.takeWhile_subset _ hc)

/-- **Each line of `sed` is read by itself.** -/
theorem mem_rows_iff_lines : ρ ∈ rows t ↔ ∃ line ∈ lines t, ρ ∈ rows line := by
  have hq : ¬ (ρ ≠ [] ∧ rowOf [] = ρ) := fun h => h.1 (h.2.symm.trans rowOf_nil)
  simp only [mem_rows]
  exact exists_splitlines_iff hq t

theorem isField_of_mem_rowOf {f : Text} (h : f ∈ rowOf line) : IsField isSpace f :=
  isField_of_mem_fieldsBy h

/-- **The records of a file** are its rows, joined, that the loop of `records` keeps. -/
theorem mem_records_iff : r ∈ records t ↔ ∃ ρ ∈ rows t, keeps ρ = true ∧ join ρ = r := by
  rw [mem_records]
  constructor
  · rintro ⟨l, hl, hr⟩
    rw [recordOf_eq] at hr
    split at hr
    · rename_i hk
      have hne : rowOf l ≠ [] := fun e => by
        rw [rowOf] at e
        rw [e] at hk
        exact absurd hk (by simp [keeps])
      exact ⟨rowOf l, mem_rows.mpr ⟨l, hl, hne, rfl⟩, hk, Option.some.inj hr⟩
    · exact absurd hr (by simp)
  · rintro ⟨ρ, hρ, hk, rfl⟩
    obtain ⟨l, hl, _, rfl⟩ := mem_rows.mp hρ
    exact ⟨l, hl, by rw [recordOf_eq]; exact if_pos hk⟩

theorem fields_join_rowOf : fields (join (rowOf line)) = rowOf line :=
  fields_join fun _ => isField_of_mem_rowOf

/-! ## Rewriting on this host -/

/-- `"\n".join(line for line in text.splitlines() if not matcher(line)) + "\n"`. -/
def dropMatched (matcher : Text → Bool) (text : Text) : Text :=
  ['\n'].intercalate ((splitlines text).filter fun line => !matcher line) ++ ['\n']

/-- The lines a rewrite leaves, but for an empty one. -/
theorem exists_splitlines_dropMatched {matcher : Text → Bool} {q : Text → Prop} (hq : ¬ q []) :
    (∃ l ∈ splitlines (dropMatched matcher t), q l) ↔
      ∃ l ∈ splitlines t, matcher l = false ∧ q l := by
  have hone : ∀ l ∈ (splitlines t).filter fun line => !matcher line, OneLine l := fun l hl =>
    oneLine_of_mem_splitlines l (List.mem_filter.mp hl).1
  unfold dropMatched
  by_cases hnil : ((splitlines t).filter fun line => !matcher line) = []
  · -- the file is an empty line then
    have hlines : splitlines (['\n'].intercalate ([] : List Text) ++ ['\n']) = [[]] := rfl
    rw [hnil, hlines]
    constructor
    · rintro ⟨l, hl, hql⟩
      exact absurd (List.mem_singleton.mp hl ▸ hql) hq
    · rintro ⟨l, hl, hm, _⟩
      exact absurd hm (by simpa using List.filter_eq_nil_iff.mp hnil l hl)
  · rw [intercalate_append_newline hnil, splitlines_unlines hone]
    constructor
    · rintro ⟨l, hl, hql⟩
      obtain ⟨hl, hm⟩ := List.mem_filter.mp hl
      exact ⟨l, hl, by simpa using hm, hql⟩
    · rintro ⟨l, hl, hm, hql⟩
      exact ⟨l, List.mem_filter.mpr ⟨hl, by simpa using hm⟩, hql⟩

theorem mem_rows_dropMatched {matcher : Text → Bool} :
    ρ ∈ rows (dropMatched matcher t) ↔
      ∃ l ∈ splitlines t, matcher l = false ∧ ρ ≠ [] ∧ rowOf l = ρ := by
  have hq : ¬ (ρ ≠ [] ∧ rowOf [] = ρ) := fun h => h.1 (h.2.symm.trans rowOf_nil)
  rw [mem_rows]
  exact exists_splitlines_dropMatched hq

theorem mem_rows_dnsAddLine (hone : OneLine r) (hr : rowOf r ≠ []) :
    ρ ∈ rows (dnsAddLine r t) ↔ ρ ∈ rows t ∨ ρ = rowOf r := by
  rw [mem_rows, mem_rows]
  unfold dnsAddLine
  split
  · rename_i hm
    exact ⟨Or.inl, fun h => h.elim id fun h => ⟨r, hm, h ▸ hr, h.symm⟩⟩
  · have hlines : splitlines (unlines (splitlines t ++ [r])) = splitlines t ++ [r] := by
      refine splitlines_unlines fun l hl => ?_
      rcases List.mem_append.mp hl with hl | hl
      · exact oneLine_of_mem_splitlines l hl
      · rwa [List.mem_singleton.mp hl]
    rw [hlines]
    constructor
    · rintro ⟨l, hl, hne, hl'⟩
      rcases List.mem_append.mp hl with hl | hl
      · exact Or.inl ⟨l, hl, hne, hl'⟩
      · exact Or.inr (List.mem_singleton.mp hl ▸ hl'.symm)
    · rintro (⟨l, hl, hne, hl'⟩ | rfl)
      · exact ⟨l, List.mem_append_left _ hl, hne, hl'⟩
      · exact ⟨r, List.mem_append_right _ (List.mem_singleton_self r), hr, rfl⟩

/-! ## Editing on a master -/

/-- `grep -qF r file || echo r >> file`. -/
def guardAdd (r t : Text) : Text := if grepF r t then t else appendLine t r

theorem mem_rows_sedFilter {keep : Text → Bool} :
    ρ ∈ rows (sedFilter keep t) ↔ ∃ line ∈ lines t, keep line = true ∧ ρ ∈ rows line := by
  rw [mem_rows_iff_lines, lines_sedFilter]
  constructor
  · rintro ⟨l, hl, hρ⟩
    obtain ⟨hl, hk⟩ := List.mem_filter.mp hl
    exact ⟨l, hl, hk, hρ⟩
  · rintro ⟨l, hl, hk, hρ⟩
    exact ⟨l, List.mem_filter.mpr ⟨hl, hk⟩, hρ⟩

/-- A line appended over an open line of blanks adds its row. -/
theorem mem_rows_appendLine (hb : Blank (openLine t)) (hone : OneLine r) (hr : rowOf r ≠ []) :
    ρ ∈ rows (appendLine t r) ↔ ρ ∈ rows t ∨ ρ = rowOf r := by
  have hne : r ≠ [] := fun e => hr (e ▸ rowOf_nil)
  have hopen : rowOf (openLine t ++ r) = rowOf r := by
    have hsemi : ∀ c ∈ openLine t, (c != ';') = true := fun c hc => by
      have hs := hb c hc
      simp only [bne_iff_ne, ne_eq]
      rintro rfl
      exact absurd hs (by decide)
    rw [rowOf, bare, List.takeWhile_append_of_pos hsemi, fields, fieldsBy_blank_append hb]
    rfl
  have hread : ∀ l ∈ splitlines (openLine t), rowOf l = [] := fun l hl => by
    by_cases he : openLine t = []
    · rw [he] at hl
      exact absurd hl List.not_mem_nil
    · rw [splitlines_of_oneLine he (oneLine_openLine t)] at hl
      rw [List.mem_singleton.mp hl]
      exact rowOf_blank hb
  rw [mem_rows, mem_rows, appendLine, splitlines_append_line t hone hne [], splitlines_eq_closed t]
  constructor
  · rintro ⟨l, hl, hρ, rfl⟩
    rcases List.mem_append.mp hl with hl | hl
    · exact Or.inl ⟨l, List.mem_append_left _ hl, hρ, rfl⟩
    · rw [List.mem_singleton.mp hl]
      exact Or.inr hopen
  · rintro (⟨l, hl, hρ, rfl⟩ | rfl)
    · rcases List.mem_append.mp hl with hl | hl
      · exact ⟨l, List.mem_append_left _ hl, hρ, rfl⟩
      · exact absurd (hread l hl) hρ
    · exact ⟨_, List.mem_append_right _ (List.mem_singleton_self _), hr, hopen⟩

theorem grepF_eq_true_iff (hne : r ≠ []) (hr : '\n' ∉ r) : grepF r t = true ↔ r <:+: t := by
  rw [← exists_mem_lines_infix_iff hne hr, grepF]
  simp

theorem mem_rows_guardAdd (hone : OneLine r) (hr : rowOf r ≠ [])
    (hb : ¬ r <:+: t → Blank (openLine t)) :
    ρ ∈ rows (guardAdd r t) ↔ ρ ∈ rows t ∨ (¬ r <:+: t ∧ ρ = rowOf r) := by
  have hne : r ≠ [] := fun e => hr (e ▸ rowOf_nil)
  unfold guardAdd
  by_cases hin : r <:+: t
  · rw [if_pos ((grepF_eq_true_iff hne hone.not_mem).mpr hin)]
    simp [hin]
  · have hg : ¬ grepF r t = true := fun h => hin ((grepF_eq_true_iff hne hone.not_mem).mp h)
    rw [if_neg hg, mem_rows_appendLine (hb hin) hone hr]
    simp [hin]

/-- **An append that the guard sees is made once.** -/
theorem guardAdd_idem (hne : r ≠ []) (hr : '\n' ∉ r) (t : Text) :
    guardAdd r (guardAdd r t) = guardAdd r t := by
  have hin : grepF r (guardAdd r t) = true := by
    rw [grepF_eq_true_iff hne hr]
    unfold guardAdd
    split
    · rename_i h
      exact (grepF_eq_true_iff hne hr).mp h
    · rw [appendLine]
      exact List.infix_append_of_infix_right (List.infix_append_of_infix_left (List.infix_refl r))
  rw [guardAdd, if_pos hin]

/-! ## Open lines -/

theorem openLine_append_newline (l u : Text) : openLine (l ++ '\n' :: u) = openLine u := by
  unfold openLine List.rtakeWhile
  rw [List.reverse_append, List.reverse_cons, List.append_assoc, List.takeWhile_append]
  split
  · rename_i h
    have hall : u.reverse.takeWhile (fun c => !isLineBreak c) = u.reverse :=
      (List.takeWhile_prefix _).eq_of_length h
    rw [hall, List.singleton_append, List.takeWhile_cons_of_neg (by decide), List.append_nil]
  · rfl

theorem openLine_unlines_append (ls : List Text) (u : Text) :
    openLine (unlines ls ++ u) = openLine u := by
  induction ls with
  | nil => rfl
  | cons l ls ih => rw [unlines_cons, List.append_assoc, List.cons_append, openLine_append_newline, ih]

theorem blank_openLine_sedFilter {keep : Text → Bool} (h : Blank (openLine t)) :
    Blank (openLine (sedFilter keep t)) := by
  have ht := (cutLines_spec t).1
  rw [ht, openLine_unlines_append] at h
  rw [sedFilter, openLine_unlines_append]
  split
  · exact h
  · exact fun _ hc => absurd hc List.not_mem_nil

theorem blank_openLine_guardAdd (h : Blank (openLine t)) : Blank (openLine (guardAdd r t)) := by
  unfold guardAdd
  split
  · exact h
  · rw [openLine_appendLine]
    exact fun _ hc => absurd hc List.not_mem_nil

end LabInABox.Dns
