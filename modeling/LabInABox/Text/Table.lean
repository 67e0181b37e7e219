import LabInABox.Keyed
import LabInABox.Text.Regex

/-!
# Tables of lines

A registry file holds one entry a line, its fields separated by a space. `IsTable row file es` says
the file holds the entries `es`, each written as the fields `row` gives it.

The operations are those of a program that keeps such a file on another host: read it through the
stripped output of `cat` and write it back whole (`rewriteFile`), append a line, delete the lines a
`sed` address selects (`sedDelete`).

Results:
* `IsTable.read`, `IsTable.fields_line`: what is read back are the entries, field by field.
* `IsTable.rewriteFile`, `IsTable.append`, `IsTable.sedDelete`: what each operation does to the
  entries.
-/

namespace LabInABox.Text

/-- The lines of a file as read over SSH: `ssh_output(..).splitlines()`. -/
def readLines (file : Text) : List Text := splitlines (strip file)

/-- Read the file, keep some of its lines, add one at the end and write the file back:
`"\n".join(kept + [line]) + "\n"`. -/
def rewriteFile (keep : Text → Bool) (line file : Text) : Text :=
  unlines ((readLines file).filter keep ++ [line])

/-- `sed -i '/pattern/d' file`, for a file whose last line is ended too. An expression that cannot be
read leaves the file. -/
def sedDelete (pattern file : Text) : Text :=
  match parseBre pattern with
  | none => file
  | some b => unlines ((lines file).filter fun l => !b.search l)

/-- The pattern selects, among the lines of the file, those whose fields `p` accepts. -/
def sedSelects (pattern file : Text) (p : List Text → Bool) : Bool :=
  match parseBre pattern with
  | none => false
  | some b => (lines file).all fun l => b.search l == p (fields l)

variable {ε : Type*} {row : ε → List Text} {file : Text} {es : List ε}

/-- The file holds the entries, one a line. -/
structure IsTable (row : ε → List Text) (file : Text) (es : List ε) : Prop where
  file_eq : file = unlines (es.map fun e => join (row e))
  ne_nil : ∀ e ∈ es, row e ≠ []
  isField : ∀ e ∈ es, ∀ f ∈ row e, IsField isSpace f

namespace IsTable

theorem nil (row : ε → List Text) : IsTable row [] [] := ⟨rfl, nofun, nofun⟩

theorem isEntry (h : IsTable row file es) {l : Text} (hl : l ∈ es.map fun e => join (row e)) :
    IsEntry l := by
  obtain ⟨e, he, rfl⟩ := List.mem_map.mp hl
  exact isEntry_join (h.ne_nil e he) (h.isField e he)

theorem fields_line (h : IsTable row file es) {e : ε} (he : e ∈ es) :
    fields (join (row e)) = row e := fields_join (h.isField e he)

theorem read (h : IsTable row file es) : readLines file = es.map fun e => join (row e) := by
  rw [readLines, h.file_eq]
  exact splitlines_strip_unlines fun l hl => h.isEntry hl

theorem lines_eq (h : IsTable row file es) : lines file = es.map fun e => join (row e) := by
  have hl : ∀ l ∈ es.map fun e => join (row e), '\n' ∉ l := fun l hl => (h.isEntry hl).oneLine.not_mem
  rw [h.file_eq, lines_unlines hl]

/-- Entries and the lines they are written as are filtered alike. -/
theorem filter_lines {keep : Text → Bool} {p : ε → Bool} (hp : ∀ e ∈ es, keep (join (row e)) = p e) :
    (es.map fun e => join (row e)).filter keep = (es.filter p).map fun e => join (row e) := by
  rw [List.filter_map]
  congr 1
  exact List.filter_congr hp

theorem filter (h : IsTable row file es) (p : ε → Bool) :
    IsTable row (unlines ((es.filter p).map fun e => join (row e))) (es.filter p) :=
  ⟨rfl, fun e he => h.ne_nil e (List.mem_filter.mp he).1,
    fun e he => h.isField e (List.mem_filter.mp he).1⟩

theorem append (h : IsTable row file es) {e : ε} (hne : row e ≠ [])
    (hf : ∀ f ∈ row e, IsField isSpace f) :
    IsTable row (file ++ (join (row e) ++ ['\n'])) (es ++ [e]) := by
  refine ⟨?_, fun x hx => ?_, fun x hx => ?_⟩
  · rw [h.file_eq, List.map_append, unlines_append, List.map_singleton, unlines_cons, unlines_nil]
  · rcases List.mem_append.mp hx with hx | hx
    · exact h.ne_nil x hx
    · rwa [List.mem_singleton.mp hx]
  · rcases List.mem_append.mp hx with hx | hx
    · exact h.isField x hx
    · rwa [List.mem_singleton.mp hx]

/-- **Rewriting the file**: the entries kept, then the new one. -/
theorem rewriteFile (h : IsTable row file es) {keep : Text → Bool} {p : ε → Bool}
    (hp : ∀ e ∈ es, keep (join (row e)) = p e) {e : ε} (hne : row e ≠ [])
    (hf : ∀ f ∈ row e, IsField isSpace f) :
    IsTable row (Text.rewriteFile keep (join (row e)) file) (es.filter p ++ [e]) := by
  have happ := (h.filter p).append hne hf
  rw [Text.rewriteFile, h.read, filter_lines hp, unlines_append, unlines_cons, unlines_nil]
  exact happ

/-- **Deleting by a pattern** that selects exactly the entries `p` refuses. -/
theorem sedDelete (h : IsTable row file es) {pattern : Text} {q : List Text → Bool}
    (hsel : sedSelects pattern file q = true) {p : ε → Bool} (hp : ∀ e ∈ es, p e = !q (row e)) :
    IsTable row (Text.sedDelete pattern file) (es.filter p) := by
  unfold sedSelects at hsel
  unfold Text.sedDelete
  split
  · rename_i hnone
    rw [hnone] at hsel
    exact absurd hsel Bool.false_ne_true
  · rename_i b hb
    rw [hb] at hsel
    rw [h.lines_eq, filter_lines (p := p)]
    · exact h.filter p
    · intro e he
      have hmem : join (row e) ∈ lines file := by
        rw [h.lines_eq]
        exact List.mem_map_of_mem he
      have := beq_iff_eq.mp (List.all_eq_true.mp hsel _ hmem)
      rw [this, h.fields_line he, hp e he]

end IsTable

end LabInABox.Text
