import Mathlib.Data.List.Infix
import LabInABox.Objects
import LabInABox.Text.Fields

/-!
# File trees

General facts about directories and files, and about copies of a directory that are put back. A path
is the list of names from the root; files hold contents of any type.

* A tree has a root, and what is in it stands in directories: these are fields, so that every
  operation keeps them.
* The operations that can fail give none, and then nothing was changed.

Results:
* `get_eq_none_of_isPrefix`: there is nothing under what is not there.
* `get_putBack`: removing a directory and putting a copy back gives what was copied, whatever became
  of it in between, and leaves the rest.
-/

namespace LabInABox

open Text

/-- The names from the root down. -/
abbrev Path := List Text

/-- What stands at a path. -/
inductive Node (α : Type*)
  | dir
  | file (content : α)
  deriving DecidableEq

/-- Directories and files. -/
structure FileTree (α : Type*) where
  nodes : Obj Path (Node α)
  root : nodes.get [] = some .dir
  closed : ∀ p n, nodes.get (p ++ [n]) ≠ none → nodes.get p = some .dir

/-- Neither path leads into the other. -/
def Apart (p q : Path) : Prop := ¬ p <+: q ∧ ¬ q <+: p

instance Apart.decidable (p q : Path) : Decidable (Apart p q) := inferInstanceAs (Decidable (_ ∧ _))

theorem Apart.symm {p q : Path} (h : Apart p q) : Apart q p := ⟨h.2, h.1⟩

theorem Apart.not_isPrefix {p q r : Path} (h : Apart p q) (hp : p <+: r) : ¬ q <+: r := by
  intro hq
  rcases List.prefix_or_prefix_of_prefix hp hq with hpq | hqp
  · exact h.1 hpq
  · exact h.2 hqp

/-- Paths that differ in a name are apart. -/
theorem apart_of_getElem {p q : Path} (i : Nat) {a b : Text} (hp : p[i]? = some a) (hq : q[i]? = some b)
    (hne : a ≠ b) : Apart p q := by
  constructor <;>
  · rintro ⟨r, rfl⟩
    rw [List.getElem?_append_left (List.getElem?_eq_some_iff.mp ‹_›).1] at *
    simp_all

theorem prefix_dropLast {p q : Path} (h : p <+: q) (hne : p ≠ q) : p <+: q.dropLast := by
  rcases q.eq_nil_or_concat with rfl | ⟨r, n, rfl⟩
  · exact absurd (List.prefix_nil.mp h) hne
  · rw [List.concat_eq_append] at h hne ⊢
    rw [List.dropLast_concat]
    exact (List.prefix_concat_iff.mp h).resolve_left hne

theorem not_prefix_dropLast {p : Path} (h : p ≠ []) : ¬ p <+: p.dropLast := by
  intro hp
  have hl := hp.length_le
  have hpos := List.length_pos_iff.mpr h
  rw [List.length_dropLast] at hl
  omega

namespace FileTree

variable {α : Type*}

/-- What stands at a path, none where nothing does. -/
def get (s : FileTree α) (p : Path) : Option (Node α) := s.nodes.get p

/-- A path is that of a directory. -/
def isDir (s : FileTree α) (p : Path) : Bool :=
  match s.get p with
  | some .dir => true
  | _ => false

/-- A path is that of a file. -/
def isFile (s : FileTree α) (p : Path) : Bool :=
  match s.get p with
  | some (.file _) => true
  | _ => false

/-- The names in a directory. -/
def names (s : FileTree α) (p : Path) : List Text :=
  s.nodes.keys.filterMap fun q => if q.dropLast = p then q.getLast? else none

variable {s s' : FileTree α} {p q : Path} {c : α}

theorem isDir_iff : s.isDir p = true ↔ s.get p = some .dir := by
  unfold isDir
  split
  · rename_i h
    exact ⟨fun _ => h, fun _ => rfl⟩
  · rename_i h
    refine ⟨fun hd => ?_, fun hd => absurd hd h⟩
    cases hd

theorem isDir_eq_false_iff : s.isDir p = false ↔ s.get p ≠ some .dir := by
  rw [← Bool.not_eq_true, isDir_iff]

theorem isFile_iff : s.isFile p = true ↔ ∃ c, s.get p = some (.file c) := by
  unfold isFile
  split
  · rename_i c h
    exact ⟨fun _ => ⟨c, h⟩, fun _ => rfl⟩
  · rename_i h
    constructor
    · intro hf
      cases hf
    · rintro ⟨c, hc⟩
      exact absurd hc (h c)

theorem get_nil : s.get [] = some .dir := s.root

theorem get_dropLast (h : s.get p ≠ none) : s.get p.dropLast = some .dir := by
  rcases p.eq_nil_or_concat with rfl | ⟨r, n, rfl⟩
  · exact s.root
  · rw [List.concat_eq_append] at h ⊢
    rw [List.dropLast_concat]
    exact s.closed r n h

/-- What is above something is a directory. -/
theorem get_eq_dir_of_isPrefix (h : s.get q ≠ none) (hp : p <+: q) (hne : p ≠ q) : s.get p = some .dir := by
  induction q using List.reverseRecOn with
  | nil => exact absurd (List.prefix_nil.mp hp) hne
  | append_singleton q n ih =>
    have hq := s.closed q n h
    have hpq := (List.prefix_concat_iff.mp hp).resolve_left hne
    by_cases heq : p = q
    · rw [heq]
      exact hq
    · exact ih (by rw [get, hq]; exact Option.some_ne_none _) hpq heq

/-- **There is nothing under what is not there**, nor under a file. -/
theorem get_eq_none_of_isPrefix (h : s.get p ≠ some .dir) (hp : p <+: q) (hne : p ≠ q) : s.get q = none := by
  by_contra hq
  exact h (get_eq_dir_of_isPrefix hq hp hne)

/-! ## Operations -/

/-- Only the root. -/
def empty : FileTree α where
  nodes := Obj.empty.set [] .dir
  root := by rw [Obj.get_set, if_pos rfl]
  closed p n h := by
    rw [Obj.get_set, if_neg (List.append_ne_nil_of_right_ne_nil _ (List.cons_ne_nil _ _))] at h
    exact absurd rfl h

/-- `Path(p).write_text(c)`: the directory has to be there. -/
def write (s : FileTree α) (p : Path) (c : α) : Option (FileTree α) :=
  if h : s.isDir p.dropLast = true ∧ s.isDir p = false then
    some
      { nodes := s.nodes.set p (.file c)
        root := by
          have hne : [] ≠ p := fun he => isDir_eq_false_iff.mp h.2 (he ▸ s.root)
          rw [Obj.get_set, if_neg hne]
          exact s.root
        closed := by
          intro q n hq
          rw [Obj.get_set] at hq ⊢
          have hdir : s.get q = some .dir := by
            split at hq
            · rename_i heq
              have hd := isDir_iff.mp h.1
              rw [← heq, List.dropLast_concat] at hd
              exact hd
            · exact s.closed q n hq
          have hne : q ≠ p := fun heq => isDir_eq_false_iff.mp h.2 (heq ▸ hdir)
          rw [if_neg hne]
          exact hdir }
  else none

/-- `Path(p).mkdir(parents=True, exist_ok=True)`. -/
def makeDirs (s : FileTree α) (p : Path) : Option (FileTree α) :=
  if h : ∀ q ∈ p.inits, s.isFile q = false then
    some
      { nodes := s.nodes.assign (p.inits.map fun q => (q, .dir))
        root := by
          refine Obj.get_assign_of_forall (fun e he _ => ?_) ?_
          · obtain ⟨q, _, rfl⟩ := List.mem_map.mp he
            rfl
          · exact List.mem_map.mpr ⟨([], .dir), List.mem_map.mpr
              ⟨[], (List.mem_inits _ _).mpr List.nil_prefix, rfl⟩, rfl⟩
        closed := by
          have hkeys : ∀ q : Path, q ∈ (p.inits.map fun q => (q, (Node.dir : Node α))).map Prod.fst ↔
              q <+: p := fun q => by
            rw [List.map_map, ← List.mem_inits]
            exact List.mem_map.trans ⟨fun ⟨_, hr, he⟩ => he ▸ hr, fun hq => ⟨q, hq, rfl⟩⟩
          have hdir : ∀ q, q <+: p →
              (s.nodes.assign (p.inits.map fun q => (q, (Node.dir : Node α)))).get q = some .dir :=
            fun q hq => Obj.get_assign_of_forall (fun e he _ => by
              obtain ⟨r, _, rfl⟩ := List.mem_map.mp he
              rfl) ((hkeys q).mpr hq)
          intro q n hq
          by_cases hqp : q <+: p
          · exact hdir q hqp
          · have hnp : ¬ q ++ [n] <+: p := fun hnp => hqp ((List.prefix_append q [n]).trans hnp)
            rw [Obj.get_assign_of_not_mem fun hm => hnp ((hkeys _).mp hm)] at hq
            rw [Obj.get_assign_of_not_mem fun hm => hqp ((hkeys _).mp hm)]
            exact s.closed q n hq }
  else none

/-- `rm -rf p`. -/
def removeAll (s : FileTree α) (p : Path) : FileTree α where
  nodes := s.nodes.filter fun e => decide (p = [] ∨ ¬ p <+: e.1)
  root := by
    rw [Obj.get_filter, s.root]
    refine Option.filter_some_pos (decide_eq_true ?_)
    by_cases hp : p = []
    · exact Or.inl hp
    · exact Or.inr fun h => hp (List.prefix_nil.mp h)
  closed := by
    intro q n hq
    rw [Obj.get_filter] at hq ⊢
    cases hs : s.nodes.get (q ++ [n]) with
    | none =>
      rw [hs] at hq
      exact absurd rfl hq
    | some v =>
      rw [hs, Option.filter_some] at hq
      split at hq
      · rename_i hk
        rw [s.closed q n (by rw [hs]; exact Option.some_ne_none _)]
        refine Option.filter_some_pos (decide_eq_true ?_)
        exact (of_decide_eq_true hk).imp_right fun h hp => h (hp.trans (List.prefix_append q [n]))
      · exact absurd rfl hq

/-- `Path(p).unlink()`. -/
def unlink (s : FileTree α) (p : Path) : Option (FileTree α) :=
  if s.isFile p then some (s.removeAll p) else none

/-- `rm -f p`. -/
def removeFile (s : FileTree α) (p : Path) : FileTree α := if s.isFile p then s.removeAll p else s

/-! ## What they change -/

theorem get_write (h : s.write p c = some s') (q : Path) :
    s'.get q = if q = p then some (.file c) else s.get q := by
  unfold write at h
  split at h
  · obtain rfl := Option.some.inj h
    exact Obj.get_set _ _ _
  · cases h

theorem exists_write (hd : s.get p.dropLast = some .dir) (hp : s.get p ≠ some .dir) :
    ∃ s', s.write p c = some s' := by
  unfold write
  rw [dif_pos ⟨isDir_iff.mpr hd, isDir_eq_false_iff.mpr hp⟩]
  exact ⟨_, rfl⟩

theorem get_of_write (h : s.write p c = some s') : s.get p.dropLast = some .dir ∧ s.get p ≠ some .dir := by
  unfold write at h
  split at h
  · rename_i hc
    exact ⟨isDir_iff.mp hc.1, isDir_eq_false_iff.mp hc.2⟩
  · cases h

theorem get_makeDirs (h : s.makeDirs p = some s') (q : Path) :
    s'.get q = if q <+: p then some .dir else s.get q := by
  unfold makeDirs at h
  split at h
  · obtain rfl := Option.some.inj h
    have hkeys : q ∈ (p.inits.map fun q => (q, (Node.dir : Node α))).map Prod.fst ↔ q <+: p := by
      rw [List.map_map, ← List.mem_inits]
      exact List.mem_map.trans ⟨fun ⟨_, hr, he⟩ => he ▸ hr, fun hq => ⟨q, hq, rfl⟩⟩
    split
    · rename_i hq
      refine Obj.get_assign_of_forall (fun e he _ => ?_) (hkeys.mpr hq)
      obtain ⟨r, _, rfl⟩ := List.mem_map.mp he
      rfl
    · rename_i hq
      exact Obj.get_assign_of_not_mem fun hm => hq (hkeys.mp hm)
  · cases h

theorem makeDirs_eq_none_iff : s.makeDirs p = none ↔ ∃ q, q <+: p ∧ s.isFile q = true := by
  unfold makeDirs
  split
  · rename_i h
    constructor
    · intro hn
      cases hn
    · rintro ⟨q, hq, hf⟩
      rw [h q ((List.mem_inits q p).mpr hq)] at hf
      cases hf
  · rename_i h
    refine ⟨fun _ => ?_, fun _ => rfl⟩
    push Not at h
    obtain ⟨q, hq, hf⟩ := h
    exact ⟨q, (List.mem_inits q p).mp hq, eq_true_of_ne_false hf⟩

theorem get_removeAll (h : p ≠ []) (q : Path) :
    (s.removeAll p).get q = if p <+: q then none else s.get q := by
  unfold removeAll get
  dsimp only
  rw [Obj.get_filter]
  split
  · rename_i hq
    cases s.nodes.get q with
    | none => rfl
    | some v => exact Option.filter_some_neg (by simpa using ⟨h, hq⟩)
  · rename_i hq
    cases s.nodes.get q with
    | none => rfl
    | some v => exact Option.filter_some_pos (decide_eq_true (Or.inr hq))

theorem get_removeFile (q : Path) :
    (s.removeFile p).get q = if q = p ∧ s.isFile p = true then none else s.get q := by
  unfold removeFile
  by_cases hf : s.isFile p = true
  · obtain ⟨c, hc⟩ := isFile_iff.mp hf
    have hne : p ≠ [] := by
      rintro rfl
      rw [get_nil] at hc
      cases hc
    have hnd : s.get p ≠ some .dir := by
      rw [hc]
      intro h
      cases h
    rw [if_pos hf, get_removeAll hne]
    by_cases hq : q = p
    · subst hq
      rw [if_pos List.prefix_rfl, if_pos ⟨rfl, hf⟩]
    · rw [if_neg (c := q = p ∧ _) fun h => hq h.1]
      split
      · rename_i hp
        exact (get_eq_none_of_isPrefix hnd hp (Ne.symm hq)).symm
      · rfl
  · rw [if_neg hf, if_neg fun h => hf h.2]

theorem get_unlink (h : s.unlink p = some s') (q : Path) :
    s'.get q = if q = p then none else s.get q := by
  unfold unlink at h
  split at h
  · rename_i hf
    obtain rfl := Option.some.inj h
    have hr : s.removeAll p = s.removeFile p := by
      unfold removeFile
      rw [if_pos hf]
    rw [hr, get_removeFile]
    simp only [hf, and_true]
  · cases h

end FileTree

/-! ## Copies of a directory -/

/-- A directory with what is in it, as it stood at a path. -/
structure DirCopy (α : Type*) (p : Path) where
  nodes : Obj Path (Node α)
  root : nodes.get p = some .dir
  under : ∀ q, nodes.get q ≠ none → p <+: q
  closed : ∀ q n, q ++ [n] ≠ p → nodes.get (q ++ [n]) ≠ none → nodes.get q = some .dir

namespace FileTree

variable {α : Type*} {s t : FileTree α} {p q : Path}

theorem get_filter_isPrefix (s : FileTree α) (p q : Path) :
    (s.nodes.filter fun e => decide (p <+: e.1)).get q = if p <+: q then s.get q else none := by
  rw [Obj.get_filter]
  unfold get
  cases s.nodes.get q with
  | none => split <;> rfl
  | some v =>
    rw [Option.filter_some]
    simp only [decide_eq_true_eq]

/-- `shutil.copytree`. -/
def copy (s : FileTree α) (p : Path) (h : s.get p = some .dir) : DirCopy α p where
  nodes := s.nodes.filter fun e => decide (p <+: e.1)
  root := by rw [get_filter_isPrefix, if_pos List.prefix_rfl, h]
  under q hq := by
    rw [get_filter_isPrefix] at hq
    by_contra hp
    rw [if_neg hp] at hq
    exact hq rfl
  closed q n hne hq := by
    rw [get_filter_isPrefix] at hq ⊢
    split at hq
    · rename_i hp
      rw [if_pos ((List.prefix_concat_iff.mp hp).resolve_left hne.symm)]
      exact s.closed q n hq
    · exact absurd rfl hq

/-- `cp -a`, of a copy to the path it was made of. -/
def paste (s : FileTree α) (copy : DirCopy α p) : FileTree α :=
  if h : (s.get p).isNone = true ∧ s.isDir p.dropLast = true then
    { nodes := s.nodes.assign copy.nodes.entries
      root := by
        have hp : s.get p = none := Option.isNone_iff_eq_none.mp h.1
        rw [Obj.get_assign_entries]
        cases hc : copy.nodes.get [] with
        | none => exact s.root
        | some v =>
          have hpnil := List.prefix_nil.mp (copy.under [] (by rw [hc]; exact Option.some_ne_none _))
          rw [hpnil, get_nil] at hp
          cases hp
      closed := by
        intro q n hq
        have hnp : s.get p = none := Option.isNone_iff_eq_none.mp h.1
        rw [Obj.get_assign_entries] at hq ⊢
        cases hc : copy.nodes.get (q ++ [n]) with
        | none =>
          rw [hc, Option.none_or] at hq
          have hdir := s.closed q n hq
          have hnone : copy.nodes.get q = none := by
            by_contra hcq
            have hpq := copy.under q hcq
            have hp := get_eq_dir_of_isPrefix (s := s) hq (hpq.trans (List.prefix_append q [n]))
              (fun heq => by
                have hl := hpq.length_le
                rw [heq, List.length_append, List.length_singleton] at hl
                omega)
            rw [hnp] at hp
            cases hp
          rw [hnone, Option.none_or]
          exact hdir
        | some v =>
          by_cases hp : q ++ [n] = p
          · have hd := isDir_iff.mp h.2
            rw [← hp, List.dropLast_concat] at hd
            have hnone : copy.nodes.get q = none := by
              by_contra hcq
              have hl := (copy.under q hcq).length_le
              rw [← hp, List.length_append, List.length_singleton] at hl
              omega
            rw [hnone, Option.none_or]
            exact hd
          · rw [copy.closed q n hp (by rw [hc]; exact Option.some_ne_none _), Option.some_or] }
  else s

/-- `rm -rf p && cp -a copy p`. -/
def putBack (s : FileTree α) (copy : DirCopy α p) : FileTree α := (s.removeAll p).paste copy

/-- **A copy that is put back** gives what was copied, and the rest stays. -/
theorem get_putBack (h : s.get p = some .dir) (hne : p ≠ []) (ht : t.get p.dropLast = some .dir)
    (q : Path) : (t.putBack (s.copy p h)).get q = if p <+: q then s.get q else t.get q := by
  have hr : ((t.removeAll p).get p).isNone = true ∧ (t.removeAll p).isDir p.dropLast = true := by
    rw [isDir_iff, get_removeAll hne, get_removeAll hne, if_pos List.prefix_rfl,
      if_neg (not_prefix_dropLast hne)]
    exact ⟨rfl, ht⟩
  have hget : (t.putBack (s.copy p h)).get q =
      ((s.nodes.filter fun e => decide (p <+: e.1)).get q).or ((t.removeAll p).get q) := by
    unfold putBack paste
    rw [dif_pos hr]
    exact Obj.get_assign_entries _ _ _
  rw [hget, get_filter_isPrefix, get_removeAll hne]
  split
  · exact Option.or_none
  · exact Option.none_or

end FileTree

end LabInABox
