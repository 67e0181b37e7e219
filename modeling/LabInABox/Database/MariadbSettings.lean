import LabInABox.OptionFiles
import LabInABox.Text.Words

/-!
# Port and bind address of MariaDB

Model of the option files that `_mariadb_configure_os` (`libs/db_common.py`) edits, over the runs of
`setup_mariadb_os` on one host.

* The files are those of `/etc/my.cnf.d` and then those of `/etc/mysql/mariadb.conf.d`, in name order, each its
  lines. A line matches when it begins with `[mysqld]`, as for `grep` and `sed`.
* A port is digits, as `digits_only` demands. An address is a word without what the shell reads inside double
  quotes.
* How MariaDB reads a line is a parameter, with what is documented of the lines the run writes. `documented` is
  one such reader.

Results:
* `effective_configure`: what counts after a run.
* `configure_idem_iff`: a second run changes nothing only where the first one does not.
* `takesEffect_settles_iff`: exactly which sequences of runs take effect: those that ask for what the first of
  them, or a setting behind the last header, has fixed; and exactly which ones settle.
-/

namespace LabInABox.Database.MariadbSettings

open Text OptionFiles

/-! ## Runs -/

/-- The two settings. -/
inductive Key
  | bindAddress
  | port
  deriving DecidableEq

/-- The name of a setting. -/
def Key.name : Key → Text
  | bindAddress => "bind-address".toList
  | port => "port".toList

/-- What a shell reads as itself between double quotes, and no blank. -/
def isWordChar (c : Char) : Bool := !isSpace c && !decide (c ∈ ['"', '$', '\\', '\x60'])

/-- What a run asks for. -/
structure Values where
  bind : Text
  port : Text
  nonempty : bind ≠ [] ∧ port ≠ []
  word : bind.all isWordChar = true
  digits : port.all Char.isDigit = true

/-- The value of a setting. -/
def Values.get (v : Values) : Key → Text
  | .bindAddress => v.bind
  | .port => v.port

/-- The line of a setting. -/
def settingLine (key : Key) (value : Text) : Text := key.name ++ " = ".toList ++ value

/-- The lines of `sed -i "/^\[mysqld\]/a bind-address = ..\nport = .."`. -/
def Values.lines (v : Values) : List Text := [settingLine .bindAddress v.bind, settingLine .port v.port]

/-- The name of the group. -/
def mysqld : Text := "mysqld".toList

/-- `grep -q '^\[mysqld\]'` of a line. -/
def isHeader (l : Text) : Bool := "[mysqld]".toList.isPrefixOf l

/-- The loop of `_mariadb_configure_os` over the files: the first one with a header is edited. -/
def configure (v : Values) : List (List Text) → List (List Text)
  | [] => []
  | f :: fs => if f.any isHeader then insertAfter isHeader v.lines f :: fs else f :: configure v fs

/-- How MariaDB reads option files: a line of `grep` opens the group, and the written lines are settings. -/
structure MariadbReader extends Reader where
  header : ∀ l, isHeader l = true → group l = some mysqld
  written : ∀ key (v : Values), group (settingLine key (v.get key)) = none ∧
    setting (settingLine key (v.get key)) = some (key.name, v.get key)

section Runs

variable (r : MariadbReader)

/-- The values count. -/
def Effective (files : List (List Text)) (v : Values) : Prop :=
  ∀ key : Key, effective r.toReader mysqld files key.name = some (v.get key)

/-- After each run of a sequence, its values count. -/
def TakesEffect : List (List Text) → List Values → Prop
  | _, [] => True
  | files, v :: vs => Effective r (configure v files) v ∧ TakesEffect (configure v files) vs

/-- After each run of a sequence, the same run again changes nothing. -/
def Settles : List (List Text) → List Values → Prop
  | _, [] => True
  | files, v :: vs => configure v (configure v files) = configure v files ∧ Settles (configure v files) vs

/-- The settings behind the header that is edited last, in its file and in the later ones. -/
def behind : List (List Text) → Option (List (Text × Text))
  | [] => none
  | f :: fs =>
    match afterLast isHeader f with
    | some post => some (settings r.toReader mysqld true post ++ fs.flatMap (settings r.toReader mysqld false))
    | none => behind fs

/-- What counts after a run, whatever it is that the run writes over. -/
def fixed (files : List (List Text)) (v : Values) (key : Key) : Option Text :=
  match behind r files with
  | some ss => (dictGet ss key.name).or (some (v.get key))
  | none => effective r.toReader mysqld files key.name

end Runs

/-! ## A run -/

section Facts

variable {r : MariadbReader} {files : List (List Text)}

theorem any_isHeader_iff {f : List Text} : f.any isHeader = true ↔ afterLast isHeader f ≠ none := by
  rw [Ne, afterLast_eq_none_iff, List.any_eq_true]
  simp

theorem isHeader_lines (v : Values) : ∀ l ∈ v.lines, isHeader l = false := by
  intro l hl
  simp only [Values.lines, List.mem_cons, List.not_mem_nil, or_false] at hl
  rcases hl with rfl | rfl <;> rfl

/-- The settings of a run. -/
def Values.settings (v : Values) : List (Text × Text) :=
  [(Key.bindAddress.name, v.bind), (Key.port.name, v.port)]

theorem settings_lines (v : Values) (post : List Text) : OptionFiles.settings r.toReader mysqld true (v.lines ++ post) =
    v.settings ++ OptionFiles.settings r.toReader mysqld true post := by
  have hbind : r.group (settingLine .bindAddress v.bind) = none ∧
    r.setting (settingLine .bindAddress v.bind) = some (Key.bindAddress.name, v.bind) := r.written .bindAddress v
  have hport : r.group (settingLine .port v.port) = none ∧
    r.setting (settingLine .port v.port) = some (Key.port.name, v.port) := r.written .port v
  rw [Values.lines, List.cons_append, settings_cons hbind.1 hbind.2, List.cons_append,
    settings_cons hport.1 hport.2]
  rfl

theorem dictGet_settings (v : Values) (key : Key) : dictGet v.settings key.name = some (v.get key) := by
  cases key <;> rfl

/-- A run puts its settings in front of what stands behind the header. -/
theorem behind_configure (v : Values) : behind r (configure v files) = (behind r files).map (v.settings ++ ·) := by
  induction files with
  | nil => rfl
  | cons f fs ih =>
    rw [configure, behind]
    cases hf : afterLast isHeader f with
    | some post =>
      rw [if_pos (any_isHeader_iff.mpr (by rw [hf]; simp)), behind, afterLast_insertAfter (isHeader_lines v) hf]
      dsimp only
      rw [settings_lines, Option.map_some, List.append_assoc]
    | none =>
      rw [if_neg (by rw [any_isHeader_iff, hf]; simp), behind, hf]
      exact ih

/-- Without a header, a run changes nothing. -/
theorem configure_of_none (v : Values) (h : behind r files = none) : configure v files = files := by
  induction files with
  | nil => rfl
  | cons f fs ih =>
    rw [behind] at h
    cases hf : afterLast isHeader f with
    | some post =>
      rw [hf] at h
      cases h
    | none =>
      rw [hf] at h
      rw [configure, if_neg (by rw [any_isHeader_iff, hf]; simp), ih h]

/-- **What counts after a run.** -/
theorem effective_configure (v : Values) (key : Key) :
    effective r.toReader mysqld (configure v files) key.name = fixed r files v key := by
  unfold fixed
  cases hb : behind r files with
  | none => rw [configure_of_none v hb]
  | some ss =>
    dsimp only
    induction files with
    | nil => cases hb
    | cons f fs ih =>
      rw [behind] at hb
      rw [configure]
      cases hf : afterLast isHeader f with
      | some post =>
        rw [hf] at hb
        obtain ⟨before, hbefore⟩ := settings_insertAfter v.lines r.header hf
        rw [if_pos (any_isHeader_iff.mpr (by rw [hf]; simp)), effective, List.flatMap_cons, hbefore, settings_lines,
          List.append_assoc, List.append_assoc, Option.some.inj hb, dictGet_append, dictGet_append, dictGet_settings]
        cases dictGet ss key.name <;> rfl
      | none =>
        rw [hf] at hb
        rw [if_neg (by rw [any_isHeader_iff, hf]; simp), effective, List.flatMap_cons, dictGet_append]
        have hrest := ih hb
        rw [effective] at hrest
        rw [hrest]
        cases dictGet ss key.name <;> rfl

/-- What counts is fixed: the next run, whatever it asks for, leaves it. -/
theorem fixed_configure (v w : Values) (key : Key) : fixed r (configure v files) w key = fixed r files v key := by
  unfold fixed
  rw [behind_configure]
  cases hb : behind r files with
  | none =>
    rw [configure_of_none v hb]
    rfl
  | some ss =>
    dsimp only [Option.map_some]
    rw [dictGet_append, dictGet_settings]
    cases dictGet ss key.name <;> rfl

/-! ## The same run again -/

/-- No line is a header. -/
def NoHeader (files : List (List Text)) : Prop := ∀ f ∈ files, f.any isHeader = false

theorem configure_of_noHeader (v : Values) (h : NoHeader files) : configure v files = files := by
  induction files with
  | nil => rfl
  | cons f fs ih =>
    rw [configure, if_neg (by rw [h f List.mem_cons_self]; simp), ih fun g hg => h g (List.mem_cons_of_mem f hg)]

/-- With a header, a run adds lines and leaves a header. -/
theorem configure_of_header (v : Values) (h : ¬ NoHeader files) :
    files.flatten.length < (configure v files).flatten.length ∧ ¬ NoHeader (configure v files) := by
  induction files with
  | nil => exact absurd (fun f hf => by cases hf) h
  | cons f fs ih =>
    rw [configure]
    by_cases hf : f.any isHeader = true
    · obtain ⟨post, hpost⟩ := Option.ne_none_iff_exists'.mp (any_isHeader_iff.mp hf)
      have hlen := length_insertAfter v.lines (by simp [Values.lines]) hpost
      have hafter := afterLast_insertAfter (isHeader_lines v) hpost
      rw [if_pos hf]
      refine ⟨by simpa using hlen, fun hnone => ?_⟩
      have hmem := hnone _ List.mem_cons_self
      rw [any_isHeader_iff.mpr (by rw [hafter]; simp)] at hmem
      cases hmem
    · have hfs : ¬ NoHeader fs := fun hfs => h fun g hg => by
        rcases List.mem_cons.mp hg with rfl | hg
        · simpa using hf
        · exact hfs g hg
      obtain ⟨hlen, hheader⟩ := ih hfs
      rw [if_neg hf]
      exact ⟨by simpa using hlen, fun hnone => hheader fun g hg => hnone g (List.mem_cons_of_mem f hg)⟩

/-- **A second run changes nothing** only where there is no header. -/
theorem configure_idem_iff (v : Values) :
    configure v (configure v files) = configure v files ↔ NoHeader files := by
  constructor
  · intro h
    by_contra hheader
    obtain ⟨-, hheader'⟩ := configure_of_header v hheader
    obtain ⟨hlen, -⟩ := configure_of_header v hheader'
    rw [h] at hlen
    exact Nat.lt_irrefl _ hlen
  · intro h
    rw [configure_of_noHeader v h, configure_of_noHeader v h]

/-! ## Sequences of runs -/

/-- **Exactly which sequences of runs take effect, and which settle.** -/
theorem takesEffect_settles_iff (r : MariadbReader) (files : List (List Text)) (v : Values) (vs : List Values) :
    (TakesEffect r files (v :: vs) ↔ ∀ w ∈ v :: vs, ∀ key, fixed r files v key = some (w.get key)) ∧
      (Settles files (v :: vs) ↔ NoHeader files) := by
  have heffective : ∀ (files : List (List Text)) (v : Values), Effective r (configure v files) v ↔
      ∀ key, fixed r files v key = some (v.get key) := fun files v => by
    simp only [Effective, effective_configure]
  constructor
  · induction vs generalizing files v with
    | nil => simp [TakesEffect, heffective]
    | cons w vs ih =>
      rw [TakesEffect, heffective, ih]
      simp only [fixed_configure, List.forall_mem_cons]
  · induction vs generalizing files v with
    | nil => simp [Settles, configure_idem_iff]
    | cons w vs ih =>
      rw [Settles, configure_idem_iff, ih]
      refine ⟨And.left, fun h => ⟨h, ?_⟩⟩
      rwa [configure_of_noHeader v h]

end Facts

/-! ## A reader -/

/-- The group a line opens: what stands between brackets, without blanks at its end. -/
def groupOf (l : Text) : Option Text :=
  match l.dropWhile isSpace with
  | '[' :: t => if ']' ∈ t then some ((t.takeWhile fun c => c ≠ ']').rdropWhile isSpace) else none
  | _ => none

/-- The setting of a line: a comment has none, and `_` in a name is `-`. -/
def settingOf (l : Text) : Option (Text × Text) :=
  let t := strip l
  if t.head? = none ∨ t.head? = some '#' ∨ t.head? = some ';' then none
  else some ((strip (t.takeWhile fun c => c ≠ '=')).map (fun c => if c = '_' then '-' else c),
    strip (t.dropWhile fun c => c ≠ '=').tail)

theorem groupOf_header (l : Text) (h : isHeader l = true) : groupOf l = some mysqld := by
  obtain ⟨rest, rfl⟩ := List.isPrefixOf_iff_prefix.mp h
  have hmem : ']' ∈ "mysqld]".toList ++ rest := by simp
  have hgroup : groupOf ("[mysqld]".toList ++ rest) = if ']' ∈ "mysqld]".toList ++ rest then some mysqld else none :=
    rfl
  rw [hgroup, if_pos hmem]

theorem written_settingLine (key : Key) (v : Values) : groupOf (settingLine key (v.get key)) = none ∧
    settingOf (settingLine key (v.get key)) = some (key.name, v.get key) := by
  have hne : v.get key ≠ [] := by
    cases key with
    | bindAddress => exact v.nonempty.1
    | port => exact v.nonempty.2
  have hspace : ∀ c ∈ v.get key, isSpace c = false := by
    intro c hc
    cases key with
    | bindAddress =>
      have hword := List.all_eq_true.mp v.word c hc
      simp only [isWordChar, Bool.and_eq_true, Bool.not_eq_true'] at hword
      exact hword.1
    | port => exact isSpace_of_isAlphanum (by simp [Char.isAlphanum, List.all_eq_true.mp v.digits c hc])
  generalize v.get key = value at hne hspace
  have hvalue : strip value = value :=
    strip_eq_self (fun c hc => hspace c (List.mem_of_mem_head? hc)) fun c hc => hspace c (List.mem_of_mem_getLast? hc)
  have hline : strip (settingLine key value) = settingLine key value := by
    refine strip_eq_self (fun c hc => ?_) fun c hc => ?_
    · cases key <;> obtain rfl := Option.some.inj hc <;> rfl
    · rw [settingLine, List.getLast?_append_of_ne_nil _ hne] at hc
      exact hspace c (List.mem_of_mem_getLast? hc)
  have hread : settingOf (settingLine key value) = some (key.name, strip (' ' :: value)) := by
    unfold settingOf
    rw [hline]
    cases key <;> rfl
  rw [hread, strip_cons_blank rfl, hvalue]
  exact ⟨by cases key <;> rfl, rfl⟩

/-- The reader as it is documented. -/
def documented : MariadbReader := ⟨⟨groupOf, settingOf⟩, groupOf_header, written_settingLine⟩

/-- The values of a configuration that names none. -/
def defaults : Values where
  bind := "127.0.0.1".toList
  port := "3306".toList
  nonempty := by decide
  word := by decide
  digits := by decide

/-- A port that the distribution sets behind the header stays. -/
theorem distribution_port_stays :
    ¬ (TakesEffect documented [["[mysqld]".toList, "port = 3307".toList]] [defaults] ∧
      Settles [["[mysqld]".toList, "port = 3307".toList]] [defaults]) := by
  rintro ⟨⟨heffective, -⟩, -⟩
  have hport : effective documented.toReader mysqld
      (configure defaults [["[mysqld]".toList, "port = 3307".toList]]) Key.port.name = some "3307".toList := by
    decide
  have := hport.symm.trans (heffective .port)
  revert this
  decide

end LabInABox.Database.MariadbSettings
