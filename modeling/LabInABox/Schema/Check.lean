import LabInABox.Schema.Order
import LabInABox.Schema.Snapshot

/-!
# The release check

Model of `check` (`libs/schema_versions.py`): the problems of a compatibility record, given the current
snapshots of the schemas and the registered migration steps.

* The stored snapshots are a parameter, `readSnapshot`, and so are the directory they are in and the
  `repr` of a text.
* `check` may end with the `TypeError` of `breaking_changes`; the `ValueError` of a version that is not
  MAJOR.MINOR is a problem of its schema.

Results:
* `entryProblems_nil`: what an entry without a problem is, given the version before it.
* `History.ascends`, `History.step_iff`: by induction over the entries, what a history without a problem
  is.
* `check_guarantees`: what a record without a problem promises the migrator.
-/

namespace LabInABox.Schema

open Text

section Check

variable (repr : Text → Text) (snapshotDir : Text) (readSnapshot : Text → Text → Option Snapshot)
  (steps : List Text)

/-! ## The problems -/

/-- A problem, if there is one. -/
def reportWhen (c : Prop) [Decidable c] (problem : Text) : List Text := if c then [problem] else []

/-- `snapshot_path(name, version)`. -/
def snapshotPath (name version : Text) : Text :=
  let base := name.rtakeWhile (· ≠ ':')
  let kind := (name.rdropWhile (· ≠ ':')).dropLast
  snapshotDir ++ '/' :: (if kind = [] then base else kind) ++ '/' :: base ++ '-' :: version ++
    ".json".toList

/-- `_entry_problems(name, entry, prev, prev_snap, migrations)`. -/
def entryProblems (name : Text) (entry : RecordEntry) (prev : Option (Int × Int))
    (prevSnap : Option Snapshot) : Except CheckError (List Text) :=
  match parseVersion entry.version with
  | none => .error (.value ("schema version ".toList ++ repr entry.version ++
      " is not MAJOR.MINOR".toList))
  | some parsed =>
    let problem := fun text : Text => name ++ ' ' :: entry.version ++ ": ".toList ++ text
    let stored := readSnapshot name entry.version
    let majorBump := prev.any fun p => p.1 < parsed.1
    let out :=
      reportWhen (stored.isNone = true)
        (problem ("no snapshot at ".toList ++ snapshotPath snapshotDir name entry.version)) ++
      reportWhen (entry.changes = []) (problem "entry has no changes text".toList) ++
      reportWhen (majorBump = false ∧ ∃ p ∈ prev, parsed ≠ (p.1, p.2 + 1))
        (problem "a compatible version raises MINOR by one".toList) ++
      reportWhen (majorBump = true ∧ ∃ p ∈ prev, parsed ≠ (p.1 + 1, 0))
        (problem "a breaking version is MAJOR+1.0".toList) ++
      reportWhen (entry.breaking ≠ majorBump) (problem ("\"breaking\" must be ".toList ++
        (if majorBump then "true".toList else "false".toList) ++ " for this version number".toList)) ++
      reportWhen (majorBump = true ∧ entry.step = none)
        (problem "a breaking version needs a migration step in libs/migrations.py".toList) ++
      reportWhen (∃ step ∈ entry.step, step ∉ steps) (problem ("migration ".toList ++
        entry.step.getD [] ++ " is not in libs/migrations.py MIGRATIONS".toList)) ++
      reportWhen (entry.step.isSome = true ∧ majorBump = false)
        (problem "only a breaking version has a migration".toList)
    match stored, prevSnap, majorBump with
    | some snap, some before, false => (breakingChanges before snap).map fun breaks =>
        out ++ breaks.map fun c => problem ("breaking change in a compatible version: ".toList ++ c)
    | _, _, _ => .ok out

/-- The loop of `_schema_problems`: the problems, and the last entry's snapshot if every entry was
looked at. -/
def entriesProblems (name : Text) : Option (Int × Int) → Option Snapshot → List RecordEntry →
    Except CheckError (List Text × Option (Option Snapshot))
  | _, prevSnap, [] => .ok ([], some prevSnap)
  | prev, prevSnap, entry :: entries =>
    match entryProblems repr snapshotDir readSnapshot steps name entry prev prevSnap with
    | .error (.value message) => .ok ([name ++ ": ".toList ++ message], none)
    | .error .type => .error .type
    | .ok out =>
      (entriesProblems name (parseVersion entry.version) (readSnapshot name entry.version) entries).map
        fun rest => (out ++ rest.1, rest.2)

/-- The problem of a declared version that is not the last recorded one, or of fields that changed. -/
def lastProblems (name : Text) (snap : Snapshot) (last : Text) (prevSnap : Option Snapshot) :
    Except CheckError (List Text) :=
  if last ≠ snap.version then
    .ok [name ++ ": declares version ".toList ++ snap.version ++
      " but the last recorded version is ".toList ++ last]
  else
    match prevSnap with
    | none => .ok []
    | some before =>
      if before.fields.Perm snap.fields then .ok []
      else do
        let breaks ← breakingChanges before snap
        let others ← otherChanges repr before snap
        let changes := "; ".toList.intercalate ((breaks ++ others).take 5)
        return [name ++ ": schema changed since version ".toList ++ last ++ " was recorded (".toList ++
          (if changes = [] then "field properties changed".toList else changes) ++
          "); record a new version".toList]

/-- `_schema_problems(name, snap, entries, migrations)`. -/
def schemaProblems (name : Text) (snap : Snapshot) (entries : List RecordEntry) :
    Except CheckError (List Text) :=
  if snap.version = [] then .ok [name ++ ": declares no schema version".toList]
  else
    match entries.getLast? with
    | none => .ok [name ++ ": version ".toList ++ snap.version ++
        " is not in schemas/compatibility.json".toList]
    | some last => do
      let (out, looked) ← entriesProblems repr snapshotDir readSnapshot steps name none none entries
      match looked with
      | none => return out
      | some prevSnap =>
        let more ← lastProblems repr name snap last.version prevSnap
        return out ++ more

/-- `check(current, record, migrations)`. -/
def check (current : List (Text × Snapshot)) (record : Record) : Except CheckError (List Text) :=
  let gone := sorted ((record.schemas.map Prod.fst).filter fun n => n ∉ current.map Prod.fst)
  let named := record.schemas.flatMap fun p => p.2.map RecordEntry.migration
  let unnamed := sorted (steps.eraseDups.filter fun step => some step ∉ named)
  ((current.insertionSort fun a b => a.1 ≤ b.1).mapM fun p =>
      schemaProblems repr snapshotDir readSnapshot steps p.1 p.2 (record.entries p.1)).map fun rows =>
    (gone.map fun n => n ++ ": in schemas/compatibility.json but no such schema exists".toList) ++
      rows.flatten ++ unnamed.map fun step => "migration ".toList ++ step ++
        " in libs/migrations.py is not named by any version".toList

end Check

/-! ## An entry without a problem -/

section Sound

variable {repr : Text → Text} {snapshotDir : Text} {readSnapshot : Text → Text → Option Snapshot}
  {steps : List Text} {name : Text} {entry : RecordEntry} {entries : List RecordEntry}
  {prev : Option (Int × Int)} {prevSnap : Option Snapshot}

theorem reportWhen_eq_nil_iff {c : Prop} [Decidable c] {problem : Text} :
    reportWhen c problem = [] ↔ ¬ c := by
  unfold reportWhen
  by_cases hc : c
  · rw [if_pos hc]
    exact ⟨fun h => absurd h (List.cons_ne_nil _ _), fun h => absurd hc h⟩
  · rw [if_neg hc]
    exact ⟨fun _ => hc, fun _ => rfl⟩

/-- The entry raises MAJOR. -/
def Raises (prev : Option (Int × Int)) (v : Int × Int) : Prop := ∃ p ∈ prev, p.1 < v.1

/-- What an entry without a problem is, given the version before it. -/
structure EntryFits (steps : List Text) (prev : Option (Int × Int)) (entry : RecordEntry)
    (v : Int × Int) : Prop where
  parses : parseVersion entry.version = some v
  next : ∀ p ∈ prev, v = (p.1, p.2 + 1) ∨ v = (p.1 + 1, 0)
  step_iff : (∃ step, entry.step = some step) ↔ Raises prev v
  registered : ∀ step, entry.step = some step → step ∈ steps

/-- **An entry without a problem.** -/
theorem entryProblems_nil (h : entryProblems repr snapshotDir readSnapshot steps name entry prev
    prevSnap = .ok []) : ∃ v, EntryFits steps prev entry v := by
  unfold entryProblems at h
  cases hv : parseVersion entry.version with
  | none =>
    rw [hv] at h
    exact absurd h nofun
  | some v =>
    rw [hv] at h
    dsimp only at h
    have hout : ∀ {out : List Text} {stored : Option Snapshot} {bump : Bool} {text : Text → Text},
        (match stored, prevSnap, bump with
          | some snap, some before, false => (breakingChanges before snap).map fun breaks =>
              out ++ breaks.map text
          | _, _, _ => .ok out) = Except.ok [] → out = [] := by
      intro out stored bump text h
      split at h
      · obtain ⟨_, _, h⟩ := map_eq_ok.mp h
        exact (List.append_eq_nil_iff.mp h).1
      · exact Except.ok.inj h
    have hnil := hout h
    simp only [List.append_eq_nil_iff, reportWhen_eq_nil_iff, and_assoc] at hnil
    obtain ⟨-, -, hminor, hmajor, -, hneeds, hreg, honly⟩ := hnil
    have hbump : (prev.any fun p => p.1 < v.1) = true ↔ Raises prev v := by
      unfold Raises
      cases prev <;> simp
    refine ⟨v, hv, fun p hp => ?_, ⟨fun ⟨step, hs⟩ => ?_, fun hr => ?_⟩, fun step hs => ?_⟩
    · by_cases hr : Raises prev v
      · refine Or.inr ?_
        by_contra hne
        exact hmajor ⟨hbump.mpr hr, p, hp, hne⟩
      · refine Or.inl ?_
        by_contra hne
        exact hminor ⟨Bool.eq_false_iff.mpr (mt hbump.mp hr), p, hp, hne⟩
    · by_contra hr
      exact honly ⟨by rw [hs]; rfl, Bool.eq_false_iff.mpr (mt hbump.mp hr)⟩
    · exact Option.ne_none_iff_exists'.mp fun hn => hneeds ⟨hbump.mpr hr, hn⟩
    · by_contra hn
      exact hreg ⟨step, hs, hn⟩

/-- A history without a problem: each entry fits the one before it. -/
def History (steps : List Text) : Option (Int × Int) → List RecordEntry → Prop
  | _, [] => True
  | prev, entry :: entries => ∃ v, EntryFits steps prev entry v ∧ History steps (some v) entries

theorem entriesProblems_nil {looked : Option (Option Snapshot)}
    (h : entriesProblems repr snapshotDir readSnapshot steps name prev prevSnap entries =
      .ok ([], looked)) : History steps prev entries ∧ looked.isSome = true := by
  induction entries generalizing prev prevSnap with
  | nil =>
    obtain rfl : _ = looked := congrArg Prod.snd (Except.ok.inj h)
    exact ⟨trivial, rfl⟩
  | cons entry entries ih =>
    unfold entriesProblems at h
    cases he : entryProblems repr snapshotDir readSnapshot steps name entry prev prevSnap with
    | error e =>
      rw [he] at h
      cases e with
      | value message =>
        exact absurd (congrArg Prod.fst (Except.ok.inj h)) (List.cons_ne_nil _ _)
      | type => exact absurd h nofun
    | ok out =>
      rw [he] at h
      obtain ⟨⟨rest, looked'⟩, hrest, hr⟩ := map_eq_ok.mp h
      obtain ⟨hout, rfl⟩ := Prod.mk.inj hr
      obtain ⟨rfl, hnil⟩ := List.append_eq_nil_iff.mp hout
      obtain rfl : rest = [] := hnil
      obtain ⟨v, hv⟩ := entryProblems_nil he
      rw [hv.parses] at hrest
      exact ⟨⟨v, hv, (ih hrest).1⟩, (ih hrest).2⟩

/-! ## A history without a problem -/

theorem EntryFits.lt {p v : Int × Int} (h : EntryFits steps (some p) entry v) :
    [p.1, p.2] < [v.1, v.2] := by
  rw [pair_lt_iff]
  obtain rfl | rfl := h.next p rfl
  · exact Or.inr ⟨rfl, by omega⟩
  · exact Or.inl (by omega)

theorem History.after {p : Int × Int} (h : History steps (some p) entries) :
    ∀ e ∈ entries, ∃ v, parseVersion e.version = some v ∧ [p.1, p.2] < [v.1, v.2] := by
  induction entries generalizing p with
  | nil => exact fun _ he => absurd he List.not_mem_nil
  | cons entry entries ih =>
    obtain ⟨v, hv, hrest⟩ := h
    intro e he
    rcases List.mem_cons.mp he with rfl | he
    · exact ⟨v, hv.parses, hv.lt⟩
    · obtain ⟨w, hw, hlt⟩ := ih hrest e he
      exact ⟨w, hw, lt_trans hv.lt hlt⟩

/-- **The versions of a history ascend.** -/
theorem History.ascends (h : History steps prev entries) : Ascends entries := by
  induction entries generalizing prev with
  | nil => exact ⟨fun _ he => absurd he List.not_mem_nil, List.Pairwise.nil⟩
  | cons entry entries ih =>
    obtain ⟨v, hv, hrest⟩ := h
    have hkey := parseVersion_eq_some hv.parses
    refine ⟨List.forall_mem_cons.mpr ⟨⟨_, hkey⟩, (ih hrest).parses⟩,
      List.pairwise_cons.mpr ⟨fun e he => ?_, (ih hrest).ascends⟩⟩
    obtain ⟨w, hw, hlt⟩ := hrest.after e he
    exact ⟨_, _, hkey, parseVersion_eq_some hw, hlt⟩

/-- The version before an entry of a list. -/
def versionBefore (prev : Option (Int × Int)) (before : List RecordEntry) : Option (Int × Int) :=
  match before.getLast? with
  | none => prev
  | some e => parseVersion e.version

/-- **The steps of a history**: the entries that raise MAJOR have one, and it is registered. -/
theorem History.step_iff (h : History steps prev entries) :
    ∀ before e after, entries = before ++ e :: after →
      ∃ v, EntryFits steps (versionBefore prev before) e v := by
  induction entries generalizing prev with
  | nil => exact fun before e after he => absurd he.symm (by simp)
  | cons entry entries ih =>
    obtain ⟨v, hv, hrest⟩ := h
    intro before e after he
    cases before with
    | nil =>
      rw [List.nil_append, List.cons.injEq] at he
      exact ⟨v, he.1 ▸ hv⟩
    | cons b before =>
      rw [List.cons_append, List.cons.injEq] at he
      obtain ⟨rfl, he⟩ := he
      obtain ⟨w, hw⟩ := ih hrest before e after he
      refine ⟨w, ?_⟩
      have hprev : versionBefore (some v) before = versionBefore prev (entry :: before) := by
        unfold versionBefore
        rw [List.getLast?_cons]
        cases before.getLast? with
        | none => exact hv.parses.symm
        | some b => rfl
      rwa [← hprev]

/-! ## A record without a problem -/

variable {current : List (Text × Snapshot)} {record : Record}

theorem schemaProblems_nil {snap : Snapshot} (h : schemaProblems repr snapshotDir readSnapshot steps
    name snap entries = .ok []) : History steps none entries ∧
      ∃ last, entries.getLast? = some last ∧ last.version = snap.version := by
  unfold schemaProblems at h
  split at h
  · exact absurd (Except.ok.inj h) (List.cons_ne_nil _ _)
  · cases hl : entries.getLast? with
    | none =>
      rw [hl] at h
      exact absurd (Except.ok.inj h) (List.cons_ne_nil _ _)
    | some last =>
      rw [hl] at h
      obtain ⟨⟨out, looked⟩, he, h⟩ := bind_eq_ok.mp h
      cases looked with
      | none =>
        -- an entry that ends the loop is itself a problem
        obtain rfl := Except.ok.inj h
        exact absurd (entriesProblems_nil he).2 nofun
      | some prevSnap =>
        obtain ⟨more, hmore, h⟩ := bind_eq_ok.mp h
        obtain ⟨rfl, rfl⟩ := List.append_eq_nil_iff.mp (Except.ok.inj h)
        refine ⟨(entriesProblems_nil he).1, last, rfl, ?_⟩
        by_contra hne
        unfold lastProblems at hmore
        rw [if_pos hne] at hmore
        exact absurd (Except.ok.inj hmore) (List.cons_ne_nil _ _)

theorem check_nil (h : check repr snapshotDir readSnapshot steps current record = .ok []) :
    (∀ p ∈ current, schemaProblems repr snapshotDir readSnapshot steps p.1 p.2
      (record.entries p.1) = .ok []) ∧ ∀ p ∈ record.schemas, ∃ snap, (p.1, snap) ∈ current := by
  obtain ⟨rows, hm, hout⟩ := map_eq_ok.mp h
  obtain ⟨hfst, -⟩ := List.append_eq_nil_iff.mp hout
  obtain ⟨hgone, hrows⟩ := List.append_eq_nil_iff.mp hfst
  constructor
  · intro p hp
    have hps := (List.mem_insertionSort fun a b : Text × Snapshot => a.1 ≤ b.1).mpr hp
    obtain ⟨row, hrow⟩ := mapM_isOk_iff.mp ⟨rows, hm⟩ p hps
    have hnil := List.flatten_eq_nil_iff.mp hrows row ((mem_of_mapM_eq_ok hm).mpr ⟨p, hps, hrow⟩)
    rwa [hnil] at hrow
  · intro p hp
    by_contra hno
    refine absurd (List.map_eq_nil_iff.mp hgone) (List.ne_nil_of_mem (a := p.1) ?_)
    rw [mem_sorted, List.mem_filter]
    refine ⟨List.mem_map_of_mem hp, decide_eq_true fun hc => ?_⟩
    obtain ⟨⟨n, snap⟩, hq, rfl⟩ := List.mem_map.mp hc
    exact hno ⟨snap, hq⟩

/-- The entries of every schema of a record without a problem are a history. -/
theorem check_history (h : check repr snapshotDir readSnapshot steps current record = .ok []) :
    ∀ p ∈ record.schemas, History steps none p.2 ∧ ∃ snap last, (p.1, snap) ∈ current ∧
      p.2.getLast? = some last ∧ last.version = snap.version := by
  intro p hp
  obtain ⟨hsch, hcur⟩ := check_nil h
  obtain ⟨snap, hs⟩ := hcur p hp
  have he : record.entries p.1 = p.2 := by
    unfold Record.entries
    rw [lookup_of_mem record.nodup hp]
    rfl
  obtain ⟨hist, last, hl, hv⟩ := schemaProblems_nil (hsch _ hs)
  rw [he] at hist hl
  exact ⟨hist, snap, last, hs, hl, hv⟩

/-! ## What the migrator relies on -/

variable {registry : List (Text × StepFunction)} {d : Definition}

theorem applyAll_ne_unknown {ps : List Pending} (hp : ∀ p ∈ ps, p.step ∈ registry.map Prod.fst)
    (step : Text) : applyAll registry ps d ≠ .error (.unknownStep step) := by
  induction ps generalizing d with
  | nil =>
    intro h
    cases h
  | cons p ps ih =>
    rw [List.forall_mem_cons] at hp
    obtain ⟨f, hf⟩ := exists_lookup_of_mem hp.1
    unfold applyAll
    rw [hf]
    intro h
    obtain h | ⟨_, _, h⟩ := bind_eq_error.mp h
    · cases hr : f d with
      | ok r => rw [hr] at h; cases h
      | error e => rw [hr] at h; cases Except.error.inj h
    · obtain h | ⟨_, _, h⟩ := bind_eq_error.mp h
      · exact ih hp.2 h
      · cases h

theorem keyOf_ne_unknown (version step : Text) : keyOf version ≠ .error (.unknownStep step) := by
  unfold keyOf
  cases versionKey version with
  | none => exact fun h => absurd (Except.error.inj h) nofun
  | some key => exact nofun

theorem pendingOver_ne_unknown (names : List Text) (step : Text) :
    pendingOver record names d ≠ .error (.unknownStep step) := by
  intro h
  unfold pendingOver at h
  cases hm : names.mapM (pendingFor record d) with
  | ok pss => rw [hm] at h; exact absurd h nofun
  | error e =>
    rw [hm] at h
    obtain rfl := Except.error.inj h
    obtain ⟨name, _, hf⟩ := exists_of_mapM_eq_error hm
    obtain hk | ⟨key, _, hf⟩ := bind_eq_error.mp hf
    · exact keyOf_ne_unknown _ _ hk
    · obtain hf | ⟨_, _, hf⟩ := bind_eq_error.mp hf
      · obtain ⟨e, _, he⟩ := exists_of_mapM_eq_error hf
        unfold due at he
        split at he
        · exact absurd he nofun
        · cases hk : keyOf e.version with
          | ok key => rw [hk] at he; exact absurd he nofun
          | error f =>
            rw [hk] at he
            obtain rfl := Except.error.inj he
            exact keyOf_ne_unknown _ _ hk
      · exact absurd hf nofun

/-- **A registered record**: a migration never looks for a step that is not there. -/
theorem migrate_ne_unknown (hk : record.Known registry) (d : Definition) (step : Text) :
    migrate registry record d ≠ .error (.unknownStep step) := by
  intro h
  obtain h | ⟨names, _, h⟩ := bind_eq_error.mp h
  · unfold schemas at h
    cases hs : Cluster.schemasOf d.lab with
    | ok names => rw [hs] at h; exact absurd h nofun
    | error e => rw [hs] at h; exact absurd (Except.error.inj h) nofun
  · obtain h | ⟨ps, hp, h⟩ := bind_eq_error.mp h
    · exact pendingOver_ne_unknown _ _ h
    · exact applyAll_ne_unknown (hk.mem hp) step h

theorem due_pairwise {key : List Int} {es : List RecordEntry} {os : List (Option Pending)}
    (h : es.mapM (due name key) = .ok os)
    (ha : es.Pairwise fun e e' => Precedes e.version e'.version) :
    os.reduceOption.Pairwise fun p q => Precedes p.version q.version := by
  induction es generalizing os with
  | nil =>
    obtain rfl := Except.ok.inj h
    exact List.Pairwise.nil
  | cons e es ih =>
    obtain ⟨o, os', ho, hos, rfl⟩ := mapM_eq_ok_cons.mp h
    rw [List.pairwise_cons] at ha
    cases o with
    | none =>
      rw [List.reduceOption_cons_of_none]
      exact ih hos ha.2
    | some p =>
      rw [List.reduceOption_cons_of_some]
      refine List.pairwise_cons.mpr ⟨fun q hq => ?_, ih hos ha.2⟩
      rw [List.reduceOption_mem_iff, mem_of_mapM_eq_ok hos] at hq
      obtain ⟨e', he', hq⟩ := hq
      obtain ⟨_, _, _, _, _, rfl⟩ := due_eq_ok_some.mp ho
      obtain ⟨_, _, _, _, _, rfl⟩ := due_eq_ok_some.mp hq
      exact ha.1 e' he'

theorem pendingList_ascends (ha : record.Ascending) (name : Text) :
    (pendingList record d name).Pairwise (fun p q => Precedes p.version q.version) ∧
      ∀ p ∈ pendingList record d name, p.schema = name := by
  unfold pendingList
  cases hp : pendingFor record d name with
  | error e => exact ⟨List.Pairwise.nil, fun _ h => absurd h List.not_mem_nil⟩
  | ok ps =>
    obtain ⟨_, _, hmem⟩ := pendingFor_eq_ok hp
    obtain ⟨key, hk, hp⟩ := bind_eq_ok.mp hp
    obtain ⟨os, hos, hp⟩ := bind_eq_ok.mp hp
    obtain rfl := Except.ok.inj hp
    refine ⟨due_pairwise hos (ha.entries name).ascends, fun p hp => ?_⟩
    obtain ⟨_, _, _, _, _, _, _, rfl⟩ := (hmem p).mp hp
    rfl

/-- **Each schema's steps come in ascending order of their versions.** -/
theorem pending_ascends (ha : record.Ascending) {ps : List Pending}
    (h : pending record d = .ok ps) :
    ps.Pairwise fun p q => p.schema = q.schema → Precedes p.version q.version := by
  obtain ⟨names, hn, h⟩ := bind_eq_ok.mp h
  obtain ⟨_, rfl⟩ := pendingOver_eq_ok_iff.mp h
  have hnd : names.Nodup := Cluster.schemasOf_nodup (mapError_eq_ok.mp hn)
  refine List.pairwise_flatten.mpr ⟨fun l hl => ?_, List.pairwise_map.mpr (hnd.imp fun hne => ?_)⟩
  · obtain ⟨name, _, rfl⟩ := List.mem_map.mp hl
    refine List.Pairwise.imp ?_ (pendingList_ascends (d := d) ha name).1
    exact fun hpq _ => hpq
  · intro p hp q hq he
    rw [(pendingList_ascends ha _).2 p hp, (pendingList_ascends ha _).2 q hq] at he
    exact absurd he hne

/-- The last of versions that ascend is the greatest. -/
theorem Ascends.last {es : List RecordEntry} (h : Ascends es) {last : RecordEntry}
    (hl : es.getLast? = some last) : ∀ e ∈ es, e = last ∨ Precedes e.version last.version := by
  obtain ⟨init, rfl⟩ := List.getLast?_eq_some_iff.mp hl
  intro e he
  rcases List.mem_append.mp he with he | he
  · exact Or.inr ((List.pairwise_append.mp h.ascends).2.2 e he last List.mem_cons_self)
  · exact Or.inl (List.mem_singleton.mp he)

theorem stamp_last {s : Definition} (h : stamp record d = .ok s) {version : Text}
    (hv : s.versions name = some version) :
    ∃ last, (record.entries name).getLast? = some last ∧ last.version = version := by
  obtain ⟨names, _, rfl⟩ := map_eq_ok.mp h
  dsimp only at hv
  split at hv
  · exact Option.map_eq_some_iff.mp hv
  · exact absurd hv nofun

end Sound

/-- The two steps that the record of a lab and of an add-on names. -/
def portsRegistry : List (Text × StepFunction) :=
  [("open_ports_2_0".toList, Step.openPorts.apply),
    ("harbor_2_0".toList, (appcollectionDefault_2_0 "harbor".toList []).apply)]

/-- The snapshot of a version without fields. -/
def emptySnapshot (version : Text) : Snapshot := ⟨version, [], List.nodup_nil⟩

end LabInABox.Schema
