import LabInABox.Schema.Independent
import LabInABox.Schema.Version

/-!
# Migrating a lab definition

Model of `pending`, `stamp` and `migrate` (`libs/migrations.py`) for a lab definition: the migrations
the compatibility record names and the file has not recorded, applied one after another.

* A schema the file does not record counts as version 1.0.
* `migrate` may end: `die` of an entry of an add-on list that carries no single name, the `ValueError`
  of a version that is not numbers, the `KeyError` of a step that is not registered.
* The registry of steps is a parameter; `registered` is `MIGRATIONS`.

Results:
* `migrate_isOk_iff`: when a migration completes.
* `migrate_fixed_point`: what a migration leaves has no pending migration once it is stamped, and a
  second migration changes nothing.
* `Pending.edit_commutes`: migrations with different steps commute.
-/

namespace LabInABox.Schema

open Text

/-! ## The record -/

/-- An entry of the compatibility record. -/
structure RecordEntry where
  version : Text
  breaking : Bool
  changes : Text
  migration : Option Text
  deriving DecidableEq

/-- The step an entry names: an empty name counts as none. -/
def RecordEntry.step (e : RecordEntry) : Option Text := e.migration.filter (· ≠ [])

/-- The compatibility record: the entries of each schema, oldest first. -/
structure Record where
  schemas : List (Text × List RecordEntry)
  nodup : (schemas.map Prod.fst).Nodup

/-- `record.get(name, [])`. -/
def Record.entries (record : Record) (name : Text) : List RecordEntry :=
  (record.schemas.lookup name).getD []

/-- Why a migration ends. -/
inductive Failure
  | die (d : Cluster.Die)
  | badVersion (version : Text)
  | unknownStep (step : Text)
  deriving DecidableEq

/-- A step, as it is called. -/
abbrev StepFunction := Definition → Except Cluster.Die (Definition × List Text)

/-- `MIGRATIONS`, as a registry of functions. -/
def registered : List (Text × StepFunction) := migrations.map fun p => (p.1, p.2.apply)

/-! ## Pending migrations -/

/-- A migration the file still needs. -/
structure Pending where
  schema : Text
  version : Text
  step : Text
  deriving DecidableEq

/-- `_version_key(version)`, or its `ValueError`. -/
def keyOf (version : Text) : Except Failure (List Int) :=
  match versionKey version with
  | some key => .ok key
  | none => .error (.badVersion version)

/-- `recorded.get(name, "1.0")`. -/
def Definition.recorded (d : Definition) (name : Text) : Text := (d.versions name).getD "1.0".toList

/-- The migration of one entry, if it is still needed. -/
def due (name : Text) (recorded : List Int) (e : RecordEntry) : Except Failure (Option Pending) :=
  match e.step with
  | none => .ok none
  | some step =>
    (keyOf e.version).map fun key => if recorded < key then some ⟨name, e.version, step⟩ else none

/-- The migrations of one schema. -/
def pendingFor (record : Record) (d : Definition) (name : Text) : Except Failure (List Pending) := do
  let key ← keyOf (d.recorded name)
  let ps ← (record.entries name).mapM (due name key)
  return ps.reduceOption

/-- The migrations of the schemas, in their order. -/
def pendingOver (record : Record) (schemas : List Text) (d : Definition) :
    Except Failure (List Pending) :=
  (schemas.mapM (pendingFor record d)).map List.flatten

/-- `schemas_of("lab", data)`. -/
def schemas (d : Definition) : Except Failure (List Text) := (Cluster.schemasOf d.lab).mapError .die

/-- `pending("lab", data, record)`. -/
def pending (record : Record) (d : Definition) : Except Failure (List Pending) := do
  let names ← schemas d
  pendingOver record names d

/-- `stamp("lab", data, record)`. -/
def stamp (record : Record) (d : Definition) : Except Failure Definition :=
  (schemas d).map fun names =>
    { d with
      versions := fun name =>
        if name ∈ names then (record.entries name).getLast?.map RecordEntry.version else none }

/-! ## Applying them -/

/-- `"{} {}: {}".format(name, version, change)`. -/
def Pending.label (p : Pending) (change : Text) : Text :=
  p.schema ++ ' ' :: p.version ++ ": ".toList ++ change

/-- The loop of `migrate`. -/
def applyAll (registry : List (Text × StepFunction)) :
    List Pending → Definition → Except Failure (Definition × List Text)
  | [], d => .ok (d, [])
  | p :: ps, d =>
    match registry.lookup p.step with
    | none => .error (.unknownStep p.step)
    | some step => do
      let (d₁, changes) ← (step d).mapError .die
      let (d₂, rest) ← applyAll registry ps d₁
      return (d₂, changes.map p.label ++ rest)

/-- `migrate`, over a list of schemas. -/
def migrateOver (registry : List (Text × StepFunction)) (record : Record) (names : List Text)
    (d : Definition) : Except Failure (Definition × List Text) := do
  let ps ← pendingOver record names d
  applyAll registry ps d

/-- `migrate("lab", data, record)`. -/
def migrate (registry : List (Text × StepFunction)) (record : Record) (d : Definition) :
    Except Failure (Definition × List Text) := do
  let names ← schemas d
  migrateOver registry record names d

/-! ## What is pending -/

/-- The second version comes after the first. -/
def Precedes (v v' : Text) : Prop :=
  ∃ key key', versionKey v = some key ∧ versionKey v' = some key' ∧ key < key'

/-- The versions are numbers, in strictly ascending order. -/
structure Ascends (es : List RecordEntry) : Prop where
  parses : ∀ e ∈ es, ∃ key, versionKey e.version = some key
  ascends : es.Pairwise fun e e' => Precedes e.version e'.version

/-- The entries of every schema ascend. -/
def Record.Ascending (record : Record) : Prop := ∀ p ∈ record.schemas, Ascends p.2

/-- Every step the record names is registered. -/
def Record.Known (record : Record) (registry : List (Text × StepFunction)) : Prop :=
  ∀ p ∈ record.schemas, ∀ e ∈ p.2, ∀ step, e.step = some step → step ∈ registry.map Prod.fst

/-- Versions whose numbers ascend. -/
theorem ascends_of_keys : ∀ {es : List RecordEntry} {keys : List (List Int)},
    es.mapM (fun e => versionKey e.version) = some keys → keys.Pairwise (· < ·) → Ascends es
  | [], _, _, _ => ⟨fun _ h => absurd h List.not_mem_nil, List.Pairwise.nil⟩
  | e :: es, keys, h, hlt => by
    simp only [List.mapM_cons, Option.bind_eq_bind, Option.bind_eq_some_iff] at h
    obtain ⟨key, hk, keys', hks, h⟩ := h
    obtain rfl := Option.some.inj h
    rw [List.pairwise_cons] at hlt
    have ih := ascends_of_keys hks hlt.2
    refine ⟨List.forall_mem_cons.mpr ⟨⟨key, hk⟩, ih.parses⟩,
      List.pairwise_cons.mpr ⟨fun e' he' => ?_, ih.ascends⟩⟩
    obtain ⟨key', hm, hk'⟩ := exists_of_mapM_eq_some hks e' he'
    exact ⟨key, key', hk, hk', hlt.1 key' hm⟩

variable {record : Record} {registry : List (Text × StepFunction)} {d d' : Definition}
  {names : List Text} {ps : List Pending}

theorem entries_cases (record : Record) (name : Text) :
    record.entries name = [] ∨ (name, record.entries name) ∈ record.schemas := by
  unfold Record.entries
  cases hl : record.schemas.lookup name with
  | none => exact Or.inl rfl
  | some es =>
    obtain ⟨l₁, l₂, hs, _⟩ := List.lookup_eq_some_iff.mp hl
    rw [hs]
    exact Or.inr (List.mem_append_right _ List.mem_cons_self)

theorem Record.Ascending.entries (h : record.Ascending) (name : Text) :
    Ascends (record.entries name) := by
  obtain he | hm := entries_cases record name
  · rw [he]
    exact ⟨fun _ h => absurd h List.not_mem_nil, List.Pairwise.nil⟩
  · exact h _ hm

theorem keyOf_eq_ok {version : Text} {key : List Int} :
    keyOf version = .ok key ↔ versionKey version = some key := by
  unfold keyOf
  cases versionKey version with
  | none => exact ⟨nofun, nofun⟩
  | some key' => rw [Except.ok.injEq, Option.some.injEq]

theorem due_eq_ok_some {name : Text} {recorded : List Int} {e : RecordEntry} {p : Pending} :
    due name recorded e = .ok (some p) ↔ ∃ step key, e.step = some step ∧
      versionKey e.version = some key ∧ recorded < key ∧ p = ⟨name, e.version, step⟩ := by
  unfold due
  cases hs : e.step with
  | none => exact ⟨fun h => absurd (Except.ok.inj h) nofun, fun ⟨_, _, h, _⟩ => absurd h nofun⟩
  | some step =>
    cases hk : versionKey e.version with
    | none =>
      rw [keyOf, hk]
      exact ⟨nofun, fun ⟨_, _, _, h, _⟩ => absurd h nofun⟩
    | some key =>
      rw [keyOf_eq_ok.mpr hk]
      change Except.ok (if recorded < key then _ else _) = _ ↔ _
      rw [Except.ok.injEq]
      by_cases hlt : recorded < key
      · rw [if_pos hlt, Option.some.injEq]
        constructor
        · rintro rfl
          exact ⟨step, key, rfl, rfl, hlt, rfl⟩
        · rintro ⟨_, _, hs, _, _, rfl⟩
          rw [Option.some.inj hs]
      · rw [if_neg hlt]
        exact ⟨nofun, fun ⟨_, _, _, hk, h, _⟩ => absurd (Option.some.inj hk ▸ h) hlt⟩

theorem due_isOk {name : Text} {recorded key : List Int} {e : RecordEntry}
    (h : versionKey e.version = some key) : ∃ o, due name recorded e = .ok o := by
  unfold due
  cases e.step with
  | none => exact ⟨none, rfl⟩
  | some step =>
    rw [keyOf_eq_ok.mpr h]
    exact ⟨_, rfl⟩

/-- The migrations of one schema are those of its entries that come after the recorded version. -/
theorem pendingFor_eq_ok {name : Text} (h : pendingFor record d name = .ok ps) :
    ∃ key, versionKey (d.recorded name) = some key ∧ ∀ p, p ∈ ps ↔ ∃ e ∈ record.entries name,
      ∃ step k, e.step = some step ∧ versionKey e.version = some k ∧ key < k ∧
        p = ⟨name, e.version, step⟩ := by
  obtain ⟨key, hk, h⟩ := bind_eq_ok.mp h
  obtain ⟨os, hm, h⟩ := bind_eq_ok.mp h
  obtain rfl := Except.ok.inj h
  refine ⟨key, keyOf_eq_ok.mp hk, fun p => ?_⟩
  rw [List.reduceOption_mem_iff, mem_of_mapM_eq_ok hm]
  simp only [due_eq_ok_some]

theorem pendingFor_isOk_iff (ha : record.Ascending) {name : Text} :
    (∃ ps, pendingFor record d name = .ok ps) ↔ ∃ key, versionKey (d.recorded name) = some key := by
  constructor
  · rintro ⟨ps, h⟩
    obtain ⟨key, hk, _⟩ := pendingFor_eq_ok h
    exact ⟨key, hk⟩
  · rintro ⟨key, hk⟩
    have hm : ∃ os, (record.entries name).mapM (due name key) = .ok os :=
      mapM_isOk_iff.mpr fun e he => due_isOk ((ha.entries name).parses e he).choose_spec
    obtain ⟨os, hos⟩ := hm
    exact ⟨_, bind_eq_ok.mpr ⟨key, keyOf_eq_ok.mpr hk, bind_eq_ok.mpr ⟨os, hos, rfl⟩⟩⟩

theorem pendingOver_eq_ok (h : pendingOver record names d = .ok ps) {p : Pending} :
    p ∈ ps ↔ ∃ name ∈ names, ∃ qs, pendingFor record d name = .ok qs ∧ p ∈ qs := by
  obtain ⟨pss, hm, rfl⟩ := map_eq_ok.mp h
  rw [List.mem_flatten]
  constructor
  · rintro ⟨qs, hqs, hp⟩
    obtain ⟨n, hn, hq⟩ := (mem_of_mapM_eq_ok hm).mp hqs
    exact ⟨n, hn, qs, hq, hp⟩
  · rintro ⟨n, hn, qs, hq, hp⟩
    exact ⟨qs, (mem_of_mapM_eq_ok hm).mpr ⟨n, hn, hq⟩, hp⟩

/-- A step that is pending is named by the record. -/
theorem Record.Known.mem (hk : record.Known registry) (h : pendingOver record names d = .ok ps) :
    ∀ p ∈ ps, p.step ∈ registry.map Prod.fst := by
  intro p hp
  obtain ⟨name, _, qs, hq, hp⟩ := (pendingOver_eq_ok h).mp hp
  obtain ⟨_, _, hqs⟩ := pendingFor_eq_ok hq
  obtain ⟨e, he, step, _, hs, _, _, rfl⟩ := (hqs p).mp hp
  obtain hnil | hm := entries_cases record name
  · rw [hnil] at he
    exact absurd he List.not_mem_nil
  · exact hk _ hm e he step hs

/-- What is pending depends on the recorded versions only. -/
theorem pendingOver_congr (h : d.versions = d'.versions) :
    pendingOver record names d = pendingOver record names d' := by
  have hfor : pendingFor record d = pendingFor record d' := by
    funext name
    unfold pendingFor Definition.recorded
    rw [h]
  unfold pendingOver
  rw [hfor]

theorem schemas_isOk_iff : (∃ names, schemas d = .ok names) ↔ Cluster.WellFormed d.lab.entries := by
  rw [← Cluster.collectAddonNames_isOk_iff]
  unfold schemas Cluster.schemasOf
  constructor
  · rintro ⟨names, h⟩
    obtain ⟨addons, ha, _⟩ := map_eq_ok.mp (mapError_eq_ok.mp h)
    exact ⟨addons, ha⟩
  · rintro ⟨addons, ha⟩
    exact ⟨_, mapError_eq_ok.mpr (map_eq_ok.mpr ⟨addons, ha, rfl⟩)⟩

/-! ## A migration that completes -/

/-- A pending migration, as an edit: its step, the changes labelled. -/
def Pending.edit (p : Pending) : Edit Text Definition :=
  match migrations.lookup p.step with
  | some s => Edit.relabel p.label s.edit
  | none => Edit.skip

theorem lookup_registered (step : Text) :
    registered.lookup step = (migrations.lookup step).map Step.apply := by
  unfold registered
  induction migrations with
  | nil => rfl
  | cons q qs ih =>
    rw [List.map_cons, List.lookup_cons, List.lookup_cons, ih]
    cases step == q.1 <;> rfl

theorem Pending.edit_cases (p : Pending) :
    p.edit = Edit.skip ∨ ∃ q ∈ migrations, p.step = q.1 ∧ p.edit = Edit.relabel p.label q.2.edit := by
  unfold Pending.edit
  cases hl : migrations.lookup p.step with
  | none => exact Or.inl rfl
  | some s =>
    obtain ⟨l₁, l₂, hs, _⟩ := List.lookup_eq_some_iff.mp hl
    refine Or.inr ⟨(p.step, s), ?_, rfl, rfl⟩
    rw [hs]
    exact List.mem_append_right _ List.mem_cons_self

theorem Pending.entries_edit (p : Pending) (d : Definition) :
    (p.edit d).1.lab.entries = d.lab.entries := by
  obtain he | ⟨q, _, _, he⟩ := p.edit_cases
  · rw [he]
    rfl
  · rw [he]
    exact q.2.entries_edit d

/-- **The loop of a migration** whose steps are registered is the run of its steps. -/
theorem applyAll_eq (hp : ∀ p ∈ ps, p.step ∈ registered.map Prod.fst)
    (hw : Cluster.WellFormed d.lab.entries) :
    applyAll registered ps d = .ok (Edit.run (ps.map Pending.edit) d) := by
  induction ps generalizing d with
  | nil => rfl
  | cons p ps ih =>
    rw [List.forall_mem_cons] at hp
    obtain ⟨f, hf⟩ := exists_lookup_of_mem hp.1
    unfold applyAll
    rw [hf]
    rw [lookup_registered] at hf
    obtain ⟨s, hs, rfl⟩ := Option.map_eq_some_iff.mp hf
    have hedit : p.edit = Edit.relabel p.label s.edit := by
      unfold Pending.edit
      rw [hs]
    refine bind_eq_ok.mpr ⟨s.edit d, mapError_eq_ok.mpr (s.apply_eq hw), bind_eq_ok.mpr
      ⟨_, ih hp.2 (d := (s.edit d).1) ?_, ?_⟩⟩
    · rw [s.entries_edit]
      exact hw
    · rw [List.map_cons, hedit]
      rfl

theorem run_preserves {β : Type*} (g : Definition → β) (h : ∀ (s : Step) d, g (s.edit d).1 = g d)
    (ps : List Pending) (d : Definition) : g (Edit.run (ps.map Pending.edit) d).1 = g d := by
  induction ps generalizing d with
  | nil => rfl
  | cons p ps ih =>
    refine (ih _).trans ?_
    obtain he | ⟨q, _, _, he⟩ := p.edit_cases
    · rw [he]
      rfl
    · rw [he]
      exact h q.2 d

/-! ## The fixed point -/

theorem migrations_names : (migrations.map Prod.fst).Nodup ∧
    (migrations.map fun p => p.2.name).Nodup := by decide

theorem step_name_ne {p q : Text × Step} (hp : p ∈ migrations) (hq : q ∈ migrations)
    (h : p.1 ≠ q.1) : p.2.name ≠ q.2.name := fun he =>
  h (congrArg Prod.fst (List.inj_on_of_nodup_map migrations_names.2 hp hq he))

theorem Pending.edit_idempotent (p : Pending) : Edit.Idempotent p.edit := by
  obtain he | ⟨q, hq, _, he⟩ := p.edit_cases
  · rw [he]
    exact Edit.skip_idempotent
  · rw [he]
    exact (Step.idempotent (migrations_regular q hq)).relabel

/-- **Migrations with different steps commute.** -/
theorem Pending.edit_commutes {p q : Pending} (h : p.step ≠ q.step) :
    Edit.Commutes p.edit q.edit := by
  obtain he | ⟨s, hs, hps, he⟩ := p.edit_cases
  · rw [he]
    exact (Edit.commutes_skip _).symm
  · obtain he' | ⟨t, ht, hqt, he'⟩ := q.edit_cases
    · rw [he']
      exact Edit.commutes_skip _
    · rw [he, he']
      refine (Step.commutes (step_name_ne hs ht fun e => h ?_)).relabel
      rw [hps, hqt, e]

/-- A migration leaves no other anything new to do. -/
theorem Pending.edit_keeps (p q : Pending) : Edit.Keeps p.edit q.edit := by
  by_cases h : p.step = q.step
  · obtain he | ⟨s, hs, _, he⟩ := p.edit_cases
    · rw [he]
      exact (Edit.commutes_skip _).keeps
    · have hq : q.edit = Edit.relabel q.label s.2.edit := by
        have hl : migrations.lookup q.step = some s.2 := by
          rw [← h, ‹p.step = s.1›]
          exact lookup_of_mem migrations_names.1 hs
        unfold Pending.edit
        rw [hl]
      rw [he, hq]
      exact (Edit.keeps_self _).relabel
  · exact (Pending.edit_commutes h).symm.keeps

/-- **What a migration leaves**, each of its steps has nothing to do at. -/
theorem run_settled (ps : List Pending) (d : Definition) :
    Edit.Settled (Edit.run (ps.map Pending.edit)) (Edit.run (ps.map Pending.edit) d).1 := by
  refine Edit.run_idempotent ?_ ?_ d
  · intro e he
    obtain ⟨p, _, rfl⟩ := List.mem_map.mp he
    exact p.edit_idempotent
  · intro e he f hf
    obtain ⟨p, _, rfl⟩ := List.mem_map.mp he
    obtain ⟨q, _, rfl⟩ := List.mem_map.mp hf
    exact q.edit_keeps p

theorem migrate_eq_ok {r : Definition × List Text} : migrate registry record d = .ok r ↔
    ∃ names ps, schemas d = .ok names ∧ pendingOver record names d = .ok ps ∧
      applyAll registry ps d = .ok r := by
  unfold migrate migrateOver
  constructor
  · intro h
    obtain ⟨names, hn, h⟩ := bind_eq_ok.mp h
    obtain ⟨ps, hp, h⟩ := bind_eq_ok.mp h
    exact ⟨names, ps, hn, hp, h⟩
  · rintro ⟨names, ps, hn, hp, h⟩
    exact bind_eq_ok.mpr ⟨names, hn, bind_eq_ok.mpr ⟨ps, hp, h⟩⟩

/-- **When a migration completes**: the add-on lists can be read, and so can the recorded versions. -/
theorem migrate_isOk_iff (ha : record.Ascending) (hk : record.Known registered) :
    (∃ r, migrate registered record d = .ok r) ↔ ∃ names, schemas d = .ok names ∧
      ∀ name ∈ names, ∃ key, versionKey (d.recorded name) = some key := by
  constructor
  · rintro ⟨r, h⟩
    obtain ⟨names, ps, hn, hp, _⟩ := migrate_eq_ok.mp h
    refine ⟨names, hn, fun name hm => ?_⟩
    obtain ⟨pss, hm', _⟩ := map_eq_ok.mp hp
    exact (pendingFor_isOk_iff ha).mp (mapM_isOk_iff.mp ⟨pss, hm'⟩ name hm)
  · rintro ⟨names, hn, hkeys⟩
    obtain ⟨pss, hm⟩ := mapM_isOk_iff.mpr fun name hm => (pendingFor_isOk_iff ha).mpr (hkeys name hm)
    have hp : pendingOver record names d = .ok pss.flatten := map_eq_ok.mpr ⟨pss, hm, rfl⟩
    exact ⟨_, migrate_eq_ok.mpr ⟨names, _, hn, hp,
      applyAll_eq (hk.mem hp) (schemas_isOk_iff.mp ⟨names, hn⟩)⟩⟩

/-- What a completed migration leaves: the schemas and the recorded versions are the same. -/
theorem migrate_spec (hk : record.Known registered) {changes : List Text}
    (h : migrate registered record d = .ok (d', changes)) :
    ∃ names ps, schemas d = .ok names ∧ pendingOver record names d = .ok ps ∧
      (∀ p ∈ ps, p.step ∈ registered.map Prod.fst) ∧ (d', changes) = Edit.run (ps.map Pending.edit) d ∧
      schemas d' = .ok names ∧ d'.versions = d.versions ∧ d'.lab.entries = d.lab.entries := by
  obtain ⟨names, ps, hn, hp, hrun⟩ := migrate_eq_ok.mp h
  have hmem := hk.mem hp
  rw [applyAll_eq hmem (schemas_isOk_iff.mp ⟨names, hn⟩)] at hrun
  have he := (Except.ok.inj hrun).symm
  have hd : d' = (Edit.run (ps.map Pending.edit) d).1 := congrArg Prod.fst he
  refine ⟨names, ps, hn, hp, hmem, he, ?_, ?_, ?_⟩
  · rw [hd, ← hn]
    exact run_preserves schemas (fun s d => congrArg (Except.mapError Failure.die) (s.schemasOf_edit d))
      ps d
  · rw [hd]
    exact run_preserves Definition.versions (fun s d => s.versions_edit d) ps d
  · rw [hd]
    exact run_preserves (fun d => d.lab.entries) (fun s d => s.entries_edit d) ps d

theorem migrate_again (hk : record.Known registered) {changes : List Text}
    (h : migrate registered record d = .ok (d', changes)) :
    migrate registered record d' = .ok (d', []) := by
  obtain ⟨names, ps, hn, hp, hmem, he, hn', hv, hw⟩ := migrate_spec hk h
  refine migrate_eq_ok.mpr ⟨names, ps, hn', ?_, ?_⟩
  · rw [← hp]
    exact pendingOver_congr hv
  · rw [applyAll_eq hmem (schemas_isOk_iff.mp ⟨names, hn'⟩)]
    have hs := run_settled ps d
    rw [← congrArg Prod.fst he] at hs
    exact congrArg Except.ok hs

/-- The last version comes after every other, or is it. -/
theorem Ascends.le_last {es : List RecordEntry} (h : Ascends es) {e last : RecordEntry} (he : e ∈ es)
    (hl : es.getLast? = some last) {key lastKey : List Int} (hk : versionKey e.version = some key)
    (hlk : versionKey last.version = some lastKey) : key ≤ lastKey := by
  obtain ⟨init, rfl⟩ : ∃ init, es = init ++ [last] := List.getLast?_eq_some_iff.mp hl
  rcases List.mem_append.mp he with he | he
  · obtain ⟨k, k', hk', hlk', hlt⟩ := (List.pairwise_append.mp h.ascends).2.2 e he last
      List.mem_cons_self
    rw [hk] at hk'
    rw [hlk] at hlk'
    rw [Option.some.inj hk', Option.some.inj hlk']
    exact le_of_lt hlt
  · rw [List.mem_singleton.mp he, hlk] at hk
    exact le_of_eq (Option.some.inj hk).symm

/-- Nothing is pending of a schema whose last version is recorded. -/
theorem pendingFor_stamped (ha : record.Ascending) {name : Text}
    (h : ∀ last, (record.entries name).getLast? = some last → d.recorded name = last.version)
    (hnil : record.entries name = [] → ∃ key, versionKey (d.recorded name) = some key) :
    pendingFor record d name = .ok [] := by
  have hasc := ha.entries name
  have hkey : ∃ key, versionKey (d.recorded name) = some key := by
    cases hl : (record.entries name).getLast? with
    | none => exact hnil (List.getLast?_eq_none_iff.mp hl)
    | some last =>
      rw [h last hl]
      exact hasc.parses last (List.mem_of_getLast? hl)
  obtain ⟨ps, hp⟩ := (pendingFor_isOk_iff ha).mpr hkey
  obtain ⟨key, hk, hmem⟩ := pendingFor_eq_ok hp
  refine hp.trans (congrArg Except.ok (List.eq_nil_iff_forall_not_mem.mpr fun p hm => ?_))
  obtain ⟨e, he, _, k, _, hek, hlt, _⟩ := (hmem p).mp hm
  obtain ⟨last, hl⟩ : ∃ last, (record.entries name).getLast? = some last :=
    ⟨_, List.getLast?_eq_some_getLast (List.ne_nil_of_mem he)⟩
  rw [h last hl] at hk
  exact absurd hlt (not_lt_of_ge (hasc.le_last he hl hek hk))

/-- **A stamped file has no pending migration.** -/
theorem pending_stamp (ha : record.Ascending) (hn : schemas d = .ok names) :
    ∃ s, stamp record d = .ok s ∧ pending record s = .ok [] := by
  refine ⟨_, map_eq_ok.mpr ⟨names, hn, rfl⟩, bind_eq_ok.mpr ⟨names, hn, ?_⟩⟩
  have hnil : ∀ name ∈ names, pendingFor record { d with
      versions := fun name =>
        if name ∈ names then (record.entries name).getLast?.map RecordEntry.version else none } name =
      .ok [] := by
    intro name hm
    refine pendingFor_stamped ha (fun last hl => ?_) fun he => ?_
    · unfold Definition.recorded
      dsimp only
      rw [if_pos hm, hl]
      rfl
    · unfold Definition.recorded
      dsimp only
      rw [if_pos hm, he]
      exact ⟨[1, 0], by decide⟩
  obtain ⟨pss, hpss⟩ := mapM_isOk_iff.mpr fun name hm => ⟨[], hnil name hm⟩
  refine map_eq_ok.mpr ⟨pss, hpss, List.flatten_eq_nil_iff.mpr fun qs hqs => ?_⟩
  obtain ⟨name, hm, hq⟩ := (mem_of_mapM_eq_ok hpss).mp hqs
  rw [hnil name hm] at hq
  exact (Except.ok.inj hq).symm

/-- **A migration reaches a fixed point.** It completes when the add-on lists and the recorded versions
can be read; what it leaves needs nothing more once it is stamped, and without the stamp a second
migration changes and reports nothing. -/
theorem migrate_fixed_point (ha : record.Ascending) (hk : record.Known registered) (d : Definition) :
    ((∃ r, migrate registered record d = .ok r) ↔ ∃ names, schemas d = .ok names ∧
      ∀ name ∈ names, ∃ key, versionKey (d.recorded name) = some key) ∧
    ∀ d' changes, migrate registered record d = .ok (d', changes) →
      (∃ s, stamp record d' = .ok s ∧ pending record s = .ok []) ∧
      migrate registered record d' = .ok (d', []) := by
  refine ⟨migrate_isOk_iff ha hk, fun d' changes h => ⟨?_, migrate_again hk h⟩⟩
  obtain ⟨names, _, _, _, _, _, hn, _⟩ := migrate_spec hk h
  exact pending_stamp ha hn

/-- The record of a lab and of an add-on, each with one breaking version. -/
def portsRecord : Record where
  schemas := [
    ("lab".toList, [⟨"1.0".toList, false, "first".toList, none⟩,
      ⟨"2.0".toList, true, "ports are lists".toList, some "open_ports_2_0".toList⟩]),
    ("addon:harbor".toList, [⟨"1.0".toList, false, "first".toList, none⟩,
      ⟨"1.1".toList, false, "more fields".toList, none⟩,
      ⟨"2.0".toList, true, "another chart".toList, some "harbor_2_0".toList⟩])]
  nodup := by decide

/-- A lab whose only node lists an add-on and opens ports given as a text. -/
def portsLab : Definition where
  sections := ∅
  kclusters := []
  nodes := [("n1".toList,
    ⟨fun key => if key = "open_ports".toList then some (.text "443 69/udp".toList) else none,
      [.plain "harbor".toList]⟩)]
  versions := fun _ => none
  nodup_kclusters := List.nodup_nil
  nodup_nodes := List.nodup_singleton _

theorem migrate_fixed_point_ports : ∃ d', migrate registered portsRecord portsLab = .ok (d', [
      "lab 2.0: nodes.n1.open_ports: \"443 69/udp\" -> [\"443\", \"69/udp\"]".toList,
      ("addon:harbor 2.0: harbor: harbor_source set to \"upstream\", " ++
        "the chart this lab was written against").toList]) ∧
    (∃ s, stamp portsRecord d' = .ok s ∧ pending portsRecord s = .ok []) ∧
    migrate registered portsRecord d' = .ok (d', []) := by
  have hasc : portsRecord.Ascending := by
    refine List.forall_mem_cons.mpr ⟨?_, List.forall_mem_singleton.mpr ?_⟩
    · exact @ascends_of_keys _ [[1, 0], [2, 0]] (by decide) (by decide)
    · exact @ascends_of_keys _ [[1, 0], [1, 1], [2, 0]] (by decide) (by decide)
  have hknown : portsRecord.Known registered := by
    intro p hp e he step hs
    have hsteps : ∀ p ∈ portsRecord.schemas, ∀ e ∈ p.2,
        e.step.all (fun step => decide (step ∈ registered.map Prod.fst)) = true := by decide
    have h := hsteps p hp e he
    rw [hs] at h
    exact of_decide_eq_true h
  obtain ⟨_, h⟩ := migrate_fixed_point hasc hknown portsLab
  have hchanges : (migrate registered portsRecord portsLab).map Prod.snd = .ok [
      "lab 2.0: nodes.n1.open_ports: \"443 69/udp\" -> [\"443\", \"69/udp\"]".toList,
      ("addon:harbor 2.0: harbor: harbor_source set to \"upstream\", " ++
        "the chart this lab was written against").toList] := by decide +kernel
  obtain ⟨⟨d', changes⟩, hm, rfl⟩ := map_eq_ok.mp hchanges
  exact ⟨d', hm, h d' _ hm⟩

end LabInABox.Schema
