import Mathlib.Data.Fintype.Basic
import Mathlib.Logic.Function.Basic
import LabInABox.Objects
import LabInABox.Run
import LabInABox.Text.Fields

/-!
# Creating a lab in the background

Model of `lab_create` and `job_state` (`scripts/lab_builder_helper.py`): calls that each refuse while a
job of their lab runs, and otherwise make a directory, start a process in it, and write its `job.json`.

* A step is one file operation of one call, or what becomes of a process. The calls of `labs` take turns
  in any order. A directory is read in one step, and the listed ones in any order.
* A `job.json` that is opened and not yet written is read as an error, which ends the call.
* A job is running from `Popen` until its `rc` is written or its process is gone. A process may go without
  writing it, and `others` are the processes that are no job's, whose ids change at will.
* No directory of a job is ever removed.

Results:
* `distinct_of_reached`: no two calls return the same job, in any run.
* `jobs_of_reached`: at most one job of a lab runs, and a check finds it, as long as no call checks while
  another for its lab has passed its check and not written its `job.json`.
-/

namespace LabInABox.Jobs

open Text

/-! ## Job directories -/

/-- What `job.json` says of the process. -/
structure Meta where
  lab : Text
  pid : Nat
  deriving DecidableEq

/-- The file `job.json`. -/
inductive JobJson
  | absent
  | opened
  | written (m : Meta)
  deriving DecidableEq

/-- The process of a job: its id, and the lab it creates. -/
structure Process where
  pid : Nat
  lab : Text
  deriving DecidableEq

/-- A job directory, and the process started in it, until that is gone. -/
structure JobDir where
  jobJson : JobJson
  rc : Option Int
  process : Option Process
  deriving DecidableEq

/-- The directory as it is made. -/
def JobDir.blank : JobDir := ⟨.absent, none, none⟩

/-- What `job_state` answers. -/
inductive State
  | running
  | done
  | failed
  deriving DecidableEq

/-- How far a call is. -/
inductive Phase
  | new
  | checking (left : List Text)
  | picking (stamp : Text) (attempt : Nat)
  | made (job : Text)
  | started (job : Text) (pid : Nat)
  | writing (job : Text) (pid : Nat)
  | returned (job : Text)
  | refused
  deriving DecidableEq

/-- The directory that a call made. -/
def Phase.job : Phase → Option Text
  | made job | started job _ | writing job _ | returned job => some job
  | new | checking _ | picking _ _ | refused => none

/-- The directories that a call has still to read, while it is in its check. -/
def Phase.left : Phase → Option (List Text)
  | checking left => some left
  | new | picking _ _ | made _ | started _ _ | writing _ _ | returned _ | refused => none

/-- The directory and the process of a call that has not written its `job.json`. -/
def Phase.process : Phase → Option (Text × Nat)
  | started job pid | writing job pid => some (job, pid)
  | new | checking _ | picking _ _ | made _ | returned _ | refused => none

/-- The jobs directory, the other processes, and the calls. -/
structure World (ι : Type) where
  dirs : Obj Text JobDir
  others : Nat → Bool
  phase : ι → Phase

/-- What a call does next. -/
inductive CallAction
  | iterdir
  | read (job : Text)
  | accept (time : Text)
  | mkdir
  | popen (pid : Nat)
  | openMeta
  | writeMeta
  | fail
  deriving DecidableEq

/-- A step: of a call, or of a process. -/
inductive Action (ι : Type)
  | call (i : ι) (a : CallAction)
  | finish (job : Text) (rc : Int)
  | exit (job : Text)
  | others (pids : Nat → Bool)

section Step

variable {ι : Type} (w : World ι)

/-- `Path("/proc", str(pid)).exists()`. -/
def World.alive (pid : Nat) : Bool :=
  w.others pid || w.dirs.entries.any fun e => e.2.process.any fun p => p.pid = pid

/-- `job_state(d)`, of a directory and what its `job.json` says. -/
def World.jobState (d : JobDir) (m : Meta) : State :=
  match d.rc with
  | some rc => if rc = 0 then .done else .failed
  | none => if w.alive m.pid then .running else .failed

/-- Whether the lab's job in a directory is found running; none where `job.json` is not readable. -/
def World.check (lab job : Text) : Option Bool :=
  match w.dirs.get job with
  | none => some false
  | some d =>
    match d.jobJson with
    | .absent => some false
    | .opened => none
    | .written m => some (m.lab = lab && w.jobState d m = .running)

/-- The id of an attempt. -/
def jobId (stamp : Text) (attempt : Nat) : Text :=
  if attempt = 1 then stamp else stamp ++ "-".toList ++ Nat.toDigits 10 attempt

/-- `lab.stem`. -/
def labStem (lab : Text) : Text := lab.take (lab.length - ".json".length)

/-- A directory is changed. -/
def changeDir (dirs : Obj Text JobDir) (job : Text) (f : JobDir → JobDir) : Obj Text JobDir :=
  match dirs.get job with
  | some d => dirs.set job (f d)
  | none => dirs

/-- A step of `lab_create(lab)`; an action that is not the next changes nothing. -/
def callStep (saved : Text → Bool) (lab : Text) (a : CallAction) (phase : Phase) :
    Phase × Obj Text JobDir :=
  match a, phase with
  | .iterdir, .new => (if saved lab then .checking w.dirs.keys else .refused, w.dirs)
  | .read job, .checking left =>
    if job ∈ left then
      (if w.check lab job = some false then .checking (left.erase job) else .refused, w.dirs)
    else (phase, w.dirs)
  | .accept time, .checking [] => (.picking (labStem lab ++ "-".toList ++ time) 1, w.dirs)
  | .mkdir, .picking stamp attempt =>
    if jobId stamp attempt ∈ w.dirs.keys then (.picking stamp (attempt + 1), w.dirs)
    else (.made (jobId stamp attempt), w.dirs.set (jobId stamp attempt) .blank)
  | .popen pid, .made job =>
    (.started job pid, changeDir w.dirs job fun d => { d with process := some ⟨pid, lab⟩ })
  | .openMeta, .started job pid =>
    (.writing job pid, changeDir w.dirs job fun d => { d with jobJson := .opened })
  | .writeMeta, .writing job pid =>
    (.returned job, changeDir w.dirs job fun d => { d with jobJson := .written ⟨lab, pid⟩ })
  | .fail, .checking _ | .fail, .picking _ _ | .fail, .made _ => (.refused, w.dirs)
  | _, _ => (phase, w.dirs)

variable [DecidableEq ι] (saved : Text → Bool) (labs : ι → Text)

/-- One step. -/
def step (w : World ι) : Action ι → World ι
  | .call i a =>
    let next := callStep w saved (labs i) a (w.phase i)
    { w with dirs := next.2, phase := Function.update w.phase i next.1 }
  | .finish job rc =>
    { w with dirs := changeDir w.dirs job fun d =>
        if d.process.isSome ∧ d.rc = none then { d with rc := some rc } else d }
  | .exit job => { w with dirs := changeDir w.dirs job fun d => { d with process := none } }
  | .others pids => { w with others := pids }

omit [DecidableEq ι] in
/-- Directories that are there, and calls that begin. -/
def start (dirs : Obj Text JobDir) (others : Nat → Bool) : World ι := ⟨dirs, others, fun _ => .new⟩

end Step

/-! ## What is asked of a run -/

section Properties

variable {ι : Type} (w : World ι) (labs : ι → Text)

/-- The process of a job is running. -/
def Runs (dirs : Obj Text JobDir) (job : Text) (p : Process) : Prop :=
  ∃ d, dirs.get job = some d ∧ d.process = some p ∧ d.rc = none

/-- **At most one job of a lab runs.** -/
def World.AtMostOne : Prop :=
  ∀ job p job' p', Runs w.dirs job p → Runs w.dirs job' p' → p.lab = p'.lab → job = job'

/-- **A check finds the running job of its lab**: it is among the directories that are left to read, and
read as running. -/
def World.Visible : Prop :=
  ∀ i left, w.phase i = .checking left → ∀ job p, Runs w.dirs job p → p.lab = labs i →
    job ∈ left ∧ w.check (labs i) job = some true

/-- **No two calls return the same job.** -/
def World.Distinct : Prop :=
  ∀ i j job, w.phase i = .returned job → w.phase j = .returned job → i = j

/-- A call has passed its check, and its job is not yet in a `job.json`, nor over. -/
def Phase.Pending (dirs : Obj Text JobDir) : Phase → Prop
  | picking _ _ | made _ => True
  | started job _ | writing job _ => ∃ p, Runs dirs job p
  | new | checking _ | returned _ | refused => False

/-- A call only lists the directories while no other for its lab is pending, and only passes its check
while no other for its lab is in its own. -/
def Clear (w : World ι) : Action ι → Prop
  | .call i .iterdir => ∀ j, labs j = labs i → ¬ (w.phase j).Pending w.dirs
  | .call i (.accept _) => ∀ j, j ≠ i → labs j = labs i → (w.phase j).left = none
  | _ => True

instance pendingDecidable (dirs : Obj Text JobDir) (ph : Phase) : Decidable (ph.Pending dirs) :=
  have hruns (job : Text) : Decidable (∃ p, Runs dirs job p) :=
    decidable_of_iff (∃ d ∈ dirs.get job, d.process.isSome ∧ d.rc = none) <| by
      constructor
      · rintro ⟨d, hd, hp, hrc⟩
        obtain ⟨p, hp⟩ := Option.isSome_iff_exists.mp hp
        exact ⟨p, d, hd, hp, hrc⟩
      · rintro ⟨p, d, hd, hp, hrc⟩
        exact ⟨d, hd, Option.isSome_iff_exists.mpr ⟨p, hp⟩, hrc⟩
  match ph with
  | .picking _ _ | .made _ => isTrue trivial
  | .started job _ | .writing job _ => hruns job
  | .new | .checking _ | .returned _ | .refused => isFalse id

instance clearDecidable [Fintype ι] [DecidableEq ι] (w : World ι) (a : Action ι) :
    Decidable (Clear labs w a) :=
  match a with
  | .call i .iterdir =>
    inferInstanceAs (Decidable (∀ j, labs j = labs i → ¬ (w.phase j).Pending w.dirs))
  | .call i (.accept _) =>
    inferInstanceAs (Decidable (∀ j, j ≠ i → labs j = labs i → (w.phase j).left = none))
  | .call _ (.read _) | .call _ .mkdir | .call _ (.popen _) | .call _ .openMeta | .call _ .writeMeta
  | .call _ .fail | .finish _ _ | .exit _ | .others _ => isTrue trivial

end Properties

/-! ## Directories -/

section Dirs

variable {dirs : Obj Text JobDir} {job k : Text} {p q : Process} {f : JobDir → JobDir}

theorem get_changeDir : (changeDir dirs job f).get k =
    if k = job then (dirs.get job).map f else dirs.get k := by
  unfold changeDir
  cases hd : dirs.get job with
  | none =>
    dsimp only
    split
    · rename_i hk
      rw [hk, hd]
      rfl
    · rfl
  | some d =>
    dsimp only
    rw [Obj.get_set]
    rfl

theorem keys_changeDir : (changeDir dirs job f).keys = dirs.keys := by
  unfold changeDir
  cases hd : dirs.get job with
  | none => rfl
  | some d => exact Obj.keys_set_of_mem (Obj.mem_keys_iff.mpr ⟨d, hd⟩) _

theorem jobJson_changeDir (hf : ∀ d, (f d).jobJson = d.jobJson) {d : JobDir} (hd : dirs.get k = some d) :
    ∃ d', (changeDir dirs job f).get k = some d' ∧ d'.jobJson = d.jobJson := by
  rw [get_changeDir]
  split
  · rename_i hk
    rw [← hk, hd]
    exact ⟨f d, rfl, hf d⟩
  · exact ⟨d, hd, rfl⟩

theorem mem_keys_of_runs (h : Runs dirs job p) : job ∈ dirs.keys := by
  obtain ⟨d, hd, _⟩ := h
  exact Obj.mem_keys_iff.mpr ⟨d, hd⟩

/-- A directory that was just made has no process. -/
theorem runs_set_blank (h : job ∉ dirs.keys) : Runs (dirs.set job .blank) k p ↔ Runs dirs k p := by
  unfold Runs
  rw [Obj.get_set]
  split
  · rename_i hk
    rw [hk, Obj.not_mem_keys_iff.mp h]
    constructor
    · rintro ⟨d, hd, hp, _⟩
      obtain rfl := Option.some.inj hd
      cases hp
    · rintro ⟨d, hd, _⟩
      cases hd
  · exact Iff.rfl

/-- What runs after a change that starts nothing ran before it. -/
theorem Runs.of_changeDir (hf : ∀ d, (f d).process = some p → (f d).rc = none → d.process = some p ∧ d.rc = none)
    (h : Runs (changeDir dirs job f) k p) : Runs dirs k p := by
  obtain ⟨d, hd, hp, hrc⟩ := h
  rw [get_changeDir] at hd
  split at hd
  · rename_i hk
    obtain ⟨d', hd', rfl⟩ := Option.map_eq_some_iff.mp hd
    exact ⟨d', by rw [hk, hd'], hf d' hp hrc⟩
  · exact ⟨d, hd, hp, hrc⟩

/-- What runs after a process is started. -/
theorem Runs.of_popen (h : Runs (changeDir dirs job fun d => { d with process := some q }) k p) :
    k ≠ job ∧ Runs dirs k p ∨ k = job ∧ p = q := by
  obtain ⟨d, hd, hp, hrc⟩ := h
  rw [get_changeDir] at hd
  split at hd
  · rename_i hk
    obtain ⟨d', hd', rfl⟩ := Option.map_eq_some_iff.mp hd
    exact Or.inr ⟨hk, (Option.some.inj hp).symm⟩
  · rename_i hk
    exact Or.inl ⟨hk, d, hd, hp, hrc⟩

end Dirs

/-! ## No two calls return the same job -/

section Owned

variable {ι : Type} [DecidableEq ι] {saved : Text → Bool} {labs : ι → Text} {w : World ι}

/-- The directories of the calls are there, and each is one call's. -/
structure Owned (w : World ι) : Prop where
  there : ∀ i job, (w.phase i).job = some job → job ∈ w.dirs.keys
  apart : ∀ i j job, (w.phase i).job = some job → (w.phase j).job = some job → i = j

omit [DecidableEq ι] in
/-- A call keeps its directory, or makes one that was not there. -/
theorem callStep_job (w : World ι) (saved : Text → Bool) (lab : Text) (a : CallAction) (phase : Phase) :
    (∀ job ∈ w.dirs.keys, job ∈ (callStep w saved lab a phase).2.keys) ∧
      ∀ job, (callStep w saved lab a phase).1.job = some job →
        phase.job = some job ∨ job ∉ w.dirs.keys ∧ job ∈ (callStep w saved lab a phase).2.keys := by
  unfold callStep
  split
  · refine ⟨fun _ h => h, fun job h => ?_⟩
    split at h <;> cases h
  · split
    · refine ⟨fun _ h => h, fun job h => ?_⟩
      split at h <;> cases h
    · exact ⟨fun _ h => h, fun _ h => Or.inl h⟩
  · exact ⟨fun _ h => h, fun _ h => by cases h⟩
  · split
    · exact ⟨fun _ h => h, fun _ h => by cases h⟩
    · rename_i hnew
      refine ⟨fun job h => ?_, fun job h => ?_⟩
      · obtain ⟨d, hd⟩ := Obj.mem_keys_iff.mp h
        refine Obj.mem_keys_iff.mpr ⟨d, ?_⟩
        have hne : job ≠ jobId _ _ := fun hk => hnew (hk ▸ h)
        rw [Obj.get_set, if_neg hne, hd]
      · obtain rfl := Option.some.inj h
        refine Or.inr ⟨hnew, Obj.mem_keys_iff.mpr ⟨.blank, ?_⟩⟩
        rw [Obj.get_set, if_pos rfl]
  · exact ⟨fun _ h => by rwa [keys_changeDir], fun _ h => Or.inl h⟩
  · exact ⟨fun _ h => by rwa [keys_changeDir], fun _ h => Or.inl h⟩
  · exact ⟨fun _ h => by rwa [keys_changeDir], fun _ h => Or.inl h⟩
  · exact ⟨fun _ h => h, fun _ h => by cases h⟩
  · exact ⟨fun _ h => h, fun _ h => by cases h⟩
  · exact ⟨fun _ h => h, fun _ h => by cases h⟩
  · exact ⟨fun _ h => h, fun _ h => Or.inl h⟩

theorem phase_call (saved : Text → Bool) (labs : ι → Text) (w : World ι) (i j : ι) (a : CallAction) :
    (step saved labs w (.call i a)).phase j = if j = i then (callStep w saved (labs i) a (w.phase i)).1 else w.phase j := Function.update_apply ..

theorem owned_step (h : Owned w) (a : Action ι) : Owned (step saved labs w a) := by
  cases a with
  | call i a =>
    obtain ⟨hkeys, hjob⟩ := callStep_job w saved (labs i) a (w.phase i)
    -- the call's directory is the one it had, or one that was not there
    have hcase (j : ι) (job : Text) (hj : ((step saved labs w (.call i a)).phase j).job = some job) :
        (w.phase j).job = some job ∨ j = i ∧ job ∉ w.dirs.keys ∧
          job ∈ (step saved labs w (.call i a)).dirs.keys := by
      rw [phase_call] at hj
      split at hj
      · rename_i hji
        rw [hji]
        exact (hjob job hj).imp_right fun h => ⟨rfl, h⟩
      · exact Or.inl hj
    constructor
    · intro j job hj
      rcases hcase j job hj with hj | ⟨_, _, hmem⟩
      · exact hkeys job (h.there j job hj)
      · exact hmem
    · intro j k job hj hk
      rcases hcase j job hj with hj | ⟨rfl, hnew, _⟩
      · rcases hcase k job hk with hk | ⟨_, hnew, _⟩
        · exact h.apart j k job hj hk
        · exact absurd (h.there j job hj) hnew
      · rcases hcase k job hk with hk | ⟨rfl, _⟩
        · exact absurd (h.there k job hk) hnew
        · rfl
  | finish job rc =>
    have hkeys : (step saved labs w (.finish job rc)).dirs.keys = w.dirs.keys := keys_changeDir
    exact ⟨fun j k hk => hkeys ▸ h.there j k hk, h.apart⟩
  | exit job =>
    have hkeys : (step saved labs w (.exit job)).dirs.keys = w.dirs.keys := keys_changeDir
    exact ⟨fun j k hk => hkeys ▸ h.there j k hk, h.apart⟩
  | others pids => exact ⟨h.there, h.apart⟩

omit [DecidableEq ι] in
theorem owned_start (dirs : Obj Text JobDir) (others : Nat → Bool) : Owned (start dirs others : World ι) :=
  ⟨fun _ _ h => (by cases h), fun _ _ _ h => (by cases h)⟩

/-- **No two calls return the same job**, in any run. -/
theorem distinct_of_reached {dirs : Obj Text JobDir} {others : Nat → Bool}
    (h : Reached (fun _ _ => True) (step saved labs) (start dirs others) w) : w.Distinct := by
  have howned : Owned w := h.invariant (owned_start dirs others) fun _ a hw _ => owned_step hw a
  intro i j job hi hj
  refine howned.apart i j job ?_ ?_
  · rw [hi]
    rfl
  · rw [hj]
    rfl

end Owned

/-! ## One job of a lab -/

section Safe

variable {ι : Type} [DecidableEq ι] {saved : Text → Bool} {labs : ι → Text} {w w' : World ι} {i : ι} {b : Phase}

/-- **What holds of a run that is clear.** -/
structure Safe (labs : ι → Text) (w : World ι) : Prop where
  fresh : ∀ i job p, w.phase i = .made job → ¬ Runs w.dirs job p
  mine : ∀ i job pid p, (w.phase i).process = some (job, pid) → Runs w.dirs job p → p = ⟨pid, labs i⟩
  source : ∀ job p, Runs w.dirs job p →
    (∃ d, w.dirs.get job = some d ∧ d.jobJson = .written ⟨p.lab, p.pid⟩) ∨
      ∃ i, labs i = p.lab ∧ (w.phase i).process = some (job, p.pid)
  one : w.AtMostOne
  quiet : ∀ i j left, w.phase i = .checking left → labs j = labs i → ¬ (w.phase j).Pending w.dirs
  single : ∀ i j, (w.phase i).Pending w.dirs → (w.phase j).Pending w.dirs → labs i = labs j → i = j
  alone : ∀ i job p, (w.phase i).Pending w.dirs → Runs w.dirs job p → p.lab = labs i →
    (w.phase i).job = some job
  seen : ∀ i left, w.phase i = .checking left → ∀ job p, Runs w.dirs job p → p.lab = labs i → job ∈ left

theorem Phase.job_of_process {ph : Phase} {job : Text} {pid : Nat} (h : ph.process = some (job, pid)) :
    ph.job = some job := by
  cases ph <;> cases h <;> rfl

theorem Phase.pending_of_process {ph : Phase} {job : Text} {pid : Nat} {dirs : Obj Text JobDir} {p : Process}
    (h : ph.process = some (job, pid)) (hp : Runs dirs job p) : ph.Pending dirs := by
  cases ph <;> cases h <;> exact ⟨p, hp⟩

omit [DecidableEq ι] in
/-- In a clear run a check finds the running job of its lab. -/
theorem Safe.visible (h : Safe labs w) : w.Visible labs := by
  intro i left hi job p hp hlab
  refine ⟨h.seen i left hi job p hp hlab, ?_⟩
  rcases h.source job p hp with ⟨d, hd, hjson⟩ | ⟨j, hj, hproc⟩
  · obtain ⟨d', hd', hprocess, hrc⟩ := hp
    obtain rfl := Option.some.inj (hd.symm.trans hd')
    have halive : w.alive p.pid = true := by
      unfold World.alive
      rw [Bool.or_eq_true, List.any_eq_true]
      refine Or.inr ⟨(job, d), Obj.mem_entries_iff.mpr hd, ?_⟩
      rw [hprocess]
      exact decide_eq_true rfl
    unfold World.check
    rw [hd]
    dsimp only
    rw [hjson]
    dsimp only
    unfold World.jobState
    rw [hrc]
    dsimp only
    rw [halive, if_pos rfl, hlab]
    simp
  · exact absurd (Phase.pending_of_process hproc hp) (h.quiet i j left hi (hj.trans hlab))

omit [DecidableEq ι] in
/-- A process ends, or its `rc` is written. -/
theorem Safe.shrink (h : Safe labs w) (hphase : w'.phase = w.phase)
    (hruns : ∀ job p, Runs w'.dirs job p → Runs w.dirs job p)
    (hjson : ∀ job d, w.dirs.get job = some d → ∃ d', w'.dirs.get job = some d' ∧ d'.jobJson = d.jobJson) :
    Safe labs w' := by
  have hpending (ph : Phase) (hp : ph.Pending w'.dirs) : ph.Pending w.dirs := by
    cases ph with
    | started job pid =>
      obtain ⟨p, hp⟩ := hp
      exact ⟨p, hruns job p hp⟩
    | writing job pid =>
      obtain ⟨p, hp⟩ := hp
      exact ⟨p, hruns job p hp⟩
    | _ => exact hp
  refine ⟨?_, ?_, ?_, ?_, ?_, ?_, ?_, ?_⟩
  all_goals try rw [hphase]
  · exact fun i job p hi hp => h.fresh i job p hi (hruns job p hp)
  · exact fun i job pid p hi hp => h.mine i job pid p hi (hruns job p hp)
  · intro job p hp
    refine (h.source job p (hruns job p hp)).imp_left ?_
    rintro ⟨d, hd, hm⟩
    obtain ⟨d', hd', he⟩ := hjson job d hd
    exact ⟨d', hd', he.trans hm⟩
  · exact fun job p job' p' hp hp' => h.one job p job' p' (hruns job p hp) (hruns job' p' hp')
  · exact fun i j left hi hlab hp => h.quiet i j left hi hlab (hpending _ hp)
  · exact fun i j hi hj => h.single i j (hpending _ hi) (hpending _ hj)
  · exact fun i job p hi hp => h.alone i job p (hpending _ hi) (hruns job p hp)
  · exact fun i left hi job p hp => h.seen i left hi job p (hruns job p hp)

/-- A call moves on without a process. -/
theorem Safe.rephase (h : Safe labs w) (hphase : ∀ j, w'.phase j = if j = i then b else w.phase j)
    (hruns : ∀ job p, Runs w'.dirs job p ↔ Runs w.dirs job p)
    (hjson : ∀ job d, w.dirs.get job = some d → w'.dirs.get job = some d)
    (hold : (w.phase i).process = none) (hnew : b.process = none)
    (hmade : ∀ job p, b = .made job → ¬ Runs w.dirs job p)
    (hpend : b.Pending w'.dirs → (∀ j, j ≠ i → labs j = labs i → ¬ (w.phase j).Pending w.dirs) ∧
      (∀ j left, j ≠ i → labs j = labs i → w.phase j ≠ .checking left) ∧
      ∀ job p, Runs w.dirs job p → p.lab ≠ labs i)
    (hcheck : ∀ left, b = .checking left → (∀ j, labs j = labs i → ¬ (w.phase j).Pending w.dirs) ∧
      ∀ job p, Runs w.dirs job p → p.lab = labs i → job ∈ left) : Safe labs w' := by
  have hi : w'.phase i = b := by rw [hphase, if_pos rfl]
  have hne {j : ι} (hj : j ≠ i) : w'.phase j = w.phase j := by rw [hphase, if_neg hj]
  have hpending {j : ι} (hj : j ≠ i) (hp : (w'.phase j).Pending w'.dirs) : (w.phase j).Pending w.dirs := by
    rw [hne hj] at hp
    cases hph : w.phase j with
    | started job pid =>
      rw [hph] at hp
      exact hp.imp fun p => (hruns job p).mp
    | writing job pid =>
      rw [hph] at hp
      exact hp.imp fun p => (hruns job p).mp
    | _ =>
      rw [hph] at hp
      exact hp
  constructor
  · intro j job p hj hp
    rw [hruns] at hp
    by_cases hji : j = i
    · rw [hji, hi] at hj
      exact hmade job p hj hp
    · rw [hne hji] at hj
      exact h.fresh j job p hj hp
  · intro j job pid p hj hp
    rw [hruns] at hp
    by_cases hji : j = i
    · rw [hji, hi, hnew] at hj
      cases hj
    · rw [hne hji] at hj
      exact h.mine j job pid p hj hp
  · intro job p hp
    rw [hruns] at hp
    rcases h.source job p hp with ⟨d, hd, hm⟩ | ⟨j, hj, hproc⟩
    · exact Or.inl ⟨d, hjson job d hd, hm⟩
    · refine Or.inr ⟨j, hj, ?_⟩
      rwa [hne]
      rintro rfl
      rw [hold] at hproc
      cases hproc
  · intro job p job' p' hp hp'
    exact h.one job p job' p' ((hruns _ _).mp hp) ((hruns _ _).mp hp')
  · intro j k left hj hlab hk
    by_cases hji : j = i
    · subst hji
      rw [hi] at hj
      have hquiet := (hcheck left hj).1
      by_cases hkj : k = j
      · rw [hkj, hi, hj] at hk
        exact hk
      · exact hquiet k hlab (hpending hkj hk)
    · rw [hne hji] at hj
      by_cases hki : k = i
      · subst hki
        rw [hi] at hk
        exact (hpend hk).2.1 j left hji hlab.symm hj
      · exact h.quiet j k left hj hlab (hpending hki hk)
  · intro j k hj hk hlab
    by_cases hji : j = i
    · subst hji
      by_contra hjk
      rw [hi] at hj
      exact (hpend hj).1 k (Ne.symm hjk) hlab.symm (hpending (Ne.symm hjk) hk)
    · by_cases hki : k = i
      · subst hki
        rw [hi] at hk
        exact absurd (hpending hji hj) ((hpend hk).1 j hji hlab)
      · exact h.single j k (hpending hji hj) (hpending hki hk) hlab
  · intro j job p hj hp hlab
    rw [hruns] at hp
    by_cases hji : j = i
    · subst hji
      rw [hi] at hj
      exact absurd hlab ((hpend hj).2.2 job p hp)
    · rw [hne hji]
      exact h.alone j job p (hpending hji hj) hp hlab
  · intro j left hj job p hp hlab
    rw [hruns] at hp
    by_cases hji : j = i
    · subst hji
      rw [hi] at hj
      exact (hcheck left hj).2 job p hp hlab
    · rw [hne hji] at hj
      exact h.seen j left hj job p hp hlab

/-- A call opens or writes its `job.json`. -/
theorem Safe.publish (h : Safe labs w) {job : Text} {pid : Nat} {m : JobJson}
    (hphase : ∀ j, w'.phase j = if j = i then b else w.phase j)
    (hdirs : w'.dirs = changeDir w.dirs job fun d => { d with jobJson := m })
    (hold : (w.phase i).process = some (job, pid))
    (hb : b = .writing job pid ∨ b = .returned job ∧ m = .written ⟨labs i, pid⟩) : Safe labs w' := by
  have hi : w'.phase i = b := by rw [hphase, if_pos rfl]
  have hne {j : ι} (hj : j ≠ i) : w'.phase j = w.phase j := by rw [hphase, if_neg hj]
  have hruns (k : Text) (p : Process) : Runs w'.dirs k p ↔ Runs w.dirs k p := by
    rw [hdirs]
    unfold Runs
    rw [get_changeDir]
    split
    · rename_i hk
      rw [hk]
      constructor
      · rintro ⟨d, hd, hp⟩
        obtain ⟨d', hd', rfl⟩ := Option.map_eq_some_iff.mp hd
        exact ⟨d', hd', hp⟩
      · rintro ⟨d, hd, hp⟩
        exact ⟨_, Option.map_eq_some_iff.mpr ⟨d, hd, rfl⟩, hp⟩
    · exact Iff.rfl
  have hjob : (w.phase i).job = some job := Phase.job_of_process hold
  have hbjob : b.job = some job := by
    rcases hb with rfl | ⟨rfl, _⟩ <;> rfl
  have hpending {j : ι} (hp : (w'.phase j).Pending w'.dirs) : (w.phase j).Pending w.dirs := by
    by_cases hji : j = i
    · rw [hji, hi] at hp
      rcases hb with rfl | ⟨rfl, _⟩
      · obtain ⟨p, hp⟩ := hp
        rw [hji]
        exact Phase.pending_of_process hold ((hruns job p).mp hp)
      · cases hp
    · rw [hne hji] at hp
      cases hph : w.phase j with
      | started k pid =>
        rw [hph] at hp
        exact hp.imp fun p => (hruns k p).mp
      | writing k pid =>
        rw [hph] at hp
        exact hp.imp fun p => (hruns k p).mp
      | _ =>
        rw [hph] at hp
        exact hp
  constructor
  · intro j k p hj hp
    by_cases hji : j = i
    · rw [hji, hi] at hj
      rcases hb with rfl | ⟨rfl, _⟩ <;> cases hj
    · rw [hne hji] at hj
      exact h.fresh j k p hj ((hruns k p).mp hp)
  · intro j k pid' p hj hp
    by_cases hji : j = i
    · rw [hji, hi] at hj
      rcases hb with rfl | ⟨rfl, _⟩
      · cases hj
        rw [hji]
        exact h.mine i job pid p hold ((hruns job p).mp hp)
      · cases hj
    · rw [hne hji] at hj
      exact h.mine j k pid' p hj ((hruns k p).mp hp)
  · intro k p hp
    rw [hruns] at hp
    by_cases hk : k = job
    · subst hk
      obtain rfl := h.mine i k pid p hold hp
      rcases hb with rfl | ⟨rfl, rfl⟩
      · exact Or.inr ⟨i, rfl, by rw [hi]; rfl⟩
      · obtain ⟨d, hd, _⟩ := hp
        refine Or.inl ⟨{ d with jobJson := .written ⟨labs i, pid⟩ }, ?_, rfl⟩
        rw [hdirs, get_changeDir, if_pos rfl, hd]
        rfl
    · rcases h.source k p hp with ⟨d, hd, hm⟩ | ⟨j, hj, hproc⟩
      · refine Or.inl ⟨d, ?_, hm⟩
        rw [hdirs, get_changeDir, if_neg hk, hd]
      · refine Or.inr ⟨j, hj, ?_⟩
        rwa [hne]
        rintro rfl
        rw [hold] at hproc
        cases hproc
        exact hk rfl
  · intro k p k' p' hp hp'
    exact h.one k p k' p' ((hruns _ _).mp hp) ((hruns _ _).mp hp')
  · intro j k left hj hlab hk
    have hji : j ≠ i := by
      rintro rfl
      rw [hi] at hj
      rcases hb with rfl | ⟨rfl, _⟩ <;> cases hj
    rw [hne hji] at hj
    exact h.quiet j k left hj hlab (hpending hk)
  · exact fun j k hj hk => h.single j k (hpending hj) (hpending hk)
  · intro j k p hj hp hlab
    have halone := h.alone j k p (hpending hj) ((hruns k p).mp hp) hlab
    by_cases hji : j = i
    · rw [hji, hi, hbjob, ← hjob, ← hji]
      exact halone
    · rwa [hne hji]
  · intro j left hj k p hp hlab
    have hji : j ≠ i := by
      rintro rfl
      rw [hi] at hj
      rcases hb with rfl | ⟨rfl, _⟩ <;> cases hj
    rw [hne hji] at hj
    exact h.seen j left hj k p ((hruns k p).mp hp) hlab

/-- A call starts its process. -/
theorem Safe.popen (h : Safe labs w) (howned : Owned w) {job : Text} {pid : Nat}
    (hphase : ∀ j, w'.phase j = if j = i then .started job pid else w.phase j)
    (hdirs : w'.dirs = changeDir w.dirs job fun d => { d with process := some ⟨pid, labs i⟩ })
    (hold : w.phase i = .made job) : Safe labs w' := by
  have hi : w'.phase i = .started job pid := by rw [hphase, if_pos rfl]
  have hne {j : ι} (hj : j ≠ i) : w'.phase j = w.phase j := by rw [hphase, if_neg hj]
  have hruns {k : Text} {p : Process} (hp : Runs w'.dirs k p) :
      k ≠ job ∧ Runs w.dirs k p ∨ k = job ∧ p = ⟨pid, labs i⟩ := by
    rw [hdirs] at hp
    exact hp.of_popen
  have hpi : (w.phase i).Pending w.dirs := by
    rw [hold]
    trivial
  have hjob {j : ι} (hji : j ≠ i) : (w.phase j).job ≠ some job := fun hj =>
    hji (howned.apart j i job hj (by rw [hold]; rfl))
  -- what another call's process runs is unchanged
  have hother {j : ι} (hji : j ≠ i) {k : Text} {p : Process} (hj : (w.phase j).job = some k)
      (hp : Runs w'.dirs k p) : Runs w.dirs k p := by
    rcases hruns hp with ⟨_, hp⟩ | ⟨rfl, _⟩
    · exact hp
    · exact absurd hj (hjob hji)
  have hpending {j : ι} (hp : (w'.phase j).Pending w'.dirs) : (w.phase j).Pending w.dirs := by
    by_cases hji : j = i
    · rwa [hji]
    · rw [hne hji] at hp
      cases hph : w.phase j with
      | started k pid' =>
        rw [hph] at hp
        exact hp.imp fun p => hother hji (by rw [hph]; rfl)
      | writing k pid' =>
        rw [hph] at hp
        exact hp.imp fun p => hother hji (by rw [hph]; rfl)
      | _ =>
        rw [hph] at hp
        exact hp
  have hnone {k : Text} {p : Process} (hp : Runs w.dirs k p) : p.lab ≠ labs i := by
    intro hlab
    have hk := h.alone i k p hpi hp hlab
    rw [hold] at hk
    cases hk
    exact h.fresh i job p hold hp
  have hchecking {j : ι} {left : List Text} (hj : w'.phase j = .checking left) :
      j ≠ i ∧ w.phase j = .checking left := by
    have hji : j ≠ i := by
      rintro rfl
      rw [hi] at hj
      cases hj
    exact ⟨hji, by rwa [← hne hji]⟩
  constructor
  · intro j k p hj hp
    have hji : j ≠ i := by
      rintro rfl
      rw [hi] at hj
      cases hj
    rw [hne hji] at hj
    exact h.fresh j k p hj (hother hji (by rw [hj]; rfl) hp)
  · intro j k pid' p hj hp
    by_cases hji : j = i
    · subst hji
      rw [hi] at hj
      cases hj
      rcases hruns hp with ⟨hk, _⟩ | ⟨_, rfl⟩
      · exact absurd rfl hk
      · rfl
    · rw [hne hji] at hj
      exact h.mine j k pid' p hj (hother hji (Phase.job_of_process hj) hp)
  · intro k p hp
    rcases hruns hp with ⟨hk, hp⟩ | ⟨rfl, rfl⟩
    · rcases h.source k p hp with ⟨d, hd, hm⟩ | ⟨j, hj, hproc⟩
      · refine Or.inl ⟨d, ?_, hm⟩
        rw [hdirs, get_changeDir, if_neg hk, hd]
      · refine Or.inr ⟨j, hj, ?_⟩
        rwa [hne]
        rintro rfl
        rw [hold] at hproc
        cases hproc
    · exact Or.inr ⟨i, rfl, by rw [hi]; rfl⟩
  · intro k p k' p' hp hp' hlab
    rcases hruns hp with ⟨_, hp⟩ | ⟨rfl, rfl⟩
    · rcases hruns hp' with ⟨_, hp'⟩ | ⟨rfl, rfl⟩
      · exact h.one k p k' p' hp hp' hlab
      · exact absurd hlab (hnone hp)
    · rcases hruns hp' with ⟨_, hp'⟩ | ⟨rfl, rfl⟩
      · exact absurd hlab.symm (hnone hp')
      · rfl
  · intro j k left hj hlab hk
    exact h.quiet j k left (hchecking hj).2 hlab (hpending hk)
  · exact fun j k hj hk => h.single j k (hpending hj) (hpending hk)
  · intro j k p hj hp hlab
    by_cases hji : j = i
    · subst hji
      rcases hruns hp with ⟨_, hp⟩ | ⟨rfl, _⟩
      · exact absurd hlab (hnone hp)
      · rw [hi]
        rfl
    · rw [hne hji]
      rcases hruns hp with ⟨_, hp⟩ | ⟨rfl, rfl⟩
      · exact h.alone j k p (hpending hj) hp hlab
      · exact absurd (h.single j i (hpending hj) hpi hlab.symm) hji
  · intro j left hj k p hp hlab
    obtain ⟨_, hj⟩ := hchecking hj
    rcases hruns hp with ⟨_, hp⟩ | ⟨rfl, rfl⟩
    · exact h.seen j left hj k p hp hlab
    · exact absurd hpi (h.quiet j i left hj hlab)

omit [DecidableEq ι] in
theorem Safe.same (h : Safe labs w) (hphase : w'.phase = w.phase) (hdirs : w'.dirs = w.dirs) :
    Safe labs w' :=
  h.shrink hphase (fun job p hp => by rwa [hdirs] at hp) fun job d hd => ⟨d, by rw [hdirs, hd], rfl⟩

theorem Safe.refuse (h : Safe labs w) (hphase : ∀ j, w'.phase j = if j = i then .refused else w.phase j)
    (hdirs : w'.dirs = w.dirs) (hold : (w.phase i).process = none) : Safe labs w' :=
  h.rephase hphase (fun _ _ => by rw [hdirs]) (fun _ _ hd => by rw [hdirs, hd]) hold rfl
    (fun _ _ hb => by cases hb) (fun hb => hb.elim) fun _ hb => by cases hb

omit [DecidableEq ι] in
/-- A pending call whose directory does not exist yet is the only one of its lab. -/
theorem Safe.picking (h : Safe labs w) {stamp : Text} {attempt : Nat} (hph : w.phase i = .picking stamp attempt) :
    (∀ j, j ≠ i → labs j = labs i → ¬ (w.phase j).Pending w.dirs) ∧
      (∀ j left, j ≠ i → labs j = labs i → w.phase j ≠ .checking left) ∧
      ∀ job p, Runs w.dirs job p → p.lab ≠ labs i := by
  have hpi : (w.phase i).Pending w.dirs := by
    rw [hph]
    trivial
  refine ⟨fun j hji hlab hj => hji (h.single j i hj hpi hlab), fun j left _ hlab hj => ?_,
    fun job p hp hlab => ?_⟩
  · exact h.quiet j i left hj hlab.symm hpi
  · have hjob := h.alone i job p hpi hp hlab
    rw [hph] at hjob
    cases hjob

/-- **A clear step of a call** keeps the run safe. -/
theorem Safe.call (h : Safe labs w) (howned : Owned w) (a : CallAction) (hclear : Clear labs w (.call i a)) :
    Safe labs (step saved labs w (.call i a)) := by
  have hphase := fun j => phase_call saved labs w i j a
  have hdirs : (step saved labs w (.call i a)).dirs = (callStep w saved (labs i) a (w.phase i)).2 := rfl
  have hstay : callStep w saved (labs i) a (w.phase i) = (w.phase i, w.dirs) →
      Safe labs (step saved labs w (.call i a)) := fun hn => by
    refine h.same (funext fun j => ?_) (hdirs.trans (congrArg Prod.snd hn))
    rw [hphase, hn]
    split
    · rename_i hji
      rw [hji]
    · rfl
  generalize hw : step saved labs w (.call i a) = w' at hphase hdirs hstay
  generalize hn : callStep w saved (labs i) a (w.phase i) = n at hphase hdirs hstay
  generalize hph : w.phase i = ph at hn hstay
  have hrefuse (hp : ph.process = none) (hb : n = (.refused, w.dirs)) : Safe labs w' := by
    rw [hb] at hphase hdirs
    exact h.refuse hphase hdirs (hph ▸ hp)
  unfold callStep at hn
  split at hn
  · -- the directories are listed
    split at hn
    · subst hn
      refine h.rephase hphase (fun _ _ => by rw [hdirs]) (fun _ _ hd => by rw [hdirs, hd]) (by rw [hph]; rfl) rfl
        (fun _ _ hb => by cases hb) (fun hb => hb.elim) fun left hb => ⟨hclear, fun job p hp _ => ?_⟩
      cases hb
      exact mem_keys_of_runs hp
    · exact hrefuse rfl hn.symm
  · -- one of them is read
    rename_i job left
    split at hn
    · split at hn
      · rename_i hmem hcheck
        subst hn
        refine h.rephase hphase (fun _ _ => by rw [hdirs]) (fun _ _ hd => by rw [hdirs, hd]) (by rw [hph]; rfl)
          rfl (fun _ _ hb => by cases hb) (fun hb => hb.elim) fun left' hb => ⟨fun j hlab => ?_, ?_⟩
        · exact h.quiet i j left hph hlab
        · intro k p hp hlab
          cases hb
          obtain ⟨hk, hrunning⟩ := h.visible i left hph k p hp hlab
          refine (List.mem_erase_of_ne ?_).mpr hk
          rintro rfl
          rw [hcheck] at hrunning
          cases hrunning
      · exact hrefuse rfl hn.symm
    · exact hstay hn.symm
  · -- none was found running
    subst hn
    refine h.rephase hphase (fun _ _ => by rw [hdirs]) (fun _ _ hd => by rw [hdirs, hd]) (by rw [hph]; rfl) rfl
      (fun _ _ hb => by cases hb) (fun _ => ⟨fun j _ hlab => h.quiet i j [] hph hlab, ?_, ?_⟩) fun _ hb => by cases hb
    · intro j left hji hlab hj
      have hnone := hclear j hji hlab
      rw [hj] at hnone
      cases hnone
    · intro job p hp hlab
      cases h.seen i [] hph job p hp hlab
  · -- the directory is made
    rename_i stamp attempt
    split at hn
    · subst hn
      exact h.rephase hphase (fun _ _ => by rw [hdirs]) (fun _ _ hd => by rw [hdirs, hd]) (by rw [hph]; rfl) rfl
        (fun _ _ hb => by cases hb) (fun _ => h.picking hph) fun _ hb => by cases hb
    · rename_i hnew
      subst hn
      refine h.rephase hphase (fun _ _ => by rw [hdirs]; exact runs_set_blank hnew) (fun job d hd => ?_)
        (by rw [hph]; rfl) rfl (fun job p hb hp => ?_) (fun _ => h.picking hph) fun _ hb => by cases hb
      · have hne : job ≠ jobId stamp attempt := fun hk => hnew (hk ▸ Obj.mem_keys_iff.mpr ⟨d, hd⟩)
        rw [hdirs, Obj.get_set, if_neg hne, hd]
      · cases hb
        exact hnew (mem_keys_of_runs hp)
  · subst hn
    exact h.popen howned hphase hdirs hph
  · subst hn
    exact h.publish hphase hdirs (by rw [hph]; rfl) (Or.inl rfl)
  · subst hn
    exact h.publish hphase hdirs (by rw [hph]; rfl) (Or.inr ⟨rfl, rfl⟩)
  · exact hrefuse rfl hn.symm
  · exact hrefuse rfl hn.symm
  · exact hrefuse rfl hn.symm
  · exact hstay hn.symm

theorem safe_step (h : Safe labs w) (howned : Owned w) (a : Action ι) (hclear : Clear labs w a) :
    Safe labs (step saved labs w a) := by
  cases a with
  | call i a => exact h.call howned a hclear
  | finish job rc =>
    refine h.shrink rfl (fun k p hp => hp.of_changeDir fun d hd hrc => ?_)
      fun k d hd => jobJson_changeDir (fun d => ?_) hd
    · split at hd
      · rename_i hc
        rw [if_pos hc] at hrc
        cases hrc
      · rename_i hc
        rw [if_neg hc] at hrc
        exact ⟨hd, hrc⟩
    · split <;> rfl
  | exit job =>
    refine h.shrink rfl (fun k p hp => hp.of_changeDir fun d hd _ => ?_)
      fun k d hd => jobJson_changeDir (fun d => ?_) hd
    · cases hd
    · rfl
  | others pids => exact h.same rfl rfl

omit [DecidableEq ι] in
/-- Calls that begin while no job has a process. -/
theorem safe_start {dirs : Obj Text JobDir} (h : ∀ job d, dirs.get job = some d → d.process = none)
    (others : Nat → Bool) : Safe labs (start dirs others : World ι) := by
  have hruns (job : Text) (p : Process) : ¬ Runs dirs job p := by
    rintro ⟨d, hd, hp, _⟩
    rw [h job d hd] at hp
    cases hp
  constructor
  · exact fun _ _ _ hi => by cases hi
  · exact fun _ _ _ _ hi => by cases hi
  · exact fun job p hp => absurd hp (hruns job p)
  · exact fun job p _ _ hp => absurd hp (hruns job p)
  · exact fun _ _ _ hi => by cases hi
  · exact fun _ _ hi => hi.elim
  · exact fun _ _ _ hi => hi.elim
  · exact fun _ _ hi => by cases hi

/-- **One job of a lab**: no two calls return the same job, in any run; and in a run in which no call is in
its check while another for its lab is pending, at most one job of a lab runs and every check finds it. -/
theorem jobs_of_reached (saved : Text → Bool) (labs : ι → Text) {dirs : Obj Text JobDir}
    (h : ∀ job d, dirs.get job = some d → d.process = none) (others : Nat → Bool) :
    (∀ w, Reached (fun _ _ => True) (step saved labs) (start dirs others) w → w.Distinct) ∧
      ∀ w, Reached (Clear labs) (step saved labs) (start dirs others) w → w.AtMostOne ∧ w.Visible labs := by
  refine ⟨fun w hw => distinct_of_reached hw, fun w hw => ?_⟩
  obtain ⟨_, hsafe⟩ := hw.invariant (I := fun w => Owned w ∧ Safe labs w)
    ⟨owned_start dirs others, safe_start h others⟩
    fun w a hw hclear => ⟨owned_step hw.1 a, safe_step hw.2 hw.1 a hclear⟩
  exact ⟨hsafe.one, hsafe.visible⟩

end Safe

/-! ## Two calls for one lab -/

/-- Two calls for a lab. -/
def twoCalls : Bool → Text := fun _ => "lab.json".toList

/-- The steps of a call that passed its check, for some attempts at a directory. -/
def creates (i : Bool) (time : Text) (pid attempts : Nat) : List (Action Bool) :=
  .call i (.accept time) :: List.replicate attempts (.call i .mkdir) ++
    [.call i (.popen pid), .call i .openMeta, .call i .writeMeta]

/-- The second call comes once the first has returned. -/
def inTurn : List (Action Bool) :=
  .call false .iterdir :: creates false "20260101-120000".toList 41 1 ++
    [.call true .iterdir, .call true (.read "lab-20260101-120000".toList)]

/-- Both calls list the directories before either makes its own. -/
def together : List (Action Bool) :=
  [.call false .iterdir, .call true .iterdir] ++ creates false "20260101-120000".toList 41 1 ++
    creates true "20260101-120000".toList 42 2


theorem jobs_of_reached_in_turn :
    (inTurn.foldl (step (fun _ => true) twoCalls) (start Obj.empty fun _ => false)).phase true = .refused ∧
      (inTurn.foldl (step (fun _ => true) twoCalls) (start Obj.empty fun _ => false)).AtMostOne :=
  ⟨by decide, ((jobs_of_reached (fun _ => true) twoCalls (fun _ _ h => by cases h) _).2 _
    (Reached.start.run (by decide))).1⟩

/-- Both jobs of the lab run. -/
theorem two_jobs_run : ¬ ∀ w, Reached (fun _ _ => True) (step (fun _ => true) twoCalls)
    (start Obj.empty fun _ => false) w → w.AtMostOne ∧ w.Visible twoCalls := by
  intro h
  obtain ⟨hone, _⟩ := h (together.foldl (step (fun _ => true) twoCalls) (start Obj.empty fun _ => false))
    (Reached.start.run (by decide))
  have hruns (job : Text) (pid : Nat) (hjob : (together.foldl (step (fun _ => true) twoCalls)
      (start Obj.empty fun _ => false)).dirs.get job =
        some ⟨.written ⟨"lab.json".toList, pid⟩, none, some ⟨pid, "lab.json".toList⟩⟩) :
      Runs (together.foldl (step (fun _ => true) twoCalls) (start Obj.empty fun _ => false)).dirs job
        ⟨pid, "lab.json".toList⟩ := ⟨_, hjob, rfl, rfl⟩
  have heq := hone _ _ _ _ (hruns "lab-20260101-120000".toList 41 (by decide))
    (hruns "lab-20260101-120000-2".toList 42 (by decide)) rfl
  exact absurd heq (by decide)

end LabInABox.Jobs
