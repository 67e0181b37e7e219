import Mathlib.Logic.Function.Basic
import LabInABox.Text.Lines

/-!
# Workers that retry in the background

Model of `launch_forever_retry`, `forever_retry_running`, `run_forever_retry_worker` and their pid files
(`libs/spacecmd_common.py`).

* A step is the check of a launch, its `Popen`, its write of the pid file, the start of a worker (which
  writes the pid file too), its success (which removes it) or its crash (which does not), or what becomes
  of a process that launches. Any number of processes take their steps in any order.
* A worker that crashes leaves its file, unless the crash unwinds its stack.
* A process id is never given twice, not even the one in a pid file that was left behind, whose text need
  not be a number.
* A worker that ended is a zombie until its parent waits for it or ends; `os.kill(pid, 0)` finds it.
* The clock and the modification times of the pid files, in nanoseconds, are there for what is read off
  them later.

Results:
* `pidPath_congr`: keys that differ in what is replaced only have one pid file.
-/

namespace LabInABox.Retry

open Text

/-! ## Paths -/

/-- `_FOREVER_RETRY_STATE_DIR`. -/
def stateDir : Text := "/var/log/lab-in-a-box/forever-retry".toList

/-- A character of the class `[A-Za-z0-9_.-]`. -/
def isKept (c : Char) : Bool := c.isAlphanum || c = '_' || c = '.' || c = '-'

/-- The rest of `re.sub(r"[^A-Za-z0-9_.-]+", "_", key)`, within a run of other characters or not. -/
def sanitiseFrom : Bool → Text → Text
  | _, [] => []
  | inRun, c :: cs =>
    if isKept c then c :: sanitiseFrom false cs
    else if inRun then sanitiseFrom true cs else '_' :: sanitiseFrom true cs

/-- `safe`, of a key. -/
def sanitise (key : Text) : Text := sanitiseFrom false key

/-- `Path(_FOREVER_RETRY_STATE_DIR) / safe`, which drops a part that is empty or a dot. -/
def basePath (key : Text) : Text :=
  if sanitise key = [] ∨ sanitise key = ['.'] then stateDir else stateDir ++ '/' :: sanitise key

/-- `_forever_retry_paths(key)`: the log and the pid file. -/
def foreverRetryPaths (key : Text) : Text × Text :=
  (basePath key ++ ".log".toList, basePath key ++ ".pid".toList)

/-- The pid file of a key. -/
def pidPath (key : Text) : Text := (foreverRetryPaths key).2

/-- **Keys of one sanitised name** have one pid file. -/
theorem pidPath_congr {key key' : Text} (h : sanitise key = sanitise key') : pidPath key = pidPath key' := by
  unfold pidPath foreverRetryPaths basePath
  rw [h]

theorem logPath_eq_iff {key key' : Text} :
    (foreverRetryPaths key).1 = (foreverRetryPaths key').1 ↔ pidPath key = pidPath key' := by
  unfold pidPath foreverRetryPaths
  rw [List.append_cancel_right_eq, List.append_cancel_right_eq]

/-! ## The state -/

/-- How far a worker is. -/
inductive Status
  | spawned
  | running
  | zombie
  | gone
  deriving DecidableEq

/-- The worker has not ended. -/
def Status.Live (status : Status) : Prop := status = .spawned ∨ status = .running

/-- A worker: its key, the process that launched it, and how far it is. -/
structure Worker (ι : Type) where
  key : Text
  parent : ι
  status : Status
  succeeded : Bool

/-- A pid file. -/
structure PidFile where
  pid : Nat
  mtime : Nat

/-- How far a process is in `launch_forever_retry`. -/
inductive Stage
  | absent
  | idle
  | checked (key : Text)
  | spawned (key : Text) (pid : Nat)
  | ended
  deriving DecidableEq

/-- The key of a launch that is past its check and has not written the pid file. -/
def Stage.pending : Stage → Option Text
  | checked key | spawned key _ => some key
  | absent | idle | ended => none

/-- A process that launches: how far it is, when it began, and the worker it relied on for each key. -/
structure Proc where
  stage : Stage
  startedAt : Nat
  handed : Text → Option Nat

/-- The clock, the pid files by their paths, the workers by their ids, and the processes. -/
structure World (ι : Type) where
  now : Nat
  files : Text → Option PidFile
  workers : Nat → Option (Worker ι)
  procs : ι → Proc

/-- A step. -/
inductive Action (ι : Type)
  | tick (d : Nat)
  | begin (p : ι)
  | launch (p : ι) (key : Text)
  | popen (p : ι) (pid : Nat)
  | record (p : ι)
  | start (pid : Nat)
  | succeed (pid : Nat)
  | crash (pid : Nat) (unwinds : Bool)
  | exit (p : ι)

/-! ## The steps -/

section Step

variable {ι : Type} [DecidableEq ι] (w : World ι)

/-- `forever_retry_running(key)`, asked by a process: `waitpid` finds its own child that ended, and then
`kill` any process that is not gone. -/
def foreverRetryRunning (p : ι) (key : Text) : Bool :=
  match (w.files (pidPath key)).bind fun f => w.workers f.pid with
  | none => false
  | some k => !(k.parent = p && k.status = .zombie) && k.status ≠ .gone

/-- A process waits for a worker, which it can where the worker is its own child that ended. -/
def Worker.reap (p : ι) (k : Worker ι) : Worker ι :=
  if k.parent = p ∧ k.status = .zombie then { k with status := .gone } else k

/-- A worker ends: it is a zombie where its parent is there to wait for it. -/
def World.over (k : Worker ι) : Worker ι :=
  { k with status := if (w.procs k.parent).stage = .ended then .gone else .zombie }

/-- The id is no process, and in no pid file. -/
def World.Fresh (pid : Nat) : Prop := w.workers pid = none ∧ ∀ path f, w.files path = some f → f.pid ≠ pid

/-- A process goes on. -/
def World.moves (p : ι) (stage : Stage) : World ι :=
  { w with procs := Function.update w.procs p { w.procs p with stage := stage } }

/-- A process relies on a worker for a key. -/
def World.relies (p : ι) (key : Text) (pid : Nat) : World ι :=
  { w with
    procs := Function.update w.procs p
      { w.procs p with handed := Function.update (w.procs p).handed key (some pid) } }

/-- One step; an action that is not possible changes nothing. -/
def step (w : World ι) : Action ι → World ι
  | .tick d => { w with now := w.now + d }
  | .begin p =>
    if (w.procs p).stage = .absent then
      { w with procs := Function.update w.procs p ⟨.idle, w.now, fun _ => none⟩ }
    else w
  | .launch p key =>
    if (w.procs p).stage = .idle then
      match w.files (pidPath key) with
      | none => w.moves p (.checked key)
      | some f =>
        if foreverRetryRunning w p key then w.relies p key f.pid
        else
          World.moves { w with
            files := Function.update w.files (pidPath key) none
            workers := Function.update w.workers f.pid ((w.workers f.pid).map (Worker.reap p)) } p
            (.checked key)
    else w
  | .popen p pid =>
    match (w.procs p).stage with
    | .checked key =>
      (World.moves { w with workers := Function.update w.workers pid (some ⟨key, p, .spawned, false⟩) } p
        (.spawned key pid)).relies p key pid
    | _ => w
  | .record p =>
    match (w.procs p).stage with
    | .spawned key pid =>
      World.moves { w with files := Function.update w.files (pidPath key) (some ⟨pid, w.now⟩) } p .idle
    | _ => w
  | .start pid =>
    match w.workers pid with
    | some k =>
      if k.status = .spawned then
        { w with
          files := Function.update w.files (pidPath k.key) (some ⟨pid, w.now⟩)
          workers := Function.update w.workers pid (some { k with status := .running }) }
      else w
    | none => w
  | .succeed pid =>
    match w.workers pid with
    | some k =>
      if k.status = .running then
        { w with
          files := Function.update w.files (pidPath k.key) none
          workers := Function.update w.workers pid (some { w.over k with succeeded := true }) }
      else w
    | none => w
  | .crash pid unwinds =>
    match w.workers pid with
    | some k =>
      if k.status = .spawned ∨ k.status = .running then
        { w with
          files :=
            if unwinds ∧ k.status = .running then Function.update w.files (pidPath k.key) none else w.files
          workers := Function.update w.workers pid (some (w.over k)) }
      else w
    | none => w
  | .exit p =>
    if (w.procs p).stage = .absent ∨ (w.procs p).stage = .ended then w
    else World.moves { w with workers := fun pid => (w.workers pid).map (Worker.reap p) } p .ended

end Step

/-! ## What is asked of a run -/

section Properties

variable {ι : Type} [DecidableEq ι] (w : World ι)

omit [DecidableEq ι] in
/-- The start: no process has begun, and there is no worker; pid files may have been left behind. -/
def World.Start : Prop := (∀ p, (w.procs p).stage = .absent) ∧ ∀ pid, w.workers pid = none

/-- A worker lives under an id. -/
def World.Lives (pid : Nat) (k : Worker ι) : Prop := w.workers pid = some k ∧ k.status.Live

omit [DecidableEq ι] in
/-- **At most one worker of a key lives.** -/
def World.OneWorker : Prop :=
  ∀ pid pid' k k', w.Lives pid k → w.Lives pid' k' → k.key = k'.key → pid = pid'

omit [DecidableEq ι] in
/-- **Workers of two keys share no file.** -/
def World.OwnFiles : Prop :=
  ∀ pid pid' k k', w.workers pid = some k → w.workers pid' = some k' → k.key ≠ k'.key →
    (foreverRetryPaths k.key).1 ≠ (foreverRetryPaths k'.key).1 ∧
      (foreverRetryPaths k.key).2 ≠ (foreverRetryPaths k'.key).2

/-- **A launch for a key without a live worker** starts one. -/
def World.LaunchStarts (p : ι) (key : Text) : Prop :=
  (w.procs p).stage = .idle → (∀ pid k, w.Lives pid k → k.key ≠ key) →
    ∀ pid, ∃ k, (step (step w (.launch p key)) (.popen p pid)).Lives pid k ∧ k.key = key

omit [DecidableEq ι] in
/-- The id of a new process was never given, and is in no pid file. -/
def NotReused (w : World ι) : Action ι → Prop
  | .popen _ pid => w.Fresh pid
  | _ => True

omit [DecidableEq ι] in
/-- **A clear step**: no launch comes while another for its pid file is between its check and its write, nor
while a worker that was started has not written it, nor where that file is another key's. -/
def Clear (w : World ι) : Action ι → Prop
  | .launch _ key =>
    (∀ q key', (w.procs q).stage.pending = some key' → pidPath key' ≠ pidPath key) ∧
      (∀ pid k, w.workers pid = some k → k.status = .spawned → pidPath k.key = pidPath key →
        ∃ t, w.files (pidPath key) = some ⟨pid, t⟩) ∧
      ∀ pid k, w.workers pid = some k → pidPath k.key = pidPath key → k.key = key
  | _ => True

omit [DecidableEq ι] in
/-- The pid file of a key names no worker that ended and that another process has not waited for. -/
def World.Reaped (p : ι) (key : Text) : Prop :=
  ∀ f k, w.files (pidPath key) = some f → w.workers f.pid = some k → k.status = .zombie → k.parent = p

end Properties

/-- Two processes that have not begun, and no pid file. -/
def quiet : World Bool := ⟨0, fun _ => none, fun _ => none, fun _ => ⟨.absent, 0, fun _ => none⟩⟩

theorem start_quiet : quiet.Start := ⟨fun _ => rfl, fun _ => rfl⟩

end LabInABox.Retry
