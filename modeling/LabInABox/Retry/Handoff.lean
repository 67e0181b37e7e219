import LabInABox.Retry.Exclusive
import LabInABox.Setup.Phases

/-!
# Work that is handed off

Model of `forever_retry_handoff_since` (`libs/spacecmd_common.py`), from which `_addon_status`
(`scripts/setup_lab.py`) tells an add-on that handed a step to a worker from one that is done.

* The add-on is the process that launches; it began right after `_addon_status` has its `started_at`. The
  clock of the files is that of the processes.
* What `forever_retry_handoff_since` returns is a relation: the directory is not listed.
* The status is read in the state the exit of the add-on leaves.

Results:
* `reported_of_reached`: an add-on that relied on a worker that has not succeeded is pending, and the
  summary does not say that the lab is OK, as long as each worker that a launch found had its pid file
  written since the add-on began, and no pid file is removed of a worker that did not succeed and that
  another add-on, which still runs, relied on.
-/

namespace LabInABox.Retry

open Text

/-! ## The pid files of the state directory -/

/-- A path that `Path(_FOREVER_RETRY_STATE_DIR).glob("*.pid")` may yield. -/
def Globbed (path : Text) : Prop := ∃ name, '/' ∉ name ∧ path = stateDir ++ '/' :: name ++ ".pid".toList

theorem slash_not_mem_sanitiseFrom (inRun : Bool) (key : Text) : '/' ∉ sanitiseFrom inRun key := by
  induction key generalizing inRun with
  | nil => exact List.not_mem_nil
  | cons c cs ih =>
    unfold sanitiseFrom
    split
    · rename_i hkept
      rw [List.mem_cons, not_or]
      refine ⟨?_, ih false⟩
      rintro rfl
      exact absurd hkept (by decide)
    · split
      · exact ih true
      · rw [List.mem_cons, not_or]
        exact ⟨by decide, ih true⟩

theorem sanitise_ne_nil {key : Text} (h : key ≠ []) : sanitise key ≠ [] := by
  cases key with
  | nil => exact absurd rfl h
  | cons c cs =>
    unfold sanitise sanitiseFrom
    split
    · exact List.cons_ne_nil _ _
    · exact List.cons_ne_nil _ _

theorem sanitise_ne_dot {key : Text} (h : key ≠ ['.']) : sanitise key ≠ ['.'] := by
  cases key with
  | nil => exact (List.cons_ne_nil _ _).symm
  | cons c cs =>
    unfold sanitise sanitiseFrom
    split
    · intro hdot
      obtain ⟨rfl, hcs⟩ := List.cons.inj hdot
      refine h ?_
      cases cs with
      | nil => rfl
      | cons d ds => exact absurd hcs (sanitise_ne_nil (List.cons_ne_nil d ds))
    · intro hdot
      exact absurd (List.cons.inj hdot).1 (by decide)

/-- **The pid file of a key is listed**, unless the key is empty or a dot. -/
theorem globbed_pidPath {key : Text} (hnil : key ≠ []) (hdot : key ≠ ['.']) : Globbed (pidPath key) := by
  refine ⟨sanitise key, slash_not_mem_sanitiseFrom false key, ?_⟩
  unfold pidPath foreverRetryPaths basePath
  rw [if_neg]
  rintro (h | h)
  · exact sanitise_ne_nil hnil h
  · exact sanitise_ne_dot hdot h

/-! ## What is asked of a run -/

section Properties

variable {ι : Type} [DecidableEq ι] (w : World ι)

/-- The two seconds of grace. -/
def grace : Nat := 2000000000

/-- `forever_retry_handoff_since(ts)` returns a value. -/
def HandoffSince (ts : Nat) (r : Bool) : Prop :=
  r = true ↔ ∃ path f, Globbed path ∧ w.files path = some f ∧ ts ≤ f.mtime + grace

/-- **An add-on that relied on a worker** that has not succeeded by its exit is pending, and the summary
does not say that the lab is OK. -/
def World.Reported : Prop :=
  ∀ p key pid k, (w.procs p).stage = .idle → (w.procs p).handed key = some pid → w.workers pid = some k →
    k.succeeded = false → ∀ r, HandoffSince (step w (.exit p)) (w.procs p).startedAt r →
      Setup.addonStatus ⟨0, r⟩ = "pending".toList ∧
        ∀ scope name log warnings, .addon scope name (Setup.addonStatus ⟨0, r⟩) ∈ log →
          ¬ ((Setup.report log).closing warnings).Ok

/-- The process has begun and has not ended. -/
def Stage.Active (stage : Stage) : Prop := stage ≠ .absent ∧ stage ≠ .ended

/-- **A step that is seen**: a launch of a key that has a listed pid file, where a worker that is found had
it written since the process began, and one that is not found, or that ends with its stack unwound, has
succeeded or is not one that another running process relied on. -/
def Seen (w : World ι) : Action ι → Prop
  | .launch p key =>
    key ≠ [] ∧ key ≠ ['.'] ∧ ∀ f, w.files (pidPath key) = some f →
      (foreverRetryRunning w p key = true → (w.procs p).startedAt ≤ f.mtime + grace) ∧
      (foreverRetryRunning w p key = false → ∀ q key' k, q ≠ p → (w.procs q).stage.Active →
        (w.procs q).handed key' = some f.pid → w.workers f.pid = some k → k.succeeded = true)
  | .crash pid unwinds => unwinds = true → ∀ q key, (w.procs q).stage.Active → (w.procs q).handed key ≠ some pid
  | _ => True

end Properties

/-! ## The invariant -/

section Told

variable {ι : Type} [DecidableEq ι] {w w' : World ι} {c : Proc}

/-- **What holds of a process that runs**: each worker it relied on and that has not succeeded is named in a
pid file of its time, or is about to be. -/
structure Told (w : World ι) (c : Proc) : Prop where
  since : c.startedAt ≤ w.now
  pending : ∀ key, c.stage.pending = some key → Globbed (pidPath key)
  keyed : ∀ key pid, c.handed key = some pid → Globbed (pidPath key) ∧ ∃ k, w.workers pid = some k ∧ k.key = key
  traced : ∀ key pid k, c.handed key = some pid → w.workers pid = some k → k.succeeded = false →
    c.stage = .checked key ∨ c.stage = .spawned key pid ∨
      ∃ t, w.files (pidPath key) = some ⟨pid, t⟩ ∧ c.startedAt ≤ t + grace

omit [DecidableEq ι] in
/-- Workers go on or end, and the files that matter to a process stay. -/
theorem Told.frame (h : Told w c) (hnow : w.now ≤ w'.now)
    (hworkers : ∀ pid k, w.workers pid = some k → ∃ k', w'.workers pid = some k' ∧ k'.key = k.key ∧
      (k'.succeeded = false → k.succeeded = false))
    (hfiles : ∀ key pid k t, c.handed key = some pid → w'.workers pid = some k → k.succeeded = false →
      w.files (pidPath key) = some ⟨pid, t⟩ → ∃ t', w'.files (pidPath key) = some ⟨pid, t'⟩ ∧ (t ≤ t' ∨ w.now ≤ t')) :
    Told w' c := by
  constructor
  · exact h.since.trans hnow
  · exact h.pending
  · intro key pid hc
    obtain ⟨hglob, k, hk, hkey⟩ := h.keyed key pid hc
    obtain ⟨k', hk', hkey', _⟩ := hworkers pid k hk
    exact ⟨hglob, k', hk', hkey'.trans hkey⟩
  · intro key pid k' hc hk' hs
    obtain ⟨_, k, hk, _⟩ := h.keyed key pid hc
    obtain ⟨k₁, hk₁, _, hs₁⟩ := hworkers pid k hk
    obtain rfl := Option.some.inj (hk₁.symm.trans hk')
    refine (h.traced key pid k hc hk (hs₁ hs)).imp_right (Or.imp_right ?_)
    rintro ⟨t, hf, ht⟩
    obtain ⟨t', hf', hle⟩ := hfiles key pid k₁ t hc hk' hs hf
    refine ⟨t', hf', ?_⟩
    rcases hle with hle | hle
    · omega
    · have := h.since
      omega

omit [DecidableEq ι] in
/-- The process of a step that touches neither workers nor files. -/
theorem Told.same (h : Told w c) (hnow : w.now ≤ w'.now) (hworkers : w'.workers = w.workers)
    (hfiles : w'.files = w.files) : Told w' c := by
  refine h.frame hnow (fun pid k hk => ?_) fun key pid k t _ _ _ hf => ?_
  · rw [hworkers]
    exact ⟨k, hk, rfl, id⟩
  · rw [hfiles]
    exact ⟨t, hf, Or.inl le_rfl⟩

omit [DecidableEq ι] in
/-- A process at rest goes past the check of a launch, which may have removed its pid file. -/
theorem Told.check {key : Text} (h : Told w c) (hidle : c.stage = .idle) (hglob : Globbed (pidPath key))
    (hnow : w'.now = w.now)
    (hworkers : ∀ pid k, w.workers pid = some k → ∃ k', w'.workers pid = some k' ∧ k'.key = k.key ∧
      (k'.succeeded = false → k.succeeded = false))
    (hkey : ∀ key' pid, c.handed key' = some pid → pidPath key' = pidPath key → key' = key)
    (hfiles : ∀ path, path ≠ pidPath key → w'.files path = w.files path) :
    Told w' { c with stage := .checked key } := by
  constructor
  · rw [hnow]
    exact h.since
  · intro key' hp
    obtain rfl := Option.some.inj hp
    exact hglob
  · intro key' pid hc
    obtain ⟨hglob', k, hk, hk'⟩ := h.keyed key' pid hc
    obtain ⟨k', hw', hkey', _⟩ := hworkers pid k hk
    exact ⟨hglob', k', hw', hkey'.trans hk'⟩
  · intro key' pid k' hc hk' hs
    by_cases hpath : pidPath key' = pidPath key
    · exact Or.inl (congrArg Stage.checked (hkey key' pid hc hpath).symm)
    · obtain ⟨_, k, hk, _⟩ := h.keyed key' pid hc
      obtain ⟨k₁, hk₁, _, hs₁⟩ := hworkers pid k hk
      obtain rfl := Option.some.inj (hk₁.symm.trans hk')
      rcases h.traced key' pid k hc hk (hs₁ hs) with hst | hst | hfile
      · rw [hidle] at hst
        cases hst
      · rw [hidle] at hst
        cases hst
      · rw [hfiles _ hpath]
        exact Or.inr (Or.inr hfile)

omit [DecidableEq ι] in
/-- A process relies on a worker that is found, in a file of its time. -/
theorem Told.found {key : Text} {f : PidFile} {k : Worker ι} (h : Told w c) (hglob : Globbed (pidPath key))
    (hf : w.files (pidPath key) = some f) (hk : w.workers f.pid = some k) (hkey : k.key = key)
    (ht : c.startedAt ≤ f.mtime + grace) :
    Told w { c with handed := Function.update c.handed key (some f.pid) } := by
  have hcase {key' : Text} {pid : Nat} (hc : Function.update c.handed key (some f.pid) key' = some pid) :
      key' = key ∧ pid = f.pid ∨ c.handed key' = some pid := by
    rw [Function.update_apply] at hc
    split at hc
    · rename_i he
      exact Or.inl ⟨he, (Option.some.inj hc).symm⟩
    · exact Or.inr hc
  constructor
  · exact h.since
  · exact h.pending
  · intro key' pid hc
    rcases hcase hc with ⟨rfl, rfl⟩ | hc
    · exact ⟨hglob, k, hk, hkey⟩
    · exact h.keyed key' pid hc
  · intro key' pid k' hc hk' hs
    rcases hcase hc with ⟨rfl, rfl⟩ | hc
    · exact Or.inr (Or.inr ⟨f.mtime, hf, ht⟩)
    · exact h.traced key' pid k' hc hk' hs

omit [DecidableEq ι] in
/-- A process relies on the worker it starts. -/
theorem Told.popen {key : Text} {pid : Nat} {k : Worker ι} (h : Told w c) (hstage : c.stage = .checked key)
    (hk : w.workers pid = some k) (hkey : k.key = key) :
    Told w { c with stage := .spawned key pid, handed := Function.update c.handed key (some pid) } := by
  have hglob : Globbed (pidPath key) := h.pending key (by rw [hstage]; rfl)
  constructor
  · exact h.since
  · intro key' hp
    obtain rfl := Option.some.inj hp
    exact hglob
  · intro key' pid' hc
    dsimp only at hc
    rw [Function.update_apply] at hc
    split at hc
    · rename_i he
      obtain rfl := Option.some.inj hc
      rw [he]
      exact ⟨hglob, k, hk, hkey⟩
    · exact h.keyed key' pid' hc
  · intro key' pid' k' hc hk' hs
    dsimp only at hc
    rw [Function.update_apply] at hc
    split at hc
    · rename_i he
      rw [he, Option.some.inj hc]
      exact Or.inr (Or.inl rfl)
    · rename_i hne
      rcases h.traced key' pid' k' hc hk' hs with hst | hst | hfile
      · rw [hstage] at hst
        exact absurd (Stage.checked.inj hst).symm hne
      · rw [hstage] at hst
        cases hst
      · exact Or.inr (Or.inr hfile)

omit [DecidableEq ι] in
/-- A process has written the pid file of the worker it started. -/
theorem Told.record {key : Text} {pid : Nat} (h : Told w c) (hstage : c.stage = .spawned key pid)
    (hf : w.files (pidPath key) = some ⟨pid, w.now⟩) : Told w { c with stage := .idle } := by
  constructor
  · exact h.since
  · intro key' hp
    cases hp
  · exact h.keyed
  · intro key' pid' k' hc hk' hs
    rcases h.traced key' pid' k' hc hk' hs with hst | hst | hfile
    · rw [hstage] at hst
      cases hst
    · rw [hstage] at hst
      obtain ⟨rfl, rfl⟩ := Stage.spawned.inj hst
      exact Or.inr (Or.inr ⟨w.now, hf, h.since.trans (Nat.le_add_right _ _)⟩)
    · exact Or.inr (Or.inr hfile)

/-- Every process that runs is told. -/
def World.AllTold (w : World ι) : Prop := ∀ p, (w.procs p).stage.Active → Told w (w.procs p)

theorem procs_moves (w : World ι) (p q : ι) (stage : Stage) :
    (w.moves p stage).procs q = if q = p then { w.procs p with stage := stage } else w.procs q :=
  Function.update_apply ..

theorem procs_relies (w : World ι) (p q : ι) (key : Text) (pid : Nat) : (w.relies p key pid).procs q =
    if q = p then { w.procs p with handed := Function.update (w.procs p).handed key (some pid) } else w.procs q :=
  Function.update_apply ..

theorem handed_relies (w : World ι) (p : ι) (key : Text) (pid : Nat) :
    ((w.relies p key pid).procs p).handed key = some pid := by
  rw [procs_relies, if_pos rfl]
  exact Function.update_self ..

theorem reap_key (p : ι) (k : Worker ι) : (k.reap p).key = k.key := by
  unfold Worker.reap
  split <;> rfl

theorem reap_succeeded (p : ι) (k : Worker ι) : (k.reap p).succeeded = k.succeeded := by
  unfold Worker.reap
  split <;> rfl

/-! ## The steps -/

/-- A launch. -/
theorem told_launch (h : w.AllTold) (hs : Sound w) {p : ι} {key : Text} (hclear : Clear w (.launch p key))
    (hseen : Seen w (.launch p key)) : (step w (.launch p key)).AllTold := by
  obtain ⟨_, _, hkey⟩ := hclear
  obtain ⟨hnil, hdot, hfile⟩ := hseen
  have hglob : Globbed (pidPath key) := globbed_pidPath hnil hdot
  -- what the process relied on in the file of the key was a worker of the key
  have hown {key' : Text} {pid : Nat} (hidle : (w.procs p).stage = .idle)
      (hc : (w.procs p).handed key' = some pid) (hpath : pidPath key' = pidPath key) : key' = key := by
    obtain ⟨_, k, hk, hkey'⟩ := (h p (by rw [hidle]; exact ⟨by simp, by simp⟩)).keyed key' pid hc
    rw [← hkey'] at hpath ⊢
    exact hkey pid k hk hpath
  unfold step
  dsimp only
  split
  · rename_i hidle
    have hactive : (w.procs p).stage.Active := by
      rw [hidle]
      exact ⟨by simp, by simp⟩
    split
    · intro q hq
      rw [procs_moves] at hq ⊢
      split at hq
      · rw [if_pos ‹_›]
        exact (h p hactive).check hidle hglob rfl (fun pid k hk => ⟨k, hk, rfl, id⟩)
          (fun key' pid hc hpath => hown hidle hc hpath) fun path _ => rfl
      · rw [if_neg ‹_›]
        exact (h q hq).same le_rfl rfl rfl
    · rename_i f hf
      obtain ⟨hfound, hgone⟩ := hfile f hf
      split
      · rename_i hr
        intro q hq
        rw [procs_relies] at hq ⊢
        split at hq
        · rw [if_pos ‹_›]
          cases hk : w.workers f.pid with
          | none =>
            unfold foreverRetryRunning at hr
            rw [hf, Option.bind_some, hk] at hr
            cases hr
          | some k =>
            exact ((h p hactive).found hglob hf hk (hkey f.pid k hk (hs.named _ f k hf hk)) (hfound hr)).same
              le_rfl rfl rfl
        · rw [if_neg ‹_›]
          exact (h q hq).same le_rfl rfl rfl
      · rename_i hr
        rw [Bool.not_eq_true] at hr
        generalize hw : ({ w with
          files := Function.update w.files (pidPath key) none
          workers := Function.update w.workers f.pid ((w.workers f.pid).map (Worker.reap p)) } : World ι) = w'
        have hworkers (pid : Nat) (k : Worker ι) (hk : w.workers pid = some k) :
            ∃ k', w'.workers pid = some k' ∧ k'.key = k.key ∧ (k'.succeeded = false → k.succeeded = false) := by
          rw [← hw]
          dsimp only
          rw [Function.update_apply]
          split
          · rename_i hp
            rw [← hp, hk]
            exact ⟨_, rfl, reap_key p k, fun hs => by rwa [reap_succeeded] at hs⟩
          · exact ⟨k, hk, rfl, id⟩
        have hfiles (path : Text) (hne : path ≠ pidPath key) : w'.files path = w.files path := by
          rw [← hw]
          exact Function.update_of_ne hne ..
        have hnow : w'.now = w.now := by rw [← hw]
        have hprocs : w'.procs = w.procs := by rw [← hw]
        intro q hq
        rw [procs_moves, hprocs] at hq ⊢
        split at hq
        · rw [if_pos ‹_›]
          exact ((h p hactive).check hidle hglob hnow hworkers (fun key' pid hc hpath => hown hidle hc hpath)
            hfiles).same le_rfl rfl rfl
        · rename_i hqp
          rw [if_neg hqp]
          have hkept : Told w' (w.procs q) := by
            refine (h q hq).frame hnow.ge hworkers fun key' pid k' t hc hk' hs' hf' => ?_
            have hne : pidPath key' ≠ pidPath key := by
              intro hpath
              rw [hpath, hf] at hf'
              obtain rfl := Option.some.inj hf'
              obtain ⟨_, k, hk, _⟩ := (h q hq).keyed key' pid hc
              obtain ⟨k₁, hk₁, _, hs₁⟩ := hworkers pid k hk
              obtain rfl := Option.some.inj (hk₁.symm.trans hk')
              have hdone := hgone hr q key' k hqp hq hc hk
              rw [hs₁ hs'] at hdone
              cases hdone
            rw [hfiles _ hne]
            exact ⟨t, hf', Or.inl le_rfl⟩
          exact hkept.same le_rfl rfl rfl
  · exact h

/-- A worker is started. -/
theorem told_popen (h : w.AllTold) {p : ι} {pid : Nat} (hid : w.Fresh pid) : (step w (.popen p pid)).AllTold := by
  unfold step
  dsimp only
  split
  · rename_i key hstage
    generalize hw : ({ w with
      workers := Function.update w.workers pid (some ⟨key, p, .spawned, false⟩) } : World ι) = w'
    have hprocs : w'.procs = w.procs := by rw [← hw]
    have hkept {q : ι} (hq : (w.procs q).stage.Active) : Told w' (w.procs q) := by
      refine (h q hq).frame (by rw [← hw]) (fun pid' k hk => ⟨k, ?_, rfl, id⟩) fun key' pid' k t _ _ _ hf =>
        ⟨t, by rw [← hw]; exact hf, Or.inl le_rfl⟩
      rw [← hw]
      refine (Function.update_of_ne ?_ ..).trans hk
      rintro rfl
      rw [hid.1] at hk
      cases hk
    intro q hq
    rw [procs_relies, procs_moves, procs_moves, if_pos rfl, hprocs] at hq ⊢
    split at hq
    · rw [if_pos ‹_›]
      have hactive : (w.procs p).stage.Active := by
        rw [hstage]
        exact ⟨by simp, by simp⟩
      have hworker : w'.workers pid = some ⟨key, p, .spawned, false⟩ := by
        rw [← hw]
        exact Function.update_self ..
      exact ((hkept hactive).popen hstage hworker rfl).same le_rfl rfl rfl
    · rename_i hqp
      rw [if_neg hqp, if_neg hqp]
      exact (hkept hq).same le_rfl rfl rfl
  · exact h

/-- A process writes the pid file of the worker it started. -/
theorem told_record (h : w.AllTold) (hs : Sound w) (p : ι) : (step w (.record p)).AllTold := by
  unfold step
  dsimp only
  split
  · rename_i key pid hstage
    generalize hw : ({ w with
      files := Function.update w.files (pidPath key) (some ⟨pid, w.now⟩) } : World ι) = w'
    have hprocs : w'.procs = w.procs := by rw [← hw]
    have hworkers : w'.workers = w.workers := by rw [← hw]
    have hpend : (w.procs p).stage.pending = some key := by
      rw [hstage]
      rfl
    have hkept {q : ι} (hq : (w.procs q).stage.Active) : Told w' (w.procs q) := by
      refine (h q hq).frame (by rw [← hw]) (fun pid' k hk => ⟨k, by rw [hworkers, hk], rfl, id⟩)
        fun key' pid' k t _ _ _ hf => ?_
      rw [← hw]
      dsimp only
      rw [Function.update_apply]
      split
      · rename_i hpath
        rw [hpath] at hf
        have hst := hs.pendingFile p key _ hpend hf
        rw [hstage] at hst
        exact ⟨w.now, by rw [(Stage.spawned.inj hst).2], Or.inr le_rfl⟩
      · exact ⟨t, hf, Or.inl le_rfl⟩
    intro q hq
    rw [procs_moves, hprocs] at hq ⊢
    split at hq
    · rw [if_pos ‹_›]
      have hactive : (w.procs p).stage.Active := by
        rw [hstage]
        exact ⟨by simp, by simp⟩
      refine ((hkept hactive).record hstage ?_).same le_rfl rfl rfl
      rw [← hw]
      exact Function.update_self ..
    · rw [if_neg ‹_›]
      exact (hkept hq).same le_rfl rfl rfl
  · exact h

omit [DecidableEq ι] in
/-- A worker goes on or ends, and writes or removes its own pid file. -/
theorem told_own (h : w.AllTold) (hs : Sound w) {pid : Nat} {k k' : Worker ι} (hk : w.Lives pid k)
    (hprocs : w'.procs = w.procs) (hnow : w'.now = w.now)
    (hworkers : w'.workers = Function.update w.workers pid (some k')) (hkey : k'.key = k.key)
    (hsucceeded : k'.succeeded = false → k.succeeded = false)
    (hfiles : w'.files = w.files ∨ w'.files = Function.update w.files (pidPath k.key) (some ⟨pid, w.now⟩) ∨
      w'.files = Function.update w.files (pidPath k.key) none ∧
        (k'.succeeded = false → ∀ q key, (w.procs q).stage.Active → (w.procs q).handed key ≠ some pid)) :
    w'.AllTold := by
  intro q hq
  rw [hprocs] at hq ⊢
  refine (h q hq).frame hnow.ge (fun pid' k₀ hk₀ => ?_) fun key pid' k₀ t hc hk₀ hs₀ hf => ?_
  · rw [hworkers, Function.update_apply]
    split
    · rename_i hp
      rw [hp, hk.1] at hk₀
      obtain rfl := Option.some.inj hk₀
      exact ⟨k', rfl, hkey, hsucceeded⟩
    · exact ⟨k₀, hk₀, rfl, id⟩
  · have hown (hpath : pidPath key = pidPath k.key) : pid' = pid := by
      rw [hpath] at hf
      exact hs.names pid k _ hk hf
    rcases hfiles with hfiles | hfiles | ⟨hfiles, hne⟩
    · rw [hfiles]
      exact ⟨t, hf, Or.inl le_rfl⟩
    · rw [hfiles, Function.update_apply]
      split
      · exact ⟨w.now, by rw [hown ‹_›], Or.inr le_rfl⟩
      · exact ⟨t, hf, Or.inl le_rfl⟩
    · rw [hfiles, Function.update_apply]
      split
      · rw [hown ‹_›] at hc hk₀
        rw [hworkers, Function.update_self] at hk₀
        rw [Option.some.inj hk₀] at hne
        exact absurd hc (hne hs₀ q key hq)
      · exact ⟨t, hf, Or.inl le_rfl⟩

/-- **A clear step that is seen** keeps every process told. -/
theorem told_step (h : w.AllTold) (hs : Sound w) {a : Action ι} (hid : NotReused w a) (hclear : Clear w a)
    (hseen : Seen w a) : (step w a).AllTold := by
  cases a with
  | tick d => exact fun q hq => (h q hq).same (Nat.le_add_right _ _) rfl rfl
  | begin p =>
    unfold step
    dsimp only
    split
    · intro q hq
      dsimp only at hq ⊢
      rw [Function.update_apply] at hq ⊢
      split at hq
      · rw [if_pos ‹_›]
        refine ⟨le_rfl, ?_, ?_, ?_⟩
        · intro key hp
          cases hp
        · intro key pid hc
          cases hc
        · intro key pid k hc
          cases hc
      · rw [if_neg ‹_›]
        exact (h q hq).same le_rfl rfl rfl
    · exact h
  | launch p key => exact told_launch h hs hclear hseen
  | popen p pid => exact told_popen h hid
  | record p => exact told_record h hs p
  | start pid =>
    unfold step
    dsimp only
    split
    · rename_i k hk
      split
      · exact told_own h hs ⟨hk, Or.inl ‹_›⟩ rfl rfl rfl rfl id (Or.inr (Or.inl rfl))
      · exact h
    · exact h
  | succeed pid =>
    unfold step
    dsimp only
    split
    · rename_i k hk
      split
      · refine told_own h hs ⟨hk, Or.inr ‹_›⟩ rfl rfl rfl rfl ?_ (Or.inr (Or.inr ⟨rfl, ?_⟩))
        · intro hf
          cases hf
        · intro hf
          cases hf
      · exact h
    · exact h
  | crash pid unwinds =>
    unfold step
    dsimp only
    split
    · rename_i k hk
      split
      · refine told_own h hs ⟨hk, ‹_›⟩ rfl rfl rfl rfl id ?_
        dsimp only
        split
        · rename_i hu
          exact Or.inr (Or.inr ⟨rfl, fun _ => hseen hu.1⟩)
        · exact Or.inl rfl
      · exact h
    · exact h
  | exit p =>
    unfold step
    dsimp only
    split
    · exact h
    · intro q hq
      rw [procs_moves] at hq ⊢
      split at hq
      · exact absurd rfl hq.2
      · rw [if_neg ‹_›]
        refine (h q hq).frame le_rfl (fun pid k hk => ?_) fun key pid k t _ _ _ hf => ⟨t, hf, Or.inl le_rfl⟩
        refine ⟨k.reap p, ?_, reap_key p k, fun hf => by rwa [reap_succeeded] at hf⟩
        show (w.workers pid).map (Worker.reap p) = _
        rw [hk]
        rfl

omit [DecidableEq ι] in
theorem told_start (h : w.Start) : w.AllTold := fun p hp => absurd (h.1 p) hp.1

/-- Every process that runs is told. -/
theorem told_of_reached {w₀ : World ι} (h₀ : w₀.Start)
    (h : Reached (fun w a => NotReused w a ∧ Clear w a ∧ Seen w a) step w₀ w) : Sound w ∧ w.AllTold :=
  Reached.invariant (I := fun w => Sound w ∧ w.AllTold) h ⟨sound_start h₀, told_start h₀⟩ fun _ _ hs hok =>
    ⟨sound_step hs.1 hok.1 hok.2.1, told_step hs.2 hs.1 hok.1 hok.2.1 hok.2.2⟩

end Told

/-! ## The status of an add-on -/

section Status

variable {ι : Type} [DecidableEq ι] {w : World ι}

theorem files_exit (p : ι) : (step w (.exit p)).files = w.files := by
  unfold step
  dsimp only
  split <;> rfl

theorem World.AllTold.reported (h : w.AllTold) : w.Reported := by
  intro p key pid k hidle hc hk hs r hr
  have htold : Told w (w.procs p) := h p (by rw [hidle]; exact ⟨by simp, by simp⟩)
  have hseen : r = true := by
    refine hr.mpr ?_
    rw [files_exit]
    rcases htold.traced key pid k hc hk hs with hst | hst | ⟨t, hf, ht⟩
    · rw [hidle] at hst
      cases hst
    · rw [hidle] at hst
      cases hst
    · exact ⟨_, _, (htold.keyed key pid hc).1, hf, ht⟩
  rw [hseen]
  exact ⟨rfl, fun scope name log warnings hlog => Setup.not_ok_of_pending hlog warnings⟩

/-- **Unfinished work is not reported as done**, in every run whose steps are clear and seen. -/
theorem reported_of_reached {w₀ : World ι} (h₀ : w₀.Start)
    (h : Reached (fun w a => NotReused w a ∧ Clear w a ∧ Seen w a) step w₀ w) : w.Reported :=
  (told_of_reached h₀ h).2.reported

end Status

theorem reported_of_reached_held : World.Reported ((held ['a']).foldl step quiet) := by
  refine reported_of_reached start_quiet (Reached.start.run ?_)
  refine ⟨⟨trivial, trivial, trivial⟩, ⟨trivial, trivial, trivial⟩, ⟨trivial, ⟨?_, ?_, ?_⟩, ?_, ?_, ?_⟩,
    ⟨⟨rfl, ?_⟩, trivial, trivial⟩, ⟨trivial, trivial, trivial⟩, trivial⟩
  · rintro (_ | _) key' hq <;> cases hq
  · intro pid k hk
    cases hk
  · intro pid k hk
    cases hk
  · exact List.cons_ne_nil _ _
  · decide
  · intro f hf
    cases hf
  · intro path f hf
    cases hf

/-- An add-on launches a key and ends; another run of it begins after the grace. -/
def firstRun (key : Text) : List (Action Bool) :=
  [.begin false, .launch false key, .popen false 100, .record false, .start 100, .exit false, .tick (grace + 1),
    .begin true]

theorem files_firstRun (key : Text) : ((firstRun key).foldl step quiet).files =
    Function.update (Function.update (fun _ => none) (pidPath key) (some ⟨100, 0⟩)) (pidPath key) (some ⟨100, 0⟩) :=
  rfl

/-- The second run relies on the worker of the first. -/
theorem launch_firstRun (key : Text) :
    step ((firstRun key).foldl step quiet) (.launch true key) =
      ((firstRun key).foldl step quiet).relies true key 100 := by
  have hfile : ((firstRun key).foldl step quiet).files (pidPath key) = some ⟨100, 0⟩ := by
    rw [files_firstRun, Function.update_self]
  have hr : foreverRetryRunning ((firstRun key).foldl step quiet) true key = true := by
    unfold foreverRetryRunning
    rw [hfile]
    rfl
  exact launch_relies rfl hfile hr

/-- **A second run of an add-on** that finds the worker of the first is told as done. -/
theorem rerun_reported_ok : ∃ w, Reached NotReused step quiet w ∧ ¬ w.Reported := by
  have hreached : Reached NotReused step quiet ((firstRun ['a']).foldl step quiet) := by
    refine Reached.start.run ⟨trivial, trivial, ⟨rfl, ?_⟩, trivial, trivial, trivial, trivial, trivial, trivial⟩
    intro path f hf
    cases hf
  refine ⟨_, Reached.next (Action.launch true ['a']) hreached trivial, fun h => ?_⟩
  rw [launch_firstRun] at h
  have hnone : HandoffSince (step (((firstRun ['a']).foldl step quiet).relies true ['a'] 100) (.exit true))
      ((((firstRun ['a']).foldl step quiet).relies true ['a'] 100).procs true).startedAt false := by
    refine ⟨fun hr => (by cases hr), ?_⟩
    rintro ⟨path, f, _, hf, ht⟩
    rw [files_exit] at hf
    change ((firstRun ['a']).foldl step quiet).files path = some f at hf
    change grace + 1 ≤ f.mtime + grace at ht
    have hmtime : f.mtime = 0 := by
      rw [files_firstRun, Function.update_idem, Function.update_apply] at hf
      split at hf
      · rw [← Option.some.inj hf]
      · cases hf
    omega
  have hpending := (h true ['a'] 100 ⟨['a'], false, .running, false⟩ rfl (handed_relies _ _ _ _) rfl rfl false hnone).1
  exact absurd hpending (by decide)

end LabInABox.Retry
