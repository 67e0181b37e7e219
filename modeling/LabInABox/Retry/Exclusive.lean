import LabInABox.Retry.Worker
import LabInABox.Run

/-!
# One worker of a key

`Sound` is what a run keeps whose steps are clear: each pid file is its own key's, a launch that is past
its check is alone on its file, and the file of a worker that runs names it.

* A step either starts something (`check`, `popen`, `record`, `begins`), or is one after which workers have
  ended and files of no live worker are gone (`shrink`).

Results:
* `sound_step`: a clear step keeps the invariant.
* `workers_of_reached`: at most one worker of a key lives, a launch starts one where none does, and no two
  keys share a file, as long as no launch comes between the check of another and the write of its file, or
  meets a file of another key or of a worker that was not waited for.
-/

namespace LabInABox.Retry

open Text

/-! ## The invariant -/

section Sound

variable {ι : Type} [DecidableEq ι] {w w' : World ι}

/-- **What holds of a run that is clear.** -/
structure Sound (w : World ι) : Prop where
  named : ∀ path f k, w.files path = some f → w.workers f.pid = some k → pidPath k.key = path
  ownKey : ∀ pid pid' k k', w.workers pid = some k → w.workers pid' = some k' →
    pidPath k.key = pidPath k'.key → k.key = k'.key
  one : ∀ pid pid' k k', w.Lives pid k → w.Lives pid' k' → pidPath k.key = pidPath k'.key → pid = pid'
  launched : ∀ p key pid, (w.procs p).stage = .spawned key pid → ∃ k, w.workers pid = some k ∧ k.key = key
  pendingKey : ∀ p key pid k, (w.procs p).stage.pending = some key → w.workers pid = some k →
    pidPath k.key = pidPath key → k.key = key
  pendingOne : ∀ p q key key', (w.procs p).stage.pending = some key → (w.procs q).stage.pending = some key' →
    pidPath key = pidPath key' → p = q
  pendingLive : ∀ p key pid k, (w.procs p).stage.pending = some key → w.Lives pid k →
    pidPath k.key = pidPath key → (w.procs p).stage = .spawned key pid
  pendingFile : ∀ p key f, (w.procs p).stage.pending = some key → w.files (pidPath key) = some f →
    (w.procs p).stage = .spawned key f.pid
  running : ∀ pid k, w.workers pid = some k → k.status = .running → ∃ t, w.files (pidPath k.key) = some ⟨pid, t⟩
  names : ∀ pid k f, w.Lives pid k → w.files (pidPath k.key) = some f → f.pid = pid

/-- A worker goes on as it is, or ends. -/
def Worker.Ends (k k' : Worker ι) : Prop := k'.key = k.key ∧ (k'.status.Live → k.status = k'.status)

omit [DecidableEq ι] in
theorem ends_refl (o : Option (Worker ι)) : Option.Rel Worker.Ends o o := by
  cases o with
  | none => exact Option.Rel.none
  | some k => exact Option.Rel.some ⟨rfl, fun _ => rfl⟩

theorem ends_reap (p : ι) (o : Option (Worker ι)) : Option.Rel Worker.Ends o (o.map (Worker.reap p)) := by
  cases o with
  | none => exact Option.Rel.none
  | some k =>
    refine Option.Rel.some ?_
    unfold Worker.reap
    split
    · refine ⟨rfl, ?_⟩
      rintro (hs | hs) <;> cases hs
    · exact ⟨rfl, fun _ => rfl⟩

omit [DecidableEq ι] in
/-- Workers end, and pid files of no live worker are removed. -/
theorem Sound.shrink (h : Sound w)
    (hstage : ∀ p, (w'.procs p).stage = (w.procs p).stage ∨ (w'.procs p).stage.pending = none)
    (hworkers : ∀ pid, Option.Rel Worker.Ends (w.workers pid) (w'.workers pid))
    (hfiles : ∀ path, w'.files path = w.files path ∨
      w'.files path = none ∧ ∀ pid k, w'.Lives pid k → pidPath k.key ≠ path) : Sound w' := by
  have hback {pid : Nat} {k' : Worker ι} (hk : w'.workers pid = some k') :
      ∃ k, w.workers pid = some k ∧ k.Ends k' := by
    have hrel := hworkers pid
    rw [hk] at hrel
    cases hw : w.workers pid with
    | none =>
      rw [hw] at hrel
      cases hrel
    | some k =>
      rw [hw] at hrel
      cases hrel with
      | some hends => exact ⟨k, rfl, hends⟩
  have hlives {pid : Nat} {k' : Worker ι} (hk : w'.Lives pid k') :
      ∃ k, w.Lives pid k ∧ k'.key = k.key ∧ k.status = k'.status := by
    obtain ⟨k, hk', hkey, hstatus⟩ := hback hk.1
    refine ⟨k, ⟨hk', ?_⟩, hkey, hstatus hk.2⟩
    rw [hstatus hk.2]
    exact hk.2
  have hpending {p : ι} {key : Text} (hp : (w'.procs p).stage.pending = some key) :
      (w'.procs p).stage = (w.procs p).stage := by
    rcases hstage p with hs | hnone
    · exact hs
    · rw [hnone] at hp
      cases hp
  have hsome {path : Text} {f : PidFile} (hf : w'.files path = some f) : w.files path = some f := by
    rcases hfiles path with hs | ⟨hnone, _⟩
    · rw [← hs]
      exact hf
    · rw [hnone] at hf
      cases hf
  have hsame {path : Text} {pid : Nat} {k : Worker ι} (hk : w'.Lives pid k) (hpath : pidPath k.key = path) :
      w'.files path = w.files path :=
    (hfiles path).resolve_right fun hnone => hnone.2 pid k hk hpath
  constructor
  · intro path f k' hf hk'
    obtain ⟨k, hk, hkey, _⟩ := hback hk'
    rw [hkey]
    exact h.named path f k (hsome hf) hk
  · intro pid pid' k₁ k₂ h₁ h₂ hpath
    obtain ⟨k₁', h₁', hkey₁, _⟩ := hback h₁
    obtain ⟨k₂', h₂', hkey₂, _⟩ := hback h₂
    rw [hkey₁, hkey₂] at hpath ⊢
    exact h.ownKey _ _ _ _ h₁' h₂' hpath
  · intro pid pid' k₁ k₂ h₁ h₂ hpath
    obtain ⟨k₁', h₁', hkey₁, _⟩ := hlives h₁
    obtain ⟨k₂', h₂', hkey₂, _⟩ := hlives h₂
    rw [hkey₁, hkey₂] at hpath
    exact h.one _ _ _ _ h₁' h₂' hpath
  · intro p key pid hp
    rw [@hpending p key (by rw [hp]; rfl)] at hp
    obtain ⟨k, hk, hkey⟩ := h.launched p key pid hp
    have hrel := hworkers pid
    rw [hk] at hrel
    cases hw : w'.workers pid with
    | none =>
      rw [hw] at hrel
      cases hrel
    | some k' =>
      rw [hw] at hrel
      cases hrel with
      | some hends => exact ⟨k', rfl, hends.1.trans hkey⟩
  · intro p key pid k₁ hp h₁ hpath
    obtain ⟨k₁', h₁', hkey₁, _⟩ := hback h₁
    rw [hpending hp] at hp
    rw [hkey₁] at hpath ⊢
    exact h.pendingKey p key pid _ hp h₁' hpath
  · intro p q key key' hp hq hpath
    rw [hpending hp] at hp
    rw [hpending hq] at hq
    exact h.pendingOne p q key key' hp hq hpath
  · intro p key pid k₁ hp h₁ hpath
    obtain ⟨k₁', h₁', hkey₁, _⟩ := hlives h₁
    have hs := hpending hp
    rw [hs] at hp ⊢
    rw [hkey₁] at hpath
    exact h.pendingLive p key pid _ hp h₁' hpath
  · intro p key f hp hf
    have hs := hpending hp
    rw [hs] at hp ⊢
    exact h.pendingFile p key f hp (hsome hf)
  · intro pid k₁ h₁ hrun
    obtain ⟨k₁', h₁', hkey₁, hstatus⟩ := hlives ⟨h₁, Or.inr hrun⟩
    rw [hsame ⟨h₁, Or.inr hrun⟩ rfl, hkey₁]
    exact h.running pid k₁' h₁'.1 (hstatus.trans hrun)
  · intro pid k₁ f h₁ hf
    obtain ⟨k₁', h₁', hkey₁, _⟩ := hlives h₁
    rw [hkey₁] at hf
    exact h.names pid k₁' f h₁' (hsome hf)

/-- The check of a clear launch finds a live worker of its pid file. -/
theorem Sound.running_of_lives (h : Sound w) {p : ι} {key : Text} {pid : Nat} {k : Worker ι}
    (hstarted : ∀ pid k, w.workers pid = some k → k.status = .spawned → pidPath k.key = pidPath key →
      ∃ t, w.files (pidPath key) = some ⟨pid, t⟩)
    (hk : w.Lives pid k) (hpath : pidPath k.key = pidPath key) : foreverRetryRunning w p key = true := by
  obtain ⟨hk, hlive⟩ := hk
  have hfile : ∃ t, w.files (pidPath key) = some ⟨pid, t⟩ := by
    rcases hlive with hs | hs
    · exact hstarted pid k hk hs hpath
    · rw [← hpath]
      exact h.running pid k hk hs
  obtain ⟨t, hfile⟩ := hfile
  unfold foreverRetryRunning
  rw [hfile, Option.bind_some, hk]
  dsimp only
  rcases hlive with hs | hs
  · rw [hs]
    simp
  · rw [hs]
    simp

/-- It finds no other worker, but one that ended and that another process has not waited for. -/
theorem Sound.lives_of_running (h : Sound w) {p : ι} {key : Text} (hreaped : w.Reaped p key)
    (hr : foreverRetryRunning w p key = true) : ∃ pid k, w.Lives pid k ∧ pidPath k.key = pidPath key := by
  unfold foreverRetryRunning at hr
  split at hr
  · cases hr
  · rename_i k hk
    obtain ⟨f, hf, hk⟩ := Option.bind_eq_some_iff.mp hk
    rw [Bool.and_eq_true, Bool.not_eq_true', Bool.and_eq_false_iff, decide_eq_true_eq, decide_eq_false_iff_not,
      decide_eq_false_iff_not] at hr
    refine ⟨f.pid, k, ⟨hk, ?_⟩, h.named _ f k hf hk⟩
    cases hs : k.status with
    | spawned => exact Or.inl rfl
    | running => exact Or.inr rfl
    | zombie =>
      rcases hr.1 with hne | hne
      · exact absurd (hreaped f k hf hk hs) hne
      · exact absurd hs hne
    | gone => exact absurd hs hr.2

theorem stage_moves (w : World ι) (p q : ι) (stage : Stage) :
    ((w.moves p stage).procs q).stage = if q = p then stage else (w.procs q).stage := by
  unfold World.moves
  dsimp only
  rw [Function.update_apply]
  split <;> rfl

theorem stage_relies (w : World ι) (p q : ι) (key : Text) (pid : Nat) :
    ((w.relies p key pid).procs q).stage = (w.procs q).stage := by
  unfold World.relies
  dsimp only
  rw [Function.update_apply]
  split
  · rename_i hq
    rw [hq]
  · rfl

/-- A check that found nothing. -/
theorem Sound.check (h : Sound w) {p : ι} {key : Text}
    (hpend : ∀ q key', (w.procs q).stage.pending = some key' → pidPath key' ≠ pidPath key)
    (hkey : ∀ pid k, w.workers pid = some k → pidPath k.key = pidPath key → k.key = key)
    (hlive : ∀ pid k, w.Lives pid k → pidPath k.key ≠ pidPath key) (hnone : w.files (pidPath key) = none) :
    Sound (w.moves p (.checked key)) := by
  have hcase {q : ι} {key' : Text} (hq : ((w.moves p (.checked key)).procs q).stage.pending = some key') :
      q = p ∧ key' = key ∨ q ≠ p ∧ (w.procs q).stage.pending = some key' := by
    rw [stage_moves] at hq
    split at hq
    · rename_i hqp
      exact Or.inl ⟨hqp, (Option.some.inj hq).symm⟩
    · rename_i hqp
      exact Or.inr ⟨hqp, hq⟩
  constructor
  · exact h.named
  · exact h.ownKey
  · exact h.one
  · intro q key' pid hq
    rw [stage_moves] at hq
    split at hq
    · cases hq
    · exact h.launched q key' pid hq
  · intro q key' pid k hq hk hpath
    rcases hcase hq with ⟨_, rfl⟩ | ⟨_, hq⟩
    · exact hkey pid k hk hpath
    · exact h.pendingKey q key' pid k hq hk hpath
  · intro q r key₁ key₂ hq hr hpath
    rcases hcase hq with ⟨hqp, h₁⟩ | ⟨_, hq⟩
    · rcases hcase hr with ⟨hrp, _⟩ | ⟨_, hr⟩
      · rw [hqp, hrp]
      · rw [h₁] at hpath
        exact absurd hpath.symm (hpend r key₂ hr)
    · rcases hcase hr with ⟨_, h₂⟩ | ⟨_, hr⟩
      · rw [h₂] at hpath
        exact absurd hpath (hpend q key₁ hq)
      · exact h.pendingOne q r key₁ key₂ hq hr hpath
  · intro q key' pid k hq hk hpath
    rcases hcase hq with ⟨_, rfl⟩ | ⟨hqp, hq⟩
    · exact absurd hpath (hlive pid k hk)
    · rw [stage_moves, if_neg hqp]
      exact h.pendingLive q key' pid k hq hk hpath
  · intro q key' f hq hf
    rcases hcase hq with ⟨_, rfl⟩ | ⟨hqp, hq⟩
    · exact absurd (hf.symm.trans hnone) (by simp)
    · rw [stage_moves, if_neg hqp]
      exact h.pendingFile q key' f hq hf
  · exact h.running
  · exact h.names

/-- A worker is started for a key that has none. -/
theorem Sound.popen (h : Sound w) {p : ι} {key : Text} {pid : Nat} (hstage : (w.procs p).stage = .checked key)
    (hfresh : w.Fresh pid) : Sound ((World.moves { w with
      workers := Function.update w.workers pid (some ⟨key, p, .spawned, false⟩) } p
      (.spawned key pid)).relies p key pid) := by
  generalize hw : (World.moves { w with
    workers := Function.update w.workers pid (some ⟨key, p, .spawned, false⟩) } p (.spawned key pid)).relies p key pid = w'
  have hprocs (q : ι) : (w'.procs q).stage = if q = p then .spawned key pid else (w.procs q).stage := by
    rw [← hw, stage_relies, stage_moves]
  have hfiles : w'.files = w.files := by
    rw [← hw]
    rfl
  have hworkers (pid' : Nat) : w'.workers pid' =
      if pid' = pid then some ⟨key, p, .spawned, false⟩ else w.workers pid' := by
    rw [← hw]
    exact Function.update_apply ..
  have hpend : (w.procs p).stage.pending = some key := by
    rw [hstage]
    rfl
  have hpending (q : ι) : (w'.procs q).stage.pending = (w.procs q).stage.pending := by
    rw [hprocs]
    split
    · rename_i hq
      rw [hq, hpend]
      rfl
    · rfl
  have hcase {pid' : Nat} {k : Worker ι} (hk : w'.workers pid' = some k) :
      pid' = pid ∧ k = ⟨key, p, .spawned, false⟩ ∨ pid' ≠ pid ∧ w.workers pid' = some k := by
    rw [hworkers] at hk
    split at hk
    · rename_i hp
      exact Or.inl ⟨hp, (Option.some.inj hk).symm⟩
    · rename_i hp
      exact Or.inr ⟨hp, hk⟩
  -- no other worker lives on the path
  have hnone {pid' : Nat} {k : Worker ι} (hk : w.Lives pid' k) (hpath : pidPath k.key = pidPath key) : False := by
    have hs := h.pendingLive p key pid' k hpend hk hpath
    rw [hstage] at hs
    cases hs
  constructor
  · intro path f k hf hk
    rw [hfiles] at hf
    rcases hcase hk with ⟨hp, _⟩ | ⟨_, hk⟩
    · exact absurd hp (hfresh.2 path f hf)
    · exact h.named path f k hf hk
  · intro pid₁ pid₂ k₁ k₂ h₁ h₂ hpath
    rcases hcase h₁ with ⟨_, rfl⟩ | ⟨_, h₁⟩
    · rcases hcase h₂ with ⟨_, rfl⟩ | ⟨_, h₂⟩
      · rfl
      · exact (h.pendingKey p key pid₂ k₂ hpend h₂ hpath.symm).symm
    · rcases hcase h₂ with ⟨_, rfl⟩ | ⟨_, h₂⟩
      · exact h.pendingKey p key pid₁ k₁ hpend h₁ hpath
      · exact h.ownKey pid₁ pid₂ k₁ k₂ h₁ h₂ hpath
  · intro pid₁ pid₂ k₁ k₂ h₁ h₂ hpath
    rcases hcase h₁.1 with ⟨hp₁, rfl⟩ | ⟨_, hk₁⟩
    · rcases hcase h₂.1 with ⟨hp₂, _⟩ | ⟨_, hk₂⟩
      · rw [hp₁, hp₂]
      · exact (hnone ⟨hk₂, h₂.2⟩ hpath.symm).elim
    · rcases hcase h₂.1 with ⟨_, rfl⟩ | ⟨_, hk₂⟩
      · exact (hnone ⟨hk₁, h₁.2⟩ hpath).elim
      · exact h.one pid₁ pid₂ k₁ k₂ ⟨hk₁, h₁.2⟩ ⟨hk₂, h₂.2⟩ hpath
  · intro q key' pid' hq
    rw [hprocs] at hq
    rw [hworkers]
    split at hq
    · obtain ⟨rfl, rfl⟩ := Stage.spawned.inj hq
      rw [if_pos rfl]
      exact ⟨_, rfl, rfl⟩
    · obtain ⟨k, hk, hkey⟩ := h.launched q key' pid' hq
      rw [if_neg, hk]
      · exact ⟨k, rfl, hkey⟩
      · rintro rfl
        rw [hfresh.1] at hk
        cases hk
  · intro q key' pid' k hq hk hpath
    rw [hpending] at hq
    rcases hcase hk with ⟨_, rfl⟩ | ⟨_, hk⟩
    · obtain rfl := h.pendingOne p q key key' hpend hq hpath
      exact Option.some.inj (hpend.symm.trans hq)
    · exact h.pendingKey q key' pid' k hq hk hpath
  · intro q r key₁ key₂ hq hr hpath
    rw [hpending] at hq hr
    exact h.pendingOne q r key₁ key₂ hq hr hpath
  · intro q key' pid' k hq hk hpath
    rw [hpending] at hq
    rw [hprocs]
    rcases hcase hk.1 with ⟨hp, rfl⟩ | ⟨_, hk'⟩
    · obtain rfl := h.pendingOne p q key key' hpend hq hpath
      rw [if_pos rfl, hp, Option.some.inj (hpend.symm.trans hq)]
    · have hs := h.pendingLive q key' pid' k hq ⟨hk', hk.2⟩ hpath
      rw [if_neg, hs]
      rintro rfl
      rw [hstage] at hs
      cases hs
  · intro q key' f hq hf
    rw [hpending] at hq
    rw [hfiles] at hf
    have hs := h.pendingFile q key' f hq hf
    rw [hprocs, if_neg, hs]
    rintro rfl
    rw [hstage] at hs
    cases hs
  · intro pid' k hk hs
    rw [hfiles]
    rcases hcase hk with ⟨_, rfl⟩ | ⟨_, hk⟩
    · cases hs
    · exact h.running pid' k hk hs
  · intro pid' k f hk hf
    rw [hfiles] at hf
    rcases hcase hk.1 with ⟨_, rfl⟩ | ⟨_, hk'⟩
    · have hs := h.pendingFile p key f hpend hf
      rw [hstage] at hs
      cases hs
    · exact h.names pid' k f ⟨hk', hk.2⟩ hf

/-- A process writes the pid file of the worker it started. -/
theorem Sound.record (h : Sound w) {p : ι} {key : Text} {pid : Nat} (hstage : (w.procs p).stage = .spawned key pid) :
    Sound (World.moves { w with files := Function.update w.files (pidPath key) (some ⟨pid, w.now⟩) } p .idle) := by
  generalize hw : World.moves { w with
    files := Function.update w.files (pidPath key) (some ⟨pid, w.now⟩) } p .idle = w'
  have hprocs (q : ι) : (w'.procs q).stage = if q = p then .idle else (w.procs q).stage := by
    rw [← hw, stage_moves]
  have hfiles (path : Text) : w'.files path = if path = pidPath key then some ⟨pid, w.now⟩ else w.files path := by
    rw [← hw]
    exact Function.update_apply ..
  have hworkers : w'.workers = w.workers := by
    rw [← hw]
    rfl
  have hpend : (w.procs p).stage.pending = some key := by
    rw [hstage]
    rfl
  have hcase {q : ι} {key' : Text} (hq : (w'.procs q).stage.pending = some key') :
      (w.procs q).stage.pending = some key' ∧ (w'.procs q).stage = (w.procs q).stage ∧
        pidPath key' ≠ pidPath key := by
    rw [hprocs] at hq ⊢
    split at hq
    · cases hq
    · rename_i hqp
      refine ⟨hq, if_neg hqp, ?_⟩
      exact fun hpath => hqp (h.pendingOne q p key' key hq hpend hpath)
  have hlives {pid' : Nat} {k : Worker ι} (hk : w'.Lives pid' k) : w.Lives pid' k := ⟨hworkers ▸ hk.1, hk.2⟩
  -- a live worker on the path is the one whose pid is written
  have hfile {pid' : Nat} {k : Worker ι} (hk : w.workers pid' = some k) (hlive : k.status.Live)
      (hpath : pidPath k.key = pidPath key) : w'.files (pidPath k.key) = some ⟨pid', w.now⟩ := by
    have hs := h.pendingLive p key pid' k hpend ⟨hk, hlive⟩ hpath
    rw [hstage] at hs
    rw [hfiles, if_pos hpath, (Stage.spawned.inj hs).2]
  constructor
  · intro path f k hf hk
    rw [hfiles] at hf
    rw [hworkers] at hk
    split at hf
    · rename_i hpath
      obtain rfl := Option.some.inj hf
      obtain ⟨k', hk', hkey⟩ := h.launched p key pid hstage
      rw [← Option.some.inj (hk'.symm.trans hk), hkey, hpath]
    · exact h.named path f k hf hk
  · rw [hworkers]
    exact h.ownKey
  · intro pid₁ pid₂ k₁ k₂ h₁ h₂ hpath
    exact h.one pid₁ pid₂ k₁ k₂ (hlives h₁) (hlives h₂) hpath
  · intro q key' pid' hq
    rw [hworkers]
    refine h.launched q key' pid' ?_
    rw [← (hcase (by rw [hq]; rfl)).2.1, hq]
  · intro q key' pid' k hq hk hpath
    rw [hworkers] at hk
    exact h.pendingKey q key' pid' k (hcase hq).1 hk hpath
  · intro q r key₁ key₂ hq hr hpath
    exact h.pendingOne q r key₁ key₂ (hcase hq).1 (hcase hr).1 hpath
  · intro q key' pid' k hq hk hpath
    obtain ⟨hq, hs, _⟩ := hcase hq
    rw [hs]
    exact h.pendingLive q key' pid' k hq (hlives hk) hpath
  · intro q key' f hq hf
    obtain ⟨hq, hs, hne⟩ := hcase hq
    rw [hfiles, if_neg hne] at hf
    rw [hs]
    exact h.pendingFile q key' f hq hf
  · intro pid' k hk hs
    rw [hworkers] at hk
    by_cases hpath : pidPath k.key = pidPath key
    · exact ⟨_, hfile hk (Or.inr hs) hpath⟩
    · rw [hfiles, if_neg hpath]
      exact h.running pid' k hk hs
  · intro pid' k f hk hf
    have hk := hlives hk
    by_cases hpath : pidPath k.key = pidPath key
    · rw [hfile hk.1 hk.2 hpath] at hf
      rw [← Option.some.inj hf]
    · rw [hfiles, if_neg hpath] at hf
      exact h.names pid' k f hk hf

omit [DecidableEq ι] in
/-- A worker that was started writes its pid file. -/
theorem Sound.begins (h : Sound w) {pid : Nat} {k : Worker ι} (hk : w.workers pid = some k)
    (hs : k.status = .spawned) : Sound { w with
      files := Function.update w.files (pidPath k.key) (some ⟨pid, w.now⟩)
      workers := Function.update w.workers pid (some { k with status := .running }) } := by
  generalize hw : ({ w with
    files := Function.update w.files (pidPath k.key) (some ⟨pid, w.now⟩)
    workers := Function.update w.workers pid (some { k with status := .running }) } : World ι) = w'
  have hprocs : w'.procs = w.procs := by rw [← hw]
  have hfiles (path : Text) : w'.files path = if path = pidPath k.key then some ⟨pid, w.now⟩ else w.files path := by
    rw [← hw]
    exact Function.update_apply ..
  have hworkers (pid' : Nat) : w'.workers pid' =
      if pid' = pid then some { k with status := .running } else w.workers pid' := by
    rw [← hw]
    exact Function.update_apply ..
  have hlive : w.Lives pid k := ⟨hk, Or.inl hs⟩
  have hback {pid' : Nat} {k' : Worker ι} (hk' : w'.workers pid' = some k') :
      ∃ k₀, w.workers pid' = some k₀ ∧ k'.key = k₀.key ∧ (k'.status.Live → k₀.status.Live) := by
    rw [hworkers] at hk'
    split at hk'
    · rename_i hp
      obtain rfl := Option.some.inj hk'
      exact ⟨k, hp ▸ hk, rfl, fun _ => Or.inl hs⟩
    · exact ⟨k', hk', rfl, id⟩
  -- a live worker on the path is the one that starts
  have hfile {pid' : Nat} {k₀ : Worker ι} (hk₀ : w.Lives pid' k₀) (hpath : pidPath k₀.key = pidPath k.key) :
      w'.files (pidPath k₀.key) = some ⟨pid', w.now⟩ := by
    rw [hfiles, if_pos hpath, h.one pid' pid k₀ k hk₀ hlive hpath]
  constructor
  · intro path f k' hf hk'
    rw [hfiles] at hf
    obtain ⟨k₀, hk₀, hkey, _⟩ := hback hk'
    rw [hkey]
    split at hf
    · rename_i hpath
      obtain rfl := Option.some.inj hf
      rw [hpath, Option.some.inj (hk₀.symm.trans hk)]
    · exact h.named path f k₀ hf hk₀
  · intro pid₁ pid₂ k₁ k₂ h₁ h₂ hpath
    obtain ⟨k₁', h₁', hkey₁, _⟩ := hback h₁
    obtain ⟨k₂', h₂', hkey₂, _⟩ := hback h₂
    rw [hkey₁, hkey₂] at hpath ⊢
    exact h.ownKey pid₁ pid₂ k₁' k₂' h₁' h₂' hpath
  · intro pid₁ pid₂ k₁ k₂ h₁ h₂ hpath
    obtain ⟨k₁', h₁', hkey₁, hlive₁⟩ := hback h₁.1
    obtain ⟨k₂', h₂', hkey₂, hlive₂⟩ := hback h₂.1
    rw [hkey₁, hkey₂] at hpath
    exact h.one pid₁ pid₂ k₁' k₂' ⟨h₁', hlive₁ h₁.2⟩ ⟨h₂', hlive₂ h₂.2⟩ hpath
  · intro q key' pid' hq
    rw [hprocs] at hq
    obtain ⟨k₀, hk₀, hkey⟩ := h.launched q key' pid' hq
    rw [hworkers]
    split
    · rename_i hp
      rw [hp, hk] at hk₀
      exact ⟨_, rfl, (congrArg Worker.key (Option.some.inj hk₀)).trans hkey⟩
    · exact ⟨k₀, hk₀, hkey⟩
  · intro q key' pid' k' hq hk' hpath
    rw [hprocs] at hq
    obtain ⟨k₀, hk₀, hkey, _⟩ := hback hk'
    rw [hkey] at hpath ⊢
    exact h.pendingKey q key' pid' k₀ hq hk₀ hpath
  · rw [hprocs]
    exact h.pendingOne
  · intro q key' pid' k' hq hk' hpath
    rw [hprocs] at hq ⊢
    obtain ⟨k₀, hk₀, hkey, hlive₀⟩ := hback hk'.1
    rw [hkey] at hpath
    exact h.pendingLive q key' pid' k₀ hq ⟨hk₀, hlive₀ hk'.2⟩ hpath
  · intro q key' f hq hf
    rw [hprocs] at hq ⊢
    rw [hfiles] at hf
    split at hf
    · rename_i hpath
      obtain rfl := Option.some.inj hf
      exact h.pendingLive q key' pid k hq hlive hpath.symm
    · exact h.pendingFile q key' f hq hf
  · intro pid' k' hk' hs'
    obtain ⟨k₀, hk₀, hkey, hlive₀⟩ := hback hk'
    by_cases hpath : pidPath k'.key = pidPath k.key
    · rw [hkey] at hpath ⊢
      exact ⟨_, hfile ⟨hk₀, hlive₀ (Or.inr hs')⟩ hpath⟩
    · rw [hfiles, if_neg hpath]
      rw [hworkers, if_neg] at hk'
      · exact h.running pid' k' hk' hs'
      · rintro rfl
        rw [hkey, Option.some.inj (hk₀.symm.trans hk)] at hpath
        exact hpath rfl
  · intro pid' k' f hk' hf
    obtain ⟨k₀, hk₀, hkey, hlive₀⟩ := hback hk'.1
    rw [hkey] at hf
    by_cases hpath : pidPath k₀.key = pidPath k.key
    · rw [hfile ⟨hk₀, hlive₀ hk'.2⟩ hpath] at hf
      rw [← Option.some.inj hf]
    · rw [hfiles, if_neg hpath] at hf
      exact h.names pid' k₀ f ⟨hk₀, hlive₀ hk'.2⟩ hf

omit [DecidableEq ι] in
/-- A worker ends, and may remove its pid file. -/
theorem Sound.ends (h : Sound w) {pid : Nat} {k k' : Worker ι} (hk : w.Lives pid k)
    (hworkers : w'.workers = Function.update w.workers pid (some k')) (hkey : k'.key = k.key)
    (hend : ¬ k'.status.Live) (hprocs : w'.procs = w.procs)
    (hfiles : w'.files = w.files ∨ w'.files = Function.update w.files (pidPath k.key) none) : Sound w' := by
  refine h.shrink (fun p => ?_) (fun pid' => ?_) fun path => ?_
  · rw [hprocs]
    exact Or.inl rfl
  · rw [hworkers, Function.update_apply]
    split
    · rename_i hp
      rw [hp, hk.1]
      exact Option.Rel.some ⟨hkey, fun hlive => absurd hlive hend⟩
    · exact ends_refl _
  · rcases hfiles with hfiles | hfiles
    · rw [hfiles]
      exact Or.inl rfl
    · rw [hfiles, Function.update_apply]
      split
      · rename_i hpath
        refine Or.inr ⟨rfl, ?_⟩
        rintro pid' k₀ ⟨hk₀, hlive⟩ hpath₀
        rw [hworkers, Function.update_apply] at hk₀
        split at hk₀
        · rw [Option.some.inj hk₀] at hend
          exact hend hlive
        · rename_i hne
          exact hne (h.one pid' pid k₀ k ⟨hk₀, hlive⟩ hk (hpath₀.trans hpath))
      · exact Or.inl rfl

omit [DecidableEq ι] in
theorem not_live_over (w : World ι) (k : Worker ι) : ¬ (w.over k).status.Live := by
  unfold World.over Status.Live
  dsimp only
  split <;> simp

/-- A launch finds a worker, or finds none and removes the pid file. -/
theorem Sound.launch (h : Sound w) {p : ι} {key : Text} (hclear : Clear w (.launch p key)) :
    Sound (step w (.launch p key)) := by
  obtain ⟨hpend, hstarted, hkey⟩ := hclear
  unfold step
  dsimp only
  split
  · rename_i hidle
    split
    · rename_i hnone
      refine h.check hpend hkey (fun pid k hk hpath => ?_) hnone
      have hr := h.running_of_lives (p := p) hstarted hk hpath
      unfold foreverRetryRunning at hr
      rw [hnone] at hr
      cases hr
    · rename_i f hf
      split
      · exact h.shrink (fun q => Or.inl (stage_relies w p q key f.pid)) (fun pid => ends_refl _)
          fun path => Or.inl rfl
      · rename_i hr
        generalize hw : ({ w with
          files := Function.update w.files (pidPath key) none
          workers := Function.update w.workers f.pid ((w.workers f.pid).map (Worker.reap p)) } : World ι) = w'
        have hrel (pid : Nat) : Option.Rel Worker.Ends (w.workers pid) (w'.workers pid) := by
          rw [← hw]
          dsimp only
          rw [Function.update_apply]
          split
          · rename_i hpid
            rw [hpid]
            exact ends_reap p _
          · exact ends_refl _
        have hback {pid : Nat} {k' : Worker ι} (hk : w'.workers pid = some k') :
            ∃ k, w.workers pid = some k ∧ k.Ends k' := by
          have hrel := hrel pid
          rw [hk] at hrel
          generalize ho : w.workers pid = o at hrel
          cases hrel with
          | some hends => exact ⟨_, rfl, hends⟩
        -- no worker of the path lives, as the check would have found it
        have hlive {pid : Nat} {k' : Worker ι} (hk : w'.Lives pid k') : pidPath k'.key ≠ pidPath key := by
          obtain ⟨k, hk', hkey', hstatus⟩ := hback hk.1
          intro hpath
          rw [hkey'] at hpath
          refine hr (h.running_of_lives hstarted ⟨hk', ?_⟩ hpath)
          rw [hstatus hk.2]
          exact hk.2
        have hprocs : w'.procs = w.procs := by rw [← hw]
        have hfiles (path : Text) : w'.files path = if path = pidPath key then none else w.files path := by
          rw [← hw]
          exact Function.update_apply ..
        have hsound : Sound w' := by
          refine h.shrink (fun q => Or.inl (by rw [hprocs])) hrel fun path => ?_
          rw [hfiles]
          split
          · rename_i hpath
            exact Or.inr ⟨rfl, fun pid k hk => hpath ▸ hlive hk⟩
          · exact Or.inl rfl
        refine hsound.check ?_ (fun pid k hk hpath => ?_) (fun pid k hk => hlive hk) ?_
        · rw [hprocs]
          exact hpend
        · obtain ⟨k₀, hk₀, hkey₀, _⟩ := hback hk
          rw [hkey₀] at hpath ⊢
          exact hkey pid k₀ hk₀ hpath
        · rw [hfiles, if_pos rfl]
  · exact h

/-- **A clear step keeps the invariant**, where no process id is given twice. -/
theorem sound_step (h : Sound w) {a : Action ι} (hid : NotReused w a) (hclear : Clear w a) :
    Sound (step w a) := by
  cases a with
  | tick d => exact h.shrink (fun p => Or.inl rfl) (fun pid => ends_refl _) fun path => Or.inl rfl
  | begin p =>
    unfold step
    dsimp only
    split
    · refine h.shrink (fun q => ?_) (fun pid => ends_refl _) fun path => Or.inl rfl
      dsimp only
      rw [Function.update_apply]
      split
      · exact Or.inr rfl
      · exact Or.inl rfl
    · exact h
  | launch p key => exact h.launch hclear
  | popen p pid =>
    unfold step
    dsimp only
    split
    · rename_i key hstage
      exact h.popen hstage hid
    · exact h
  | record p =>
    unfold step
    dsimp only
    split
    · rename_i key pid hstage
      exact h.record hstage
    · exact h
  | start pid =>
    unfold step
    dsimp only
    split
    · rename_i k hk
      split
      · rename_i hs
        exact h.begins hk hs
      · exact h
    · exact h
  | succeed pid =>
    unfold step
    dsimp only
    split
    · rename_i k hk
      split
      · rename_i hs
        exact h.ends ⟨hk, Or.inr hs⟩ rfl rfl (not_live_over w k) rfl (Or.inr rfl)
      · exact h
    · exact h
  | crash pid unwinds =>
    unfold step
    dsimp only
    split
    · rename_i k hk
      split
      · rename_i hs
        refine h.ends ⟨hk, hs⟩ rfl rfl (not_live_over w k) rfl ?_
        dsimp only
        split
        · exact Or.inr rfl
        · exact Or.inl rfl
      · exact h
    · exact h
  | exit p =>
    unfold step
    dsimp only
    split
    · exact h
    · refine h.shrink (fun q => ?_) (fun pid => ends_reap p _) fun path => Or.inl rfl
      rw [stage_moves]
      split
      · exact Or.inr rfl
      · exact Or.inl rfl

omit [DecidableEq ι] in
theorem sound_start (h : w.Start) : Sound w := by
  obtain ⟨hprocs, hworkers⟩ := h
  have hw {pid : Nat} {k : Worker ι} (hk : w.workers pid = some k) : False := by
    rw [hworkers pid] at hk
    cases hk
  have hp {p : ι} {key : Text} (hs : (w.procs p).stage.pending = some key) : False := by
    rw [hprocs p] at hs
    cases hs
  constructor
  · exact fun path f k _ hk => (hw hk).elim
  · exact fun pid pid' k k' hk => (hw hk).elim
  · exact fun pid pid' k k' hk => (hw hk.1).elim
  · intro p key pid hs
    rw [hprocs p] at hs
    cases hs
  · exact fun p key pid k hs => (hp hs).elim
  · exact fun p q key key' hs => (hp hs).elim
  · exact fun p key pid k hs => (hp hs).elim
  · exact fun p key f hs => (hp hs).elim
  · exact fun pid k hk => (hw hk).elim
  · exact fun pid k f hk => (hw hk.1).elim

/-- The states of a run whose steps are clear. -/
theorem sound_of_clear {w₀ : World ι} (h₀ : w₀.Start)
    (h : Reached (fun w a => NotReused w a ∧ Clear w a) step w₀ w) : Sound w :=
  h.invariant (sound_start h₀) fun _ _ hs hok => sound_step hs hok.1 hok.2

end Sound

/-! ## The workers of a clear run -/

section Workers

variable {ι : Type} [DecidableEq ι] {w : World ι}

omit [DecidableEq ι] in
theorem Sound.oneWorker (h : Sound w) : w.OneWorker :=
  fun pid pid' k k' hk hk' hkey => h.one pid pid' k k' hk hk' (congrArg pidPath hkey)

omit [DecidableEq ι] in
theorem Sound.ownFiles (h : Sound w) : w.OwnFiles := by
  intro pid pid' k k' hk hk' hne
  have hpath : pidPath k.key ≠ pidPath k'.key := fun hpath => hne (h.ownKey pid pid' k k' hk hk' hpath)
  exact ⟨fun hlog => hpath (logPath_eq_iff.mp hlog), hpath⟩

/-- A launch that finds a worker relies on it. -/
theorem launch_relies {p : ι} {key : Text} {f : PidFile} (hidle : (w.procs p).stage = .idle)
    (hf : w.files (pidPath key) = some f) (hr : foreverRetryRunning w p key = true) :
    step w (.launch p key) = w.relies p key f.pid := by
  unfold step
  dsimp only
  rw [if_pos hidle, hf]
  dsimp only
  rw [if_pos hr]

/-- A launch that finds no worker goes past its check. -/
theorem stage_launch {p : ι} {key : Text} (hidle : (w.procs p).stage = .idle)
    (hr : foreverRetryRunning w p key = false) : ((step w (.launch p key)).procs p).stage = .checked key := by
  unfold step
  dsimp only
  rw [if_pos hidle]
  split
  · rw [stage_moves, if_pos rfl]
  · rw [if_neg (by rw [hr]; exact Bool.false_ne_true), stage_moves, if_pos rfl]

theorem lives_popen {p : ι} {key : Text} (hstage : (w.procs p).stage = .checked key) (pid : Nat) :
    (step w (.popen p pid)).Lives pid ⟨key, p, .spawned, false⟩ := by
  unfold step
  dsimp only
  rw [hstage]
  exact ⟨Function.update_self .., Or.inl rfl⟩

theorem Sound.launchStarts (h : Sound w) {p : ι} {key : Text} (hclear : Clear w (.launch p key))
    (hreaped : w.Reaped p key) : w.LaunchStarts p key := by
  intro hidle hnone pid
  have hr : foreverRetryRunning w p key = false := by
    rw [← Bool.not_eq_true]
    intro hr
    obtain ⟨pid', k, hk, hpath⟩ := h.lives_of_running hreaped hr
    exact hnone pid' k hk (hclear.2.2 pid' k hk.1 hpath)
  exact ⟨_, lives_popen (stage_launch hidle hr) pid, rfl⟩

/-- **The workers of a run** whose steps are clear and that gives no process id twice: at most one of a
key lives, those of two keys share no file, and a clear launch starts one where no live worker is found. -/
theorem workers_of_reached {w₀ : World ι} (h₀ : w₀.Start)
    (h : Reached (fun w a => NotReused w a ∧ Clear w a) step w₀ w) :
    w.OneWorker ∧ w.OwnFiles ∧
      ∀ p key, Clear w (.launch p key) → w.Reaped p key → w.LaunchStarts p key := by
  have hs := sound_of_clear h₀ h
  exact ⟨hs.oneWorker, hs.ownFiles, fun p key => hs.launchStarts⟩

end Workers

/-- One process launches a key; its worker writes the pid file and succeeds. -/
def oneLaunch (key : Text) : List (Action Bool) :=
  [.begin false, .begin true, .launch false key, .popen false 100, .record false, .start 100, .succeed 100]

/-- A launch after it starts the next worker. -/
theorem workers_of_reached_next :
    ((oneLaunch ['a']).foldl step quiet).OneWorker ∧
      ((oneLaunch ['a']).foldl step quiet).LaunchStarts true ['a'] := by
  have hrun : Meets (fun w a => NotReused w a ∧ Clear w a) step quiet (oneLaunch ['a']) := by
    refine ⟨⟨trivial, trivial⟩, ⟨trivial, trivial⟩, ⟨trivial, ?_, ?_, ?_⟩, ⟨⟨rfl, ?_⟩, trivial⟩, ⟨trivial, trivial⟩,
      ⟨trivial, trivial⟩, ⟨trivial, trivial⟩, trivial⟩
    · rintro (_ | _) key' hq <;> cases hq
    · intro pid k hk
      cases hk
    · intro pid k hk
      cases hk
    · intro path f hf
      cases hf
  have h := workers_of_reached start_quiet (Reached.start.run hrun)
  have hworker {pid : Nat} {k : Worker Bool} (hk : ((oneLaunch ['a']).foldl step quiet).workers pid = some k) :
      k = ⟨['a'], false, .zombie, true⟩ := by
    have hworkers : ((oneLaunch ['a']).foldl step quiet).workers =
        Function.update (Function.update (Function.update (fun _ => none) 100 (some ⟨['a'], false, .spawned, false⟩))
          100 (some ⟨['a'], false, .running, false⟩)) 100 (some ⟨['a'], false, .zombie, true⟩) := rfl
    by_cases hpid : pid = 100
    · rw [hworkers, hpid, Function.update_self] at hk
      exact (Option.some.inj hk).symm
    · rw [hworkers, Function.update_of_ne hpid, Function.update_of_ne hpid, Function.update_of_ne hpid] at hk
      cases hk
  refine ⟨h.1, h.2.2 true ['a'] ⟨?_, ?_, ?_⟩ ?_⟩
  · rintro (_ | _) key' hq <;> cases hq
  · intro pid k hk hs
    rw [hworker hk] at hs
    cases hs
  · intro pid k hk _
    rw [hworker hk]
  · intro f k hf
    have hfiles : ((oneLaunch ['a']).foldl step quiet).files =
        Function.update (Function.update (Function.update (fun _ => none) (pidPath ['a']) (some ⟨100, 0⟩))
          (pidPath ['a']) (some ⟨100, 0⟩)) (pidPath ['a']) none := rfl
    rw [hfiles, Function.update_self] at hf
    cases hf

/-- Two launches that both check before either writes. -/
def race (key key' : Text) : List (Action Bool) :=
  [.begin false, .begin true, .launch false key, .launch true key', .popen false 100, .popen true 101]

/-- A launch that has written the pid file of its worker. -/
def held (key : Text) : List (Action Bool) :=
  [.begin false, .begin true, .launch false key, .popen false 100, .record false]

theorem reached_race (key key' : Text) : Reached NotReused step quiet ((race key key').foldl step quiet) := by
  refine Reached.start.run ⟨trivial, trivial, trivial, trivial, ⟨rfl, ?_⟩, ⟨rfl, ?_⟩, trivial⟩
  · intro path f hf
    cases hf
  · intro path f hf
    cases hf

theorem reached_held (key : Text) : Reached NotReused step quiet ((held key).foldl step quiet) := by
  refine Reached.start.run ⟨trivial, trivial, trivial, ⟨rfl, ?_⟩, trivial, trivial⟩
  intro path f hf
  cases hf

/-- A launch relies on the worker of another key, whose pid file is its own. -/
theorem launch_held {key key' : Text} (hpath : pidPath key = pidPath key') :
    step ((held key).foldl step quiet) (.launch true key') = ((held key).foldl step quiet).relies true key' 100 := by
  have hfile : ((held key).foldl step quiet).files (pidPath key') = some ⟨100, 0⟩ := by
    rw [← hpath]
    show Function.update _ (pidPath key) _ (pidPath key) = _
    rw [Function.update_self]
    rfl
  have hr : foreverRetryRunning ((held key).foldl step quiet) true key' = true := by
    unfold foreverRetryRunning
    rw [hfile]
    rfl
  exact launch_relies rfl hfile hr

/-- The worker is started twice, and each of two keys takes the place of the other. -/
theorem workers_race :
    (∃ w, Reached NotReused step quiet w ∧ ¬ w.OneWorker) ∧
      (∃ w, Reached NotReused step quiet w ∧ ¬ w.OwnFiles) ∧
      ∃ w, Reached NotReused step quiet w ∧ ∃ p key, ¬ w.LaunchStarts p key := by
  have hpath : pidPath ['a', ' ', 'b'] = pidPath ['a', '_', 'b'] := pidPath_congr (by decide)
  refine ⟨⟨_, reached_race ['a'] ['a'], fun h => ?_⟩, ⟨_, reached_race ['a', ' ', 'b'] ['a', '_', 'b'], fun h => ?_⟩,
    _, reached_held ['a', ' ', 'b'], true, ['a', '_', 'b'], fun h => ?_⟩
  · have hone := h 100 101 ⟨['a'], false, .spawned, false⟩ ⟨['a'], true, .spawned, false⟩ ⟨rfl, Or.inl rfl⟩
      ⟨rfl, Or.inl rfl⟩ rfl
    cases hone
  · exact (h 100 101 ⟨['a', ' ', 'b'], false, .spawned, false⟩ ⟨['a', '_', 'b'], true, .spawned, false⟩ rfl rfl
      (by decide)).2 hpath
  · have hother (pid : Nat) (k : Worker Bool) (hk : ((held ['a', ' ', 'b']).foldl step quiet).Lives pid k) :
        k.key ≠ ['a', '_', 'b'] := by
      intro hkey
      by_cases hpid : pid = 100
      · have hk' := hk.1
        rw [hpid] at hk'
        exact absurd ((congrArg Worker.key (Option.some.inj hk')).trans hkey) (by decide)
      · have hworkers : ((held ['a', ' ', 'b']).foldl step quiet).workers =
            Function.update (fun _ => none) 100 (some ⟨['a', ' ', 'b'], false, .spawned, false⟩) := rfl
        have hk' := hk.1
        rw [hworkers, Function.update_of_ne hpid] at hk'
        cases hk'
    obtain ⟨k, ⟨hk, _⟩, _⟩ := h rfl hother 101
    rw [launch_held hpath] at hk
    cases hk

end LabInABox.Retry
