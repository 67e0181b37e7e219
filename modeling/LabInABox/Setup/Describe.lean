import LabInABox.Memo
import LabInABox.Objects
import LabInABox.Run
import LabInABox.Text.PyJson
import Mathlib.Data.List.DropRight
import Mathlib.Logic.Function.Basic

/-!
# What add-ons print of themselves

Model of the cache of `libs/apps.py` (`_signature`, `_load_cache`, `_save_cache`, `_run_schema`, `describe_many`):
several programs describe add-ons at the same time, over one cache file, and the files of the add-ons change.

* A call reads the cache file, checks one path after another, runs what it has no entry for, takes the signatures
  when every run has ended, and saves its whole cache. The steps of the calls and the changes come in any order.
* A program runs one call at a time. The runs of a call end in any order, each on the files of one moment.
* The cache file is saved by these programs only. It may be lost at any time, and a save may fail.
* What `json.dump` wrote, `json.load` gives back. `hashlib.sha256` is a parameter.
* A run gives its return code and its output; none stands for an error of the system or a timeout.

Results:
* `good_step`: no step makes an entry wrong, if no add-on changes between its run and its signature.
* `describe_hit`: in every state reached, an entry that is taken is what the add-on prints now.
* `describe_many_result`: a call during which no file changes returns what each add-on prints.
* `describe_many_reuse`: a call after it runs only add-ons that print nothing.
* `stale_of_change`: an add-on that changes between its run and its signature is described wrongly from then on.
-/

namespace LabInABox.Setup.Describe

open Text Memo

/-! ## The files -/

/-- `os.path.dirname(path)`. -/
def dirname (path : Text) : Text :=
  let head := path.rdropWhile (· ≠ '/')
  if ∀ c ∈ head, c = '/' then head else head.rdropWhile (· = '/')

/-- `os.path.join(dir, name)`. -/
def pathJoin (dir name : Text) : Text :=
  if name.head? = some '/' then name
  else if dir = [] ∨ dir.getLast? = some '/' then dir ++ name
  else dir ++ '/' :: name

/-- What the system answers about files: where a path leads, the time of change and the size, whether a file can be
run, and the return code and output of `--schema json`. -/
structure World where
  realpath : Text → Text
  stat : Text → Option (Int × Int)
  executable : Text → Bool
  run : Text → Option (Int × Text)

section Files

variable {R : PyJson.Rounding} (libs : Text) (w : World) (path : Text)

/-- `_signature(path)`. -/
def signature : List Int :=
  [path, pathJoin (dirname path) "lab_schema".toList, pathJoin libs "addon_common.py".toList,
    pathJoin libs "apps.py".toList].flatMap fun p =>
      match w.stat p with
      | some (mtime, size) => [mtime, size]
      | none => [0, 0]

/-- A JSON object. -/
abbrev Out (R : PyJson.Rounding) := Obj Text (JsValue (PyJson.Number R))

/-- `out if isinstance(out, dict) else {}`. -/
def asDict : JsValue (PyJson.Number R) → Out R
  | .mapping es => Obj.empty.assign es
  | _ => Obj.empty

/-- `_run_schema(path)`. -/
def runSchema : Out R :=
  if w.executable path then
    match w.run path with
    | some (returncode, stdout) =>
      if returncode = 0 then ((PyJson.loads stdout).map asDict).getD Obj.empty else Obj.empty
    | none => Obj.empty
  else Obj.empty

end Files

/-! ## Calls -/

/-- The cache. -/
abbrev Cache (R : PyJson.Rounding) := Obj Text (Memo.Entry (List Int) (Out R))

/-- A call of `describe_many`: the paths that are left, the cache it has read, `todo` with what the runs have
printed, `result`, and whether it has to save. -/
structure Proc (R : PyJson.Rounding) where
  paths : List Text
  cache : Option (Cache R)
  todo : List (Text × Option (Out R))
  result : Obj Text (Out R)
  unsaved : Bool

section Procs

variable {R : PyJson.Rounding} (libs : Text) (digest : Text → Text) (w : World)

/-- Nothing is left to do. -/
def Proc.Finished (p : Proc R) : Prop := p.paths = [] ∧ p.todo = [] ∧ p.unsaved = false

instance (p : Proc R) : Decidable p.Finished := inferInstanceAs (Decidable (_ ∧ _))

/-- A call that begins. -/
def Proc.begin (paths : List Text) : Proc R := ⟨paths, none, [], Obj.empty, false⟩

/-- `cache = _load_cache()`. -/
def Proc.load (file : Cache R) (p : Proc R) : Proc R := { p with cache := some (p.cache.getD file) }

/-- What the cache has for a path. -/
def hit (cache : Cache R) (path : Text) : Option (Out R) :=
  (cache.get (digest path)).bind fun entry => if entry.sig = signature libs w path then some entry.out else none

/-- The next path: its entry is taken, or it is to be run. -/
def Proc.check (p : Proc R) : Proc R :=
  match p.cache, p.paths with
  | some cache, path :: paths =>
    match hit libs digest w cache path with
    | some out => { p with paths := paths, result := p.result.set path out }
    | none => { p with paths := paths, todo := p.todo ++ [(path, none)], unsaved := true }
  | _, _ => p

/-- A run ends. -/
def Proc.run (j : Nat) (p : Proc R) : Proc R :=
  if p.paths = [] then
    { p with todo := p.todo.modify j fun t => (t.1, some (t.2.getD (runSchema w t.1))) }
  else p

/-- The next output, when every run has ended. -/
def Proc.sign (p : Proc R) : Proc R :=
  match p.cache, p.todo with
  | some cache, (path, some out) :: todo =>
    if p.paths = [] ∧ ∀ t ∈ todo, t.2.isSome then
      { p with
        todo := todo
        cache := some (if out.entries = [] then cache else cache.set (digest path) ⟨signature libs w path, out⟩)
        result := p.result.set path out }
    else p
  | _, _ => p

end Procs

/-! ## Steps -/

/-- The files, the cache file, and the programs. -/
structure State (R : PyJson.Rounding) where
  world : World
  file : Cache R
  procs : Nat → Proc R

/-- What happens: files change, the cache file is lost, or a program goes on. -/
inductive Event
  | change (w : World)
  | lose
  | call (i : Nat) (paths : List Text)
  | load (i : Nat)
  | check (i : Nat)
  | run (i j : Nat)
  | sign (i : Nat)
  | save (i : Nat) (written : Bool)

section Steps

variable {R : PyJson.Rounding} (libs : Text) (digest : Text → Text)

/-- The state with another program. -/
def State.withProc (s : State R) (i : Nat) (p : Proc R) : State R :=
  { s with procs := Function.update s.procs i p }

/-- What a step does. -/
def step (s : State R) : Event → State R
  | .change w => { s with world := w }
  | .lose => { s with file := Obj.empty }
  | .call i paths =>
    if (s.procs i).Finished then s.withProc i (.begin (paths.map s.world.realpath)) else s
  | .load i => s.withProc i ((s.procs i).load s.file)
  | .check i => s.withProc i ((s.procs i).check libs digest s.world)
  | .run i j => s.withProc i ((s.procs i).run s.world j)
  | .sign i => s.withProc i ((s.procs i).sign libs digest s.world)
  | .save i written =>
    let p := s.procs i
    if p.paths = [] ∧ p.todo = [] ∧ p.unsaved = true then
      { s.withProc i { p with unsaved := false } with file := if written then p.cache.getD s.file else s.file }
    else s

/-- The programs before anything happens. -/
def start (w : World) : State R := ⟨w, Obj.empty, fun _ => .begin []⟩

end Steps

/-! ### An add-on of two versions -/

/-- An add-on. -/
def samplePath : Text := "/opt/install_k9s".toList

/-- Files whose signatures are the version of the add-on, which it prints. -/
def sampleWorld (version : Nat) : World where
  realpath := id
  stat p := if p = samplePath then some (version, 0) else none
  executable p := p = samplePath
  run _ := some (0, "\x7b\"v\": ".toList ++ Nat.toDigits 10 version ++ "\x7d".toList)

/-- The files are of one version or the other. -/
def sampleForms : Set World := {w | w = sampleWorld 1 ∨ w = sampleWorld 2}

/-- Decimals are not rounded. -/
def sampleRounding : PyJson.Rounding := ⟨.finite, PyJson.Rounding.finite_idem⟩

/-- The state when a call has begun. -/
def sampleCalled : State sampleRounding := step [] id (start (sampleWorld 1)) (.call 0 [samplePath])

/-- What the call does up to its save. -/
def sampleServing : List Event := [.load 0, .check 0, .run 0 0, .sign 0]

/-- The state when the call has been saved. -/
def sampleSaved : State sampleRounding := step [] id (sampleServing.foldl (step [] id) sampleCalled) (.save 0 true)

/-- What a second call does. -/
def sampleAgain : List Event := [.load 1, .check 1]

/-! ## What is kept -/

section Keeps

variable {R : PyJson.Rounding} {libs : Text} {digest : Text → Text} {forms : Set World} {keys : Set Text}
  {w : World} {p : Proc R} {s : State R} {path : Text} {out : Out R} {cache : Cache R}

/-- The signatures tell what add-ons print. -/
def Told (R : PyJson.Rounding) (libs : Text) (forms : Set World) (keys : Set Text) : Prop :=
  Identifies (signature libs) (runSchema : World → Text → Out R) forms keys

theorem told_sample : Told sampleRounding [] sampleForms {samplePath} := by
  rintro w (rfl | rfl) w' (rfl | rfl) k rfl hsig
  · rfl
  · exact absurd hsig (by decide)
  · exact absurd hsig (by decide)
  · rfl

/-- No entry of a cache is wrong. -/
def Honest (libs : Text) (digest : Text → Text) (forms : Set World) (keys : Set Text) (cache : Cache R) : Prop :=
  Sound (signature libs) runSchema forms keys digest cache.get

/-- The cache of a call is not wrong, and what has been printed is printed still. -/
structure GoodProc (libs : Text) (digest : Text → Text) (forms : Set World) (keys : Set Text) (w : World)
    (p : Proc R) : Prop where
  paths : ∀ x ∈ p.paths, x ∈ keys
  todo : ∀ t ∈ p.todo, t.1 ∈ keys
  cache : ∀ c, p.cache = some c → Honest libs digest forms keys c
  printed : ∀ t ∈ p.todo, ∀ out, t.2 = some out → out = runSchema w t.1

/-- **No cache is wrong.** -/
structure Good (libs : Text) (digest : Text → Text) (forms : Set World) (keys : Set Text) (s : State R) : Prop where
  world : s.world ∈ forms
  file : Honest libs digest forms keys s.file
  procs : ∀ i, GoodProc libs digest forms keys s.world (s.procs i)

/-- No add-on changes between its run and its signature. -/
def Clear (forms : Set World) (keys : Set Text) (s : State R) : Event → Prop
  | .change w => w ∈ forms ∧ ∀ i, ∀ t ∈ (s.procs i).todo, ∀ out, t.2 = some out → out = runSchema w t.1
  | .call _ paths => ∀ path ∈ paths, s.world.realpath path ∈ keys
  | _ => True

theorem honest_empty : Honest (R := R) libs digest forms keys Obj.empty := sound_of_forall_none fun _ => rfl

theorem eq_of_hit (hc : Honest libs digest forms keys cache) (hw : w ∈ forms) (hk : path ∈ keys)
    (h : hit libs digest w cache path = some out) : out = runSchema w path := by
  obtain ⟨e, he, hsome⟩ := Option.bind_eq_some_iff.mp h
  split at hsome
  · rename_i hsig
    obtain rfl := Option.some.inj hsome
    exact hc.take hw hk he hsig
  · cases hsome

/-- A signed output leaves the cache right. -/
theorem Honest.sign (hc : Honest libs digest forms keys cache) (htold : Told R libs forms keys)
    (hdigest : Set.InjOn digest keys) (hw : w ∈ forms) (hk : path ∈ keys) :
    Honest libs digest forms keys (cache.set (digest path) ⟨signature libs w path, runSchema w path⟩) :=
  hc.insert hdigest hk (valid_of_identifies htold hw hk) fun n => Obj.get_set _ n _

theorem mem_modify {α : Type*} {f : α → α} {l : List α} {j : Nat} {x : α} (h : x ∈ l.modify j f) :
    x ∈ l ∨ ∃ y ∈ l, x = f y := by
  induction l generalizing j with
  | nil => cases j <;> exact Or.inl h
  | cons y l ih =>
    cases j with
    | zero =>
      rcases List.mem_cons.mp h with rfl | h
      · exact Or.inr ⟨y, List.mem_cons_self, rfl⟩
      · exact Or.inl (List.mem_cons_of_mem _ h)
    | succ j =>
      rcases List.mem_cons.mp h with rfl | h
      · exact Or.inl List.mem_cons_self
      · rcases ih h with h | ⟨z, hz, rfl⟩
        · exact Or.inl (List.mem_cons_of_mem _ h)
        · exact Or.inr ⟨z, List.mem_cons_of_mem _ hz, rfl⟩

theorem GoodProc.begin {paths : List Text} (h : ∀ x ∈ paths, x ∈ keys) :
    GoodProc libs digest forms keys w (Proc.begin paths : Proc R) :=
  ⟨h, fun _ ht => absurd ht List.not_mem_nil, fun _ hc => (Option.some_ne_none _ hc.symm).elim,
    fun _ ht => absurd ht List.not_mem_nil⟩

theorem GoodProc.load (h : GoodProc libs digest forms keys w p) (hc : Honest libs digest forms keys cache) :
    GoodProc libs digest forms keys w (p.load cache) := by
  refine ⟨h.paths, h.todo, fun c hcache => ?_, h.printed⟩
  obtain rfl := Option.some.inj hcache
  cases hp : p.cache with
  | none => exact hc
  | some c => exact h.cache c hp

theorem GoodProc.check (h : GoodProc libs digest forms keys w p) :
    GoodProc libs digest forms keys w (p.check libs digest w) := by
  unfold Proc.check
  split
  · rename_i cache path paths hcache hpaths
    have hrest : ∀ x ∈ paths, x ∈ keys := fun x hx => h.paths x (hpaths ▸ List.mem_cons_of_mem _ hx)
    have hpath : path ∈ keys := h.paths path (hpaths ▸ List.mem_cons_self)
    split
    · exact ⟨hrest, h.todo, h.cache, h.printed⟩
    · refine ⟨hrest, fun t ht => ?_, h.cache, fun t ht out hout => ?_⟩
      · rcases List.mem_append.mp ht with ht | ht
        · exact h.todo t ht
        · obtain rfl := List.mem_singleton.mp ht
          exact hpath
      · rcases List.mem_append.mp ht with ht | ht
        · exact h.printed t ht out hout
        · obtain rfl := List.mem_singleton.mp ht
          cases hout
  · exact h

theorem GoodProc.run (h : GoodProc libs digest forms keys w p) (j : Nat) :
    GoodProc libs digest forms keys w (p.run w j) := by
  unfold Proc.run
  split
  · refine ⟨h.paths, fun t ht => ?_, h.cache, fun t ht out hout => ?_⟩
    · rcases mem_modify ht with hmem | ⟨t', hmem, rfl⟩
      · exact h.todo t hmem
      · exact h.todo t' hmem
    · rcases mem_modify ht with hmem | ⟨⟨x, printed⟩, hmem, rfl⟩
      · exact h.printed t hmem out hout
      · obtain rfl := Option.some.inj hout
        cases printed with
        | none => rfl
        | some out => exact h.printed _ hmem out rfl
  · exact h

theorem GoodProc.sign (h : GoodProc libs digest forms keys w p) (htold : Told R libs forms keys)
    (hdigest : Set.InjOn digest keys) (hw : w ∈ forms) :
    GoodProc libs digest forms keys w (p.sign libs digest w) := by
  unfold Proc.sign
  split
  · rename_i cache path out todo hcache htodo
    split
    · have hmem : (path, some out) ∈ p.todo := htodo ▸ List.mem_cons_self
      have hrest : ∀ t ∈ todo, t ∈ p.todo := fun t ht => htodo ▸ List.mem_cons_of_mem _ ht
      refine ⟨h.paths, fun t ht => h.todo t (hrest t ht), fun c hc => ?_, fun t ht => h.printed t (hrest t ht)⟩
      obtain rfl := Option.some.inj hc
      split
      · exact h.cache cache hcache
      · -- what was printed is what the add-on prints when it is signed
        rw [h.printed _ hmem out rfl]
        exact (h.cache cache hcache).sign htold hdigest hw (h.todo _ hmem)
    · exact h
  · exact h

theorem GoodProc.saved (h : GoodProc libs digest forms keys w p) :
    GoodProc libs digest forms keys w { p with unsaved := false } := ⟨h.paths, h.todo, h.cache, h.printed⟩

theorem Good.withProc (h : Good libs digest forms keys s) (i : Nat) (hp : GoodProc libs digest forms keys s.world p) :
    Good libs digest forms keys (s.withProc i p) := by
  refine ⟨h.world, h.file, fun j => ?_⟩
  change GoodProc libs digest forms keys s.world (Function.update s.procs i p j)
  rw [Function.update_apply]
  split
  · exact hp
  · exact h.procs j

/-- **No step makes an entry wrong**, if no add-on changes between its run and its signature. -/
theorem good_step {e : Event} (htold : Told R libs forms keys) (hdigest : Set.InjOn digest keys)
    (h : Good libs digest forms keys s) (hclear : Clear forms keys s e) :
    Good libs digest forms keys (step libs digest s e) := by
  cases e with
  | change w =>
    exact ⟨hclear.1, h.file, fun i => ⟨(h.procs i).paths, (h.procs i).todo, (h.procs i).cache, hclear.2 i⟩⟩
  | lose => exact ⟨h.world, honest_empty, h.procs⟩
  | call i paths =>
    rw [step]
    split
    · refine h.withProc i (.begin fun x hx => ?_)
      obtain ⟨path, hpath, rfl⟩ := List.mem_map.mp hx
      exact hclear path hpath
    · exact h
  | load i => exact h.withProc i ((h.procs i).load h.file)
  | check i => exact h.withProc i (h.procs i).check
  | run i j => exact h.withProc i ((h.procs i).run j)
  | sign i => exact h.withProc i ((h.procs i).sign htold hdigest h.world)
  | save i written =>
    rw [step]
    split
    · have hproc := h.procs i
      refine ⟨h.world, ?_, (h.withProc i hproc.saved).procs⟩
      change Honest libs digest forms keys (if written then _ else _)
      split
      · cases hc : (s.procs i).cache with
        | none => exact h.file
        | some c => exact hproc.cache c hc
      · exact h.file
    · exact h

theorem good_of_reached {w₀ : World} (htold : Told R libs forms keys) (hdigest : Set.InjOn digest keys)
    (hw₀ : w₀ ∈ forms) (h : Reached (Clear forms keys) (step libs digest) (start w₀ : State R) s) :
    Good libs digest forms keys s := by
  refine h.invariant ⟨hw₀, honest_empty, fun i => .begin fun x hx => ?_⟩ fun _ _ => good_step htold hdigest
  exact absurd hx List.not_mem_nil

/-- **What is taken from the cache** is what the add-on prints now. -/
theorem describe_hit {w₀ : World} (htold : Told R libs forms keys) (hdigest : Set.InjOn digest keys)
    (hw₀ : w₀ ∈ forms) (h : Reached (Clear forms keys) (step libs digest) (start w₀ : State R) s) :
    ∀ i cache, (s.procs i).cache = some cache ∨ s.file = cache → ∀ path ∈ keys, ∀ out,
      hit libs digest s.world cache path = some out → out = runSchema s.world path := by
  have hgood := good_of_reached htold hdigest hw₀ h
  rintro i cache (hc | rfl) path hk out hout
  · exact eq_of_hit ((hgood.procs i).cache cache hc) hgood.world hk hout
  · exact eq_of_hit hgood.file hgood.world hk hout

theorem describe_hit_sample :
    (hit [] id (sampleWorld 1) sampleSaved.file samplePath).isSome = true ∧
      ∀ path ∈ ({samplePath} : Set Text), ∀ out, hit [] id (sampleWorld 1) sampleSaved.file path = some out →
        out = runSchema (sampleWorld 1) path :=
  have hcalled : Reached (Clear sampleForms {samplePath}) (step [] id) (start (sampleWorld 1)) sampleCalled :=
    .next (Event.call 0 [samplePath]) .start fun _ h => List.mem_singleton.mp h
  have hserved : Reached (Clear sampleForms {samplePath}) (step [] id) (start (sampleWorld 1))
      (sampleServing.foldl (step [] id) sampleCalled) := hcalled.run ⟨trivial, trivial, trivial, trivial, trivial⟩
  ⟨by decide, describe_hit told_sample (Set.injOn_id _) (Or.inl rfl) (hserved.next (Event.save 0 true) trivial) 0 _
    (Or.inr rfl)⟩

end Keeps

/-! ## What a call returns -/

section Call

variable {R : PyJson.Rounding} {libs : Text} {digest : Text → Text} {forms : Set World} {keys : Set Text}
  {w : World} {ps : List Text} {p : Proc R} {s : State R} {path : Text} {out : Out R} {cache : Cache R}

/-- A path of a call is still to be looked at. -/
def Proc.Open (p : Proc R) (x : Text) : Prop := x ∈ p.paths ∨ x ∈ p.todo.map Prod.fst

/-- The cache of a call has an entry for the path that can be taken. -/
def Proc.Knows (libs : Text) (digest : Text → Text) (w : World) (p : Proc R) (x : Text) : Prop :=
  ∃ c, p.cache = some c ∧ Warm (signature libs) digest c.get w x

/-- A call of the paths, while the files are as they are. -/
structure During (libs : Text) (digest : Text → Text) (w : World) (ps : List Text) (p : Proc R) : Prop where
  covered : ∀ x ∈ ps, p.Open x ∨ (p.result.get x).isSome
  result : ∀ x out, p.result.get x = some out → out = runSchema w x
  known : ∀ x ∈ ps, p.Open x ∨ (runSchema w x : Out R).entries = [] ∨ p.Knows libs digest w x

/-- What is returned for one path more. -/
theorem During.result_set (h : During libs digest w ps p) (hout : out = runSchema w path) :
    ∀ x o, (p.result.set path out).get x = some o → o = runSchema w x := by
  intro x o ho
  rw [Obj.get_set] at ho
  split at ho
  · rename_i hx
    obtain rfl := Option.some.inj ho
    exact hx ▸ hout
  · exact h.result x o ho

theorem isSome_set {o : Obj Text (Out R)} {x : Text} (h : x = path ∨ (o.get x).isSome) :
    ((o.set path out).get x).isSome := by
  rw [Obj.get_set]
  split
  · rfl
  · exact h.resolve_left ‹_›

theorem During.begin : During libs digest w ps (Proc.begin ps : Proc R) :=
  ⟨fun _ hx => Or.inl (Or.inl hx), fun _ _ h => (Option.some_ne_none _ h.symm).elim, fun _ hx => Or.inl (Or.inl hx)⟩

theorem During.load (h : During libs digest w ps p) (file : Cache R) : During libs digest w ps (p.load file) := by
  refine ⟨h.covered, h.result, fun x hx => ?_⟩
  rcases h.known x hx with hopen | hnone | ⟨c, hc, hwarm⟩
  · exact Or.inl hopen
  · exact Or.inr (Or.inl hnone)
  · exact Or.inr (Or.inr ⟨c, congrArg some (by rw [hc]; rfl), hwarm⟩)

theorem During.check (h : During libs digest w ps p) (hgood : GoodProc libs digest forms keys w p) (hw : w ∈ forms) :
    During libs digest w ps (p.check libs digest w) := by
  unfold Proc.check
  split
  · rename_i cache path paths hcache hpaths
    have hpath : path ∈ keys := hgood.paths path (hpaths ▸ List.mem_cons_self)
    -- an open path is the one that is checked, or open still
    have hopen : ∀ {x}, p.Open x → x = path ∨ x ∈ paths ∨ x ∈ p.todo.map Prod.fst := by
      rintro x (hx | hx)
      · rw [hpaths] at hx
        exact (List.mem_cons.mp hx).imp_right Or.inl
      · exact Or.inr (Or.inr hx)
    split
    · rename_i out hhit
      have hout := eq_of_hit (hgood.cache cache hcache) hw hpath hhit
      refine ⟨fun x hx => ?_, h.result_set hout, fun x hx => ?_⟩
      · rcases h.covered x hx with hx | hx
        · exact (hopen hx).elim (fun heq => Or.inr (isSome_set (Or.inl heq))) Or.inl
        · exact Or.inr (isSome_set (Or.inr hx))
      · rcases h.known x hx with hx | hknown
        · rcases hopen hx with rfl | hx
          · obtain ⟨e, he, hsome⟩ := Option.bind_eq_some_iff.mp hhit
            refine Or.inr (Or.inr ⟨cache, hcache, e, he, ?_⟩)
            by_contra hne
            rw [if_neg hne] at hsome
            cases hsome
          · exact Or.inl hx
        · exact Or.inr hknown
    · have hopen' : ∀ {x}, p.Open x →
          Proc.Open { p with paths := paths, todo := p.todo ++ [(path, none)], unsaved := true } x := by
        intro x hx
        have hmap : (p.todo ++ [(path, none)]).map Prod.fst = p.todo.map Prod.fst ++ [path] := List.map_append
        rcases hopen hx with rfl | hx | hx
        · exact Or.inr (hmap ▸ List.mem_append_right _ List.mem_cons_self)
        · exact Or.inl hx
        · exact Or.inr (hmap ▸ List.mem_append_left _ hx)
      exact ⟨fun x hx => (h.covered x hx).imp_left hopen', h.result, fun x hx => (h.known x hx).imp_left hopen'⟩
  · exact h

theorem map_modify {α β : Type*} {f : α → α} {g : α → β} (h : ∀ x, g (f x) = g x) (l : List α) (j : Nat) :
    (l.modify j f).map g = l.map g := by
  induction l generalizing j with
  | nil => cases j <;> rfl
  | cons x l ih =>
    cases j with
    | zero => exact congrArg (· :: l.map g) (h x)
    | succ j => exact congrArg (g x :: ·) (ih j)

theorem During.run (h : During libs digest w ps p) (j : Nat) : During libs digest w ps (p.run w j) := by
  unfold Proc.run
  split
  · have hmap : (p.todo.modify j fun t => (t.1, some (t.2.getD (runSchema w t.1)))).map Prod.fst =
        p.todo.map Prod.fst := map_modify (fun _ => by rfl) _ _
    have hopen : ∀ {x}, p.Open x → Proc.Open
        { p with todo := p.todo.modify j fun t => (t.1, some (t.2.getD (runSchema w t.1))) } x :=
      fun hx => hx.imp_right fun hx => hmap ▸ hx
    exact ⟨fun x hx => (h.covered x hx).imp_left hopen, h.result, fun x hx => (h.known x hx).imp_left hopen⟩
  · exact h

theorem During.sign (h : During libs digest w ps p) (hgood : GoodProc libs digest forms keys w p)
    (hdigest : Set.InjOn digest keys) (hps : ∀ x ∈ ps, x ∈ keys) :
    During libs digest w ps (p.sign libs digest w) := by
  unfold Proc.sign
  split
  · rename_i cache path out todo hcache htodo
    split
    · have hmem : (path, some out) ∈ p.todo := htodo ▸ List.mem_cons_self
      have hout : out = runSchema w path := hgood.printed _ hmem out rfl
      have hopen : ∀ {x}, p.Open x → x = path ∨ x ∈ p.paths ∨ x ∈ todo.map Prod.fst := by
        rintro x (hx | hx)
        · exact Or.inr (Or.inl hx)
        · rw [htodo] at hx
          exact (List.mem_cons.mp hx).imp_right Or.inr
      refine ⟨fun x hx => ?_, h.result_set hout, fun x hx => ?_⟩
      · rcases h.covered x hx with hx | hx
        · exact (hopen hx).elim (fun heq => Or.inr (isSome_set (Or.inl heq))) Or.inl
        · exact Or.inr (isSome_set (Or.inr hx))
      · by_cases hempty : out.entries = []
        · rcases h.known x hx with hx | hnone | ⟨c, hc, hwarm⟩
          · rcases hopen hx with rfl | hx
            · exact Or.inr (Or.inl (hout ▸ hempty))
            · exact Or.inl hx
          · exact Or.inr (Or.inl hnone)
          · exact Or.inr (Or.inr ⟨c, by rw [if_pos hempty, ← hcache, hc], hwarm⟩)
        · have hget : ∀ n, (cache.set (digest path) ⟨signature libs w path, out⟩).get n =
              if n = digest path then some ⟨signature libs w path, out⟩ else cache.get n := fun n => Obj.get_set _ n _
          rcases h.known x hx with hopen' | hnone | ⟨c, hc, hwarm⟩
          · rcases hopen hopen' with rfl | hx
            · exact Or.inr (Or.inr ⟨_, by rw [if_neg hempty], _, by rw [hget, if_pos rfl], rfl⟩)
            · exact Or.inl hx
          · exact Or.inr (Or.inl hnone)
          · obtain rfl := Option.some.inj (hcache.symm.trans hc)
            exact Or.inr (Or.inr ⟨_, by rw [if_neg hempty],
              hwarm.insert hdigest (hgood.todo _ hmem) (hps x hx) rfl hget⟩)
    · exact h
  · exact h

/-- No file changes, and the program makes no other call. -/
def Quiet (keys : Set Text) (i : Nat) (s : State R) : Event → Prop
  | .change _ => False
  | .call j paths => j ≠ i ∧ ∀ path ∈ paths, s.world.realpath path ∈ keys
  | _ => True

theorem clear_of_quiet {i : Nat} {e : Event} (h : Quiet keys i s e) : Clear forms keys s e := by
  cases e with
  | change => exact h.elim
  | call => exact h.2
  | lose | load | check | run | sign | save => trivial

theorem world_step {i : Nat} {e : Event} (h : Quiet keys i s e) : (step libs digest s e).world = s.world := by
  cases e with
  | change => exact h.elim
  | call j paths =>
    rw [step]
    split
    · rfl
    · rfl
  | save j written =>
    rw [step]
    split
    · rfl
    · rfl
  | lose | load | check | run | sign => rfl

theorem procs_withProc (i j : Nat) : (s.withProc j p).procs i = if i = j then p else s.procs i :=
  Function.update_apply ..

theorem During.withProc {i j : Nat} (h : During libs digest w ps (s.procs i))
    (hp : During libs digest w ps (s.procs j) → During libs digest w ps p) :
    During libs digest w ps ((s.withProc j p).procs i) := by
  rw [procs_withProc]
  split
  · rename_i hij
    exact hp (hij ▸ h)
  · exact h

/-- **A call goes on**, whatever else happens while no file changes. -/
theorem during_step {i : Nat} {e : Event} (hdigest : Set.InjOn digest keys) (hps : ∀ x ∈ ps, x ∈ keys)
    (hgood : Good libs digest forms keys s) (h : During libs digest s.world ps (s.procs i))
    (hquiet : Quiet keys i s e) : During libs digest s.world ps ((step libs digest s e).procs i) := by
  cases e with
  | change => exact hquiet.elim
  | lose => exact h
  | call j paths =>
    rw [step]
    split
    · rw [procs_withProc, if_neg hquiet.1.symm]
      exact h
    · exact h
  | load j => exact h.withProc fun h => h.load s.file
  | check j => exact h.withProc fun h => h.check (hgood.procs j) hgood.world
  | run j k => exact h.withProc fun h => h.run k
  | sign j => exact h.withProc fun h => h.sign (hgood.procs j) hdigest hps
  | save j written =>
    rw [step]
    split
    · exact During.withProc (s := s) h fun h => ⟨h.covered, h.result, h.known⟩
    · exact h

/-- A program serves a call of the paths: it began in a state that is reached, and no file has changed since. -/
def Serves (libs : Text) (digest : Text → Text) (forms : Set World) (keys : Set Text) (i : Nat) (paths : List Text)
    (s : State R) : Prop :=
  ∃ w₀ ∈ forms, ∃ s₀, Reached (Clear forms keys) (step libs digest) (start w₀) s₀ ∧ (s₀.procs i).Finished ∧
    (∀ path ∈ paths, s₀.world.realpath path ∈ keys) ∧
    Reached (Quiet keys i) (step libs digest) (step libs digest s₀ (.call i paths)) s

theorem serves_sample : Serves [] id sampleForms {samplePath} 0 [samplePath]
    (sampleServing.foldl (step [] id) sampleCalled) :=
  ⟨sampleWorld 1, Or.inl rfl, start (sampleWorld 1), .start, by decide, fun _ h => List.mem_singleton.mp h,
    Reached.start.run ⟨trivial, trivial, trivial, trivial, trivial⟩⟩

theorem Serves.next {i : Nat} {paths : List Text} (h : Serves libs digest forms keys i paths s) (e : Event)
    (hquiet : Quiet keys i s e) : Serves libs digest forms keys i paths (step libs digest s e) := by
  obtain ⟨w₀, hw₀, s₀, h₀, hidle, hpaths, hrun⟩ := h
  exact ⟨w₀, hw₀, s₀, h₀, hidle, hpaths, hrun.next e hquiet⟩

theorem during_of_serves {i : Nat} {paths : List Text} (htold : Told R libs forms keys)
    (hdigest : Set.InjOn digest keys) (h : Serves libs digest forms keys i paths s) :
    Good libs digest forms keys s ∧ (∀ x ∈ paths.map s.world.realpath, x ∈ keys) ∧
      During libs digest s.world (paths.map s.world.realpath) (s.procs i) := by
  obtain ⟨w₀, hw₀, s₀, h₀, hidle, hpaths, hrun⟩ := h
  have hps : ∀ x ∈ paths.map s₀.world.realpath, x ∈ keys := by
    intro x hx
    obtain ⟨path, hpath, rfl⟩ := List.mem_map.mp hx
    exact hpaths path hpath
  have hcall : step libs digest s₀ (.call i paths) = s₀.withProc i (.begin (paths.map s₀.world.realpath)) :=
    if_pos hidle
  have hinv : Good libs digest forms keys s ∧ s.world = s₀.world ∧
      During libs digest s₀.world (paths.map s₀.world.realpath) (s.procs i) := by
    refine hrun.invariant (I := fun s => Good libs digest forms keys s ∧ s.world = s₀.world ∧
      During libs digest s₀.world (paths.map s₀.world.realpath) (s.procs i)) ?_ fun s e hs hquiet => ?_
    · rw [hcall]
      refine ⟨(good_of_reached htold hdigest hw₀ h₀).withProc i (.begin hps), rfl, ?_⟩
      rw [procs_withProc, if_pos rfl]
      exact .begin
    · obtain ⟨hgood, hworld, hduring⟩ := hs
      refine ⟨good_step htold hdigest hgood (clear_of_quiet hquiet), (world_step hquiet).trans hworld, ?_⟩
      rw [← hworld] at hduring hps ⊢
      exact during_step hdigest hps hgood hduring hquiet
  obtain ⟨hgood, hworld, hduring⟩ := hinv
  rw [hworld]
  exact ⟨hgood, hps, hduring⟩

/-- An add-on prints nothing, or what is looked up has an entry for it that can be taken. -/
def Settled (R : PyJson.Rounding) (libs : Text) (digest : Text → Text) (w : World)
    (get : Text → Option (Memo.Entry (List Int) (Out R))) (x : Text) : Prop :=
  (runSchema w x : Out R).entries = [] ∨ Warm (signature libs) digest get w x

/-- As `Quiet`, and the cache file stays. -/
def Calm (keys : Set Text) (i : Nat) (s : State R) : Event → Prop
  | .lose | .save _ _ => False
  | e => Quiet keys i s e

theorem Calm.quiet {i : Nat} {e : Event} (h : Calm keys i s e) : Quiet keys i s e := by
  cases e with
  | lose | save => exact h.elim
  | change | call | load | check | run | sign => exact h

/-- A call that finds the paths in the cache file. -/
structure Reuses (libs : Text) (digest : Text → Text) (w : World) (ps : List Text) (file : Cache R) (p : Proc R) :
    Prop where
  file : ∀ x ∈ ps, Settled R libs digest w file.get x
  cache : ∀ c, p.cache = some c → ∀ x ∈ ps, Settled R libs digest w c.get x
  todo : ∀ t ∈ p.todo, t.1 ∈ ps → (runSchema w t.1 : Out R).entries = []

variable {file : Cache R}

theorem Reuses.begin {paths : List Text} (h : ∀ x ∈ ps, Settled R libs digest w file.get x) :
    Reuses libs digest w ps file (Proc.begin paths) :=
  ⟨h, fun _ hc => (Option.some_ne_none _ hc.symm).elim, fun _ ht => absurd ht List.not_mem_nil⟩

theorem Reuses.load (h : Reuses libs digest w ps file p) : Reuses libs digest w ps file (p.load file) := by
  refine ⟨h.file, fun c hc => ?_, h.todo⟩
  obtain rfl := Option.some.inj hc
  cases hp : p.cache with
  | none => exact h.file
  | some c => exact h.cache c hp

theorem Reuses.check (h : Reuses libs digest w ps file p) : Reuses libs digest w ps file (p.check libs digest w) := by
  unfold Proc.check
  split
  · rename_i cache path paths hcache hpaths
    split
    · exact ⟨h.file, h.cache, h.todo⟩
    · rename_i hmiss
      refine ⟨h.file, h.cache, fun t ht hmem => ?_⟩
      rcases List.mem_append.mp ht with ht | ht
      · exact h.todo t ht hmem
      · obtain rfl := List.mem_singleton.mp ht
        refine (h.cache cache hcache path hmem).resolve_right fun ⟨e, he, hsig⟩ => ?_
        rw [hit, he, Option.bind_some, if_pos hsig] at hmiss
        cases hmiss
  · exact h

theorem Reuses.run (h : Reuses libs digest w ps file p) (j : Nat) : Reuses libs digest w ps file (p.run w j) := by
  unfold Proc.run
  split
  · refine ⟨h.file, h.cache, fun t ht hmem => ?_⟩
    rcases mem_modify ht with hmem' | ⟨t', hmem', rfl⟩
    · exact h.todo t hmem' hmem
    · exact h.todo t' hmem' hmem
  · exact h

theorem Reuses.sign (h : Reuses libs digest w ps file p) (hgood : GoodProc libs digest forms keys w p)
    (hdigest : Set.InjOn digest keys) (hps : ∀ x ∈ ps, x ∈ keys) :
    Reuses libs digest w ps file (p.sign libs digest w) := by
  unfold Proc.sign
  split
  · rename_i cache path out todo hcache htodo
    split
    · refine ⟨h.file, fun c hc x hx => ?_, fun t ht => h.todo t (htodo ▸ List.mem_cons_of_mem _ ht)⟩
      obtain rfl := Option.some.inj hc
      have hpath : path ∈ keys := hgood.todo _ (htodo ▸ List.mem_cons_self)
      split
      · exact h.cache cache hcache x hx
      · exact (h.cache cache hcache x hx).imp_right fun hwarm =>
          hwarm.insert hdigest hpath (hps x hx) rfl fun n => Obj.get_set _ n _
    · exact h
  · exact h

theorem Reuses.withProc {i j : Nat} (h : Reuses libs digest w ps s.file (s.procs i))
    (hp : Reuses libs digest w ps s.file (s.procs j) → Reuses libs digest w ps s.file p) :
    Reuses libs digest w ps s.file ((s.withProc j p).procs i) := by
  rw [procs_withProc]
  split
  · rename_i hij
    exact hp (hij ▸ h)
  · exact h

theorem reuses_step {i : Nat} {e : Event} (hdigest : Set.InjOn digest keys) (hps : ∀ x ∈ ps, x ∈ keys)
    (hgood : Good libs digest forms keys s) (h : Reuses libs digest s.world ps s.file (s.procs i))
    (hcalm : Calm keys i s e) :
    Reuses libs digest s.world ps (step libs digest s e).file ((step libs digest s e).procs i) := by
  cases e with
  | change | lose | save => exact hcalm.elim
  | call j paths =>
    rw [step]
    split
    · exact h.withProc fun _ => .begin h.file
    · exact h
  | load j => exact h.withProc Reuses.load
  | check j => exact h.withProc Reuses.check
  | run j k => exact h.withProc fun h => h.run k
  | sign j => exact h.withProc fun h => h.sign (hgood.procs j) hdigest hps

/-- **What is run again**: after a call has been saved, a call runs those of its add-ons only that print nothing. -/
theorem describe_many_reuse {i j : Nat} {paths paths' : List Text} {s' : State R} (htold : Told R libs forms keys)
    (hdigest : Set.InjOn digest keys) (h : Serves libs digest forms keys i paths s)
    (hready : (s.procs i).paths = [] ∧ (s.procs i).todo = [] ∧ (s.procs i).unsaved = true)
    (hidle : ((step libs digest s (.save i true)).procs j).Finished)
    (hpaths' : ∀ path ∈ paths', s.world.realpath path ∈ keys)
    (h' : Reached (Calm keys j) (step libs digest)
      (step libs digest (step libs digest s (.save i true)) (.call j paths')) s') :
    ∀ t ∈ (s'.procs j).todo, t.1 ∈ paths.map s.world.realpath → (runSchema s'.world t.1 : Out R).entries = [] := by
  obtain ⟨hgood, hps, hduring⟩ := during_of_serves htold hdigest h
  have hsaved := good_step (e := .save i true) htold hdigest hgood trivial
  have hfile : ∀ x ∈ paths.map s.world.realpath,
      Settled R libs digest s.world (step libs digest s (.save i true)).file.get x := by
    intro x hx
    rcases hduring.known x hx with hopen | hnone | ⟨c, hc, hwarm⟩
    · rcases hopen with hopen | hopen
      · rw [hready.1] at hopen
        cases hopen
      · rw [hready.2.1] at hopen
        cases hopen
    · exact Or.inl hnone
    · have hstep : (step libs digest s (.save i true)).file = c := by
        rw [step]
        change State.file (if _ then _ else _) = c
        rw [if_pos hready]
        change (if true = true then (s.procs i).cache.getD s.file else s.file) = c
        rw [if_pos rfl, hc]
        rfl
      exact Or.inr (hstep.symm ▸ hwarm)
  have hworld : (step libs digest s (.save i true)).world = s.world := @world_step R libs digest keys s i _ trivial
  generalize step libs digest s (.save i true) = s₁ at hsaved hfile hworld hidle h'
  rw [← hworld] at hfile hps hpaths' ⊢
  have hcall : step libs digest s₁ (.call j paths') = s₁.withProc j (.begin (paths'.map s₁.world.realpath)) :=
    if_pos hidle
  have hinv : Good libs digest forms keys s' ∧ s'.world = s₁.world ∧
      Reuses libs digest s₁.world (paths.map s₁.world.realpath) s'.file (s'.procs j) := by
    refine h'.invariant (I := fun s => Good libs digest forms keys s ∧ s.world = s₁.world ∧
      Reuses libs digest s₁.world (paths.map s₁.world.realpath) s.file (s.procs j)) ?_ fun s e hs hcalm => ?_
    · rw [hcall]
      refine ⟨hsaved.withProc j (.begin fun x hx => ?_), rfl, ?_⟩
      · obtain ⟨path, hpath, rfl⟩ := List.mem_map.mp hx
        exact hpaths' path hpath
      · rw [procs_withProc, if_pos rfl]
        exact .begin hfile
    · obtain ⟨hgood, hworld, hreuses⟩ := hs
      refine ⟨good_step htold hdigest hgood (clear_of_quiet hcalm.quiet), (world_step hcalm.quiet).trans hworld, ?_⟩
      rw [← hworld] at hreuses hps ⊢
      exact reuses_step hdigest hps hgood hreuses hcalm
  obtain ⟨-, hworld', hreuses⟩ := hinv
  rw [hworld']
  exact hreuses.todo

theorem describe_many_reuse_sample :
    samplePath ∉ ((sampleAgain.foldl (step [] id)
      (step [] id sampleSaved (.call 1 [samplePath]))).procs 1).todo.map Prod.fst := by
  intro h
  obtain ⟨t, ht, hpath⟩ := List.mem_map.mp h
  have hagain : Reached (Calm {samplePath} 1) (step [] id) (step [] id sampleSaved (.call 1 [samplePath]))
      (sampleAgain.foldl (step [] id) (step [] id sampleSaved (.call 1 [samplePath]))) :=
    Reached.start.run ⟨trivial, trivial, trivial⟩
  have hempty : (runSchema (sampleWorld 1) t.1 : Out sampleRounding).entries = [] :=
    describe_many_reuse (i := 0) (j := 1) told_sample (Set.injOn_id _) serves_sample (by decide) (by decide)
      (fun _ h => List.mem_singleton.mp h) hagain t ht (List.mem_singleton.mpr hpath)
  rw [hpath] at hempty
  exact absurd hempty (by decide)

/-- A call of one path, with a change between the run and the signature. -/
def lateChange (path : Text) (w : World) : List Event :=
  [.call 0 [path], .load 0, .check 0, .run 0 0, .change w, .sign 0, .save 0 true]

/-- **The condition is needed**: an add-on that changes between its run and its signature is described as it was
before the change. -/
theorem stale_of_change {w' : World} (hreal : w.realpath path = path)
    (hout : (runSchema w path : Out R).entries ≠ []) :
    hit libs digest w' ((lateChange path w').foldl (step libs digest) (start w : State R)).file path =
      some (runSchema w path) := by
  have hstep : ((lateChange path w').foldl (step libs digest) (start w : State R)).file =
      Obj.empty.set (digest path) ⟨signature libs w' path, runSchema w path⟩ := by
    simp only [lateChange, List.foldl_cons, List.foldl_nil, step, start, State.withProc, Proc.Finished, Proc.begin,
      Proc.load, Proc.check, Proc.run, Proc.sign, hit]
    simpa [hreal] using fun hcon => absurd hcon hout
  rw [hstep, hit, Obj.get_set, if_pos rfl, Option.bind_some, if_pos rfl]

end Call

end LabInABox.Setup.Describe
