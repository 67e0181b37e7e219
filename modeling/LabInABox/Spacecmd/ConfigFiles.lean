import LabInABox.Schema.Versions
import LabInABox.Spacecmd.Objects

/-!
# The files of configuration channels

Model of `ensure_config_file`, `ensure_init_sls` and `ensure_config_channels`
(`libs/spacecmd_common.py`), which bring the files of the declared channels to the server.

* A file of the server has a content, an owner, a group, a mode and a binary flag. A push stores what it
  is given; `Library.unsaid` is what it leaves of the others.
* The digest and what `configchannel_filedetails` prints of a file are parameters; a file is printed with
  the digest of its content.
* A channel that is not listed is created. Every call succeeds.
* A field that a declaration leaves out is `none`.

Results:
* `ensureConfigChannels_eq`: a run is one turn for each declared file.
* `settled_iff`: the files are as declared, and a second run pushes none, exactly when no file that shows
  the declared digest differs in something else that is declared.
-/

namespace LabInABox.Spacecmd.ConfigFiles

open Text
open Schema (Json)
open Versions (truthy)

/-! ## Files -/

/-- A file of a channel on the server. -/
structure ConfigFile where
  content : Text
  owner : Text
  group : Text
  mode : Text
  binary : Bool
  deriving DecidableEq

/-- The files of the server, by label and path. -/
abbrev Files := Text → Text → Option ConfigFile

/-- A file of a declared channel. -/
structure FileEntry where
  path : Option Text
  content : Option Text
  owner : Option Text
  group : Option Text
  mode : Option Text
  binary : Option Json

/-- An entry of `<prefix>_config_channels`. -/
structure Channel where
  label : Option Text
  name : Option Text
  description : Option Text
  type : Option Text
  init_sls : Option Text
  files : List FileEntry

/-- What `ensure_config_file` is given: the flag is `none` when it is not declared. -/
structure Given where
  path : Text
  content : Text
  owner : Option Text
  group : Option Text
  mode : Option Text
  flag : Option Bool
  deriving DecidableEq

/-- What the functions use of `hashlib` and of the server. -/
structure Library where
  sha256 : Text → Text
  details : Text → Text → ConfigFile → Text
  unsaid : Text → Text → Option ConfigFile → ConfigFile
  reports : ∀ label path f, sha256 f.content <:+: details label path f

/-- A push of a file to a channel. -/
abbrev Push := Text × Given

section Run

variable (lib : Library)

/-- What `configchannel_addfile` stores. -/
def pushed (files : Files) (p : Push) : ConfigFile :=
  let base := lib.unsaid p.1 p.2.path (files p.1 p.2.path)
  ⟨p.2.content, p.2.owner.getD base.owner, p.2.group.getD base.group, p.2.mode.getD base.mode,
    p.2.flag.getD false⟩

/-- The details of a file show the digest of a content. -/
def Shows (files : Files) (p : Push) : Prop :=
  ∃ f ∈ files p.1 p.2.path, lib.sha256 p.2.content <:+: lib.details p.1 p.2.path f

instance (files : Files) (p : Push) : Decidable (Shows lib files p) :=
  match h : files p.1 p.2.path with
  | none => isFalse fun ⟨_, hf, _⟩ => by simp [h] at hf
  | some f => decidable_of_iff (lib.sha256 p.2.content <:+: lib.details p.1 p.2.path f) (by simp [Shows, h])

/-- The files with one more. -/
def put (files : Files) (p : Push) (f : ConfigFile) : Files := fun label path =>
  if label = p.1 ∧ path = p.2.path then some f else files label path

/-- `ensure_config_file`, on the files and the pushes so far. `ensure_init_sls` is the same for `/init.sls`. -/
def ensureConfigFile (s : Files × List Push) (p : Push) : Files × List Push :=
  if Shows lib s.1 p then s else (put s.1 p (pushed lib s.1 p), s.2 ++ [p])

/-- A run so far: the channels of the server, the commands that made some, and its files with the pushes. -/
structure Progress where
  channels : List Text
  commands : List Text
  state : Files × List Push

/-- A text that is set. -/
def filled (t : Option Text) : Option Text := t.filter (· ≠ [])

/-- `bool(..)` of a flag that is declared. -/
def declaredFlag : Option Json → Option Bool
  | none => none
  | some .null => none
  | some v => some (truthy v)

/-- What is given of a file, or the message of `die`. -/
def FileEntry.given (label : Text) (e : FileEntry) : Except Text Given :=
  match filled e.path with
  | none => .error ("config channel '".toList ++ label ++ "': a file entry is missing required 'path'".toList)
  | some path =>
    match e.content with
    | none => .error ("config channel '".toList ++ label ++ "': file '".toList ++ path ++
        "' is missing required 'content'".toList)
    | some content => .ok ⟨path, content, filled e.owner, filled e.group, filled e.mode, declaredFlag e.binary⟩

/-- The `init.sls` of a state channel. -/
def Channel.initSls (c : Channel) : List Given :=
  if (filled c.type).getD "normal".toList = "state".toList then
    ((filled c.init_sls).map fun content => ⟨"/init.sls".toList, content, none, none, none, none⟩).toList
  else []

/-- The channel that is created when it is not listed. -/
def Channel.config (c : Channel) (label : Text) : ConfigChannel :=
  let name := (filled c.name).getD label
  ⟨label, name, (filled c.description).getD name, (filled c.type).getD "normal".toList⟩

/-- `ensure_config_channel_exists`, which succeeds. -/
def createChannel (r : Progress) (c : ConfigChannel) : Progress :=
  let out := ensureConfigChannelExists c (unlines r.channels) none
  { r with
    channels := if out.commands = [] then r.channels else r.channels ++ [c.label]
    commands := r.commands ++ out.commands }

/-- The files of a channel are ensured in turn. -/
def ensureGiven (label : Text) (r : Progress) (gs : List Given) : Progress :=
  { r with state := (gs.map (Prod.mk label)).foldl (ensureConfigFile lib) r.state }

/-- One file of a channel. -/
def ensureEntry (label : Text) (r : Progress) (e : FileEntry) : Except Text Progress :=
  (e.given label).map fun g => ensureGiven lib label r [g]

/-- One turn of `ensure_config_channels`. -/
def ensureChannel (product : Text) (r : Progress) (c : Channel) : Except Text Progress :=
  match filled c.label with
  | none => .error (product ++ "_config_channels: an entry is missing required 'label'".toList)
  | some label =>
    c.files.foldlM (ensureEntry lib label)
      (ensureGiven lib label (createChannel r (c.config label)) c.initSls)

/-- `ensure_config_channels`. -/
def ensureConfigChannels (product : Text) (r : Progress) (channels : List Channel) : Except Text Progress :=
  channels.foldlM (ensureChannel lib product) r

end Run

/-! ## What is declared -/

/-- The label of a channel that has one. -/
def Channel.key (c : Channel) : Text := (filled c.label).getD []

/-- The files of a channel that are given in full. -/
def Channel.givens (c : Channel) : List Given :=
  c.initSls ++ c.files.filterMap fun e => (e.given c.key).toOption

/-- Channels with distinct labels, each with distinct paths, and nothing that is required missing. -/
structure Declared where
  channels : List Channel
  labelled : ∀ c ∈ channels, filled c.label ≠ none
  complete : ∀ c ∈ channels, ∀ e ∈ c.files, filled e.path ≠ none ∧ e.content ≠ none
  labels : (channels.map Channel.key).Nodup
  paths : ∀ c ∈ channels, (c.givens.map Given.path).Nodup

/-- The declared files. -/
def Declared.wanted (d : Declared) : List Push := d.channels.flatMap fun c => c.givens.map (Prod.mk c.key)

/-- A file is as it is declared. -/
structure Meets (g : Given) (f : ConfigFile) : Prop where
  content : f.content = g.content
  owner : ∀ o ∈ g.owner, f.owner = o
  group : ∀ o ∈ g.group, f.group = o
  mode : ∀ o ∈ g.mode, f.mode = o
  binary : ∀ b ∈ g.flag, f.binary = b

/-- **The files settle**: from these channels and files, a run ends with what is declared and leaves the
other files, and the next run pushes nothing. -/
def Settles (lib : Library) (product : Text) (channels : List Text) (files : Files) (d : Declared) : Prop :=
  ∃ after, ensureConfigChannels lib product ⟨channels, [], files, []⟩ d.channels = .ok after ∧
    (∀ p ∈ d.wanted, ∃ f, after.state.1 p.1 p.2.path = some f ∧ Meets p.2 f) ∧
    (∀ label path, (∀ p ∈ d.wanted, ¬ (label = p.1 ∧ path = p.2.path)) →
      after.state.1 label path = files label path) ∧
    ∃ again, ensureConfigChannels lib product ⟨after.channels, [], after.state.1, []⟩ d.channels = .ok again ∧
      again.state.2 = []

/-! ## One file -/

variable {lib : Library} {s : Files × List Push} {p : Push} {ps : List Push} {d : Declared}

/-- Two pushes of different files. -/
def Apart (p p' : Push) : Prop := ¬ (p'.1 = p.1 ∧ p'.2.path = p.2.path)

theorem ensureConfigFile_files (s : Files × List Push) (p : Push) (label path : Text) :
    (ensureConfigFile lib s p).1 label path =
      if ¬ Shows lib s.1 p ∧ label = p.1 ∧ path = p.2.path then some (pushed lib s.1 p) else s.1 label path := by
  unfold ensureConfigFile
  by_cases h : Shows lib s.1 p
  · rw [if_pos h, if_neg fun hc => hc.1 h]
  · rw [if_neg h]
    by_cases hkey : label = p.1 ∧ path = p.2.path
    · rw [if_pos ⟨h, hkey⟩]
      exact if_pos hkey
    · rw [if_neg fun hc => hkey hc.2]
      exact if_neg hkey

/-- A push leaves the other files. -/
theorem ensureConfigFile_of_ne {label path : Text} (h : ¬ (label = p.1 ∧ path = p.2.path)) :
    (ensureConfigFile lib s p).1 label path = s.1 label path := by
  rw [ensureConfigFile_files, if_neg fun hc => h hc.2]

theorem shows_congr {files files' : Files} (h : files p.1 p.2.path = files' p.1 p.2.path) :
    Shows lib files p ↔ Shows lib files' p := by
  unfold Shows
  rw [h]

theorem pushed_congr {files files' : Files} (h : files p.1 p.2.path = files' p.1 p.2.path) :
    pushed lib files p = pushed lib files' p := by
  unfold pushed
  rw [h]

/-- What is pushed is as it is declared. -/
theorem meets_pushed (files : Files) (p : Push) : Meets p.2 (pushed lib files p) where
  content := rfl
  owner o ho := by simp [pushed, Option.mem_def.mp ho]
  group o ho := by simp [pushed, Option.mem_def.mp ho]
  mode o ho := by simp [pushed, Option.mem_def.mp ho]
  binary b hb := by simp [pushed, Option.mem_def.mp hb]

/-! ## The files in turn -/

/-- The files that are not ensured stay. -/
theorem foldl_files_of_ne {label path : Text} (h : ∀ p ∈ ps, ¬ (label = p.1 ∧ path = p.2.path)) :
    (ps.foldl (ensureConfigFile lib) s).1 label path = s.1 label path := by
  induction ps generalizing s with
  | nil => rfl
  | cons p ps ih =>
    rw [List.foldl_cons, ih fun p' hp' => h p' (List.mem_cons_of_mem _ hp'),
      ensureConfigFile_of_ne (h p List.mem_cons_self)]

/-- **What becomes of a file that is ensured.** -/
theorem foldl_files (hps : ps.Pairwise Apart) (hp : p ∈ ps) :
    (ps.foldl (ensureConfigFile lib) s).1 p.1 p.2.path =
      if Shows lib s.1 p then s.1 p.1 p.2.path else some (pushed lib s.1 p) := by
  induction ps generalizing s with
  | nil => exact absurd hp List.not_mem_nil
  | cons p₀ ps ih =>
    obtain ⟨hfirst, hrest⟩ := List.pairwise_cons.mp hps
    rw [List.foldl_cons]
    rcases List.mem_cons.mp hp with rfl | hp
    · have hlater : ∀ p' ∈ ps, ¬ (p.1 = p'.1 ∧ p.2.path = p'.2.path) := fun p' hp' h =>
        hfirst p' hp' ⟨h.1.symm, h.2.symm⟩
      rw [foldl_files_of_ne hlater, ensureConfigFile_files]
      by_cases h : Shows lib s.1 p
      · rw [if_neg fun hc => hc.1 h, if_pos h]
      · rw [if_pos ⟨h, rfl, rfl⟩, if_neg h]
    · have hkeep : (ensureConfigFile lib s p₀).1 p.1 p.2.path = s.1 p.1 p.2.path :=
        ensureConfigFile_of_ne (hfirst p hp)
      rw [ih hrest hp, hkeep, pushed_congr hkeep]
      simp only [shows_congr hkeep]

/-- Files that show their digests are not pushed. -/
theorem foldl_of_shows (h : ∀ p ∈ ps, Shows lib s.1 p) : ps.foldl (ensureConfigFile lib) s = s := by
  induction ps with
  | nil => rfl
  | cons p ps ih =>
    have hstep : ensureConfigFile lib s p = s := if_pos (h p List.mem_cons_self)
    rw [List.foldl_cons, hstep]
    exact ih fun p' hp' => h p' (List.mem_cons_of_mem _ hp')

/-! ## The channels in turn -/

theorem exists_given (label : Text) {e : FileEntry} (h : filled e.path ≠ none ∧ e.content ≠ none) :
    ∃ g, e.given label = .ok g := by
  obtain ⟨path, hpath⟩ := Option.ne_none_iff_exists'.mp h.1
  obtain ⟨content, hcontent⟩ := Option.ne_none_iff_exists'.mp h.2
  unfold FileEntry.given
  rw [hpath, hcontent]
  exact ⟨_, rfl⟩

theorem ensureGiven_append (label : Text) (r : Progress) (gs gs' : List Given) :
    ensureGiven lib label (ensureGiven lib label r gs) gs' = ensureGiven lib label r (gs ++ gs') := by
  unfold ensureGiven
  rw [List.map_append, List.foldl_append]

/-- The entries of a channel are ensured as they are given. -/
theorem foldlM_ensureEntry {label : Text} : ∀ {es : List FileEntry} (r : Progress),
    (∀ e ∈ es, filled e.path ≠ none ∧ e.content ≠ none) →
    es.foldlM (ensureEntry lib label) r =
      .ok (ensureGiven lib label r (es.filterMap fun e => (e.given label).toOption))
  | [], _, _ => rfl
  | e :: es, r, h => by
    obtain ⟨g, hg⟩ := exists_given label (h e List.mem_cons_self)
    have hfirst : ensureEntry lib label r e = .ok (ensureGiven lib label r [g]) := by
      unfold ensureEntry
      rw [hg]
      rfl
    have hgiven : (e.given label).toOption = some g := by
      rw [hg]
      rfl
    have hcons : ((e :: es).filterMap fun e => (e.given label).toOption) =
        g :: es.filterMap fun e => (e.given label).toOption := List.filterMap_cons_some hgiven
    rw [List.foldlM_cons, hfirst, hcons]
    refine (foldlM_ensureEntry (ensureGiven lib label r [g]) fun e' he' => h e' (List.mem_cons_of_mem _ he')).trans ?_
    rw [ensureGiven_append, List.singleton_append]

theorem ensureChannel_eq {product : Text} {c : Channel} (hlabel : filled c.label ≠ none)
    (hfiles : ∀ e ∈ c.files, filled e.path ≠ none ∧ e.content ≠ none) (r : Progress) :
    ensureChannel lib product r c =
      .ok (ensureGiven lib c.key (createChannel r (c.config c.key)) c.givens) := by
  obtain ⟨label, hsome⟩ := Option.ne_none_iff_exists'.mp hlabel
  have hkey : c.key = label := by
    unfold Channel.key
    rw [hsome]
    rfl
  unfold ensureChannel Channel.givens
  rw [hsome, hkey, ← ensureGiven_append]
  exact foldlM_ensureEntry _ hfiles

/-- **A run is one turn for each declared file.** -/
theorem ensureConfigChannels_eq (lib : Library) (product : Text) : ∀ {channels : List Channel} (r : Progress),
    (∀ c ∈ channels, filled c.label ≠ none) →
    (∀ c ∈ channels, ∀ e ∈ c.files, filled e.path ≠ none ∧ e.content ≠ none) →
    ∃ r', ensureConfigChannels lib product r channels = .ok r' ∧
      r'.state = (channels.flatMap fun c => c.givens.map (Prod.mk c.key)).foldl (ensureConfigFile lib) r.state
  | [], r, _, _ => ⟨r, rfl, rfl⟩
  | c :: channels, r, hlabels, hfiles => by
    obtain ⟨r', hrun, hstate⟩ := ensureConfigChannels_eq lib product
      (ensureGiven lib c.key (createChannel r (c.config c.key)) c.givens)
      (fun c' hc' => hlabels c' (List.mem_cons_of_mem _ hc')) fun c' hc' => hfiles c' (List.mem_cons_of_mem _ hc')
    refine ⟨r', ?_, ?_⟩
    · unfold ensureConfigChannels
      rw [List.foldlM_cons, ensureChannel_eq (hlabels c List.mem_cons_self) (hfiles c List.mem_cons_self)]
      exact hrun
    · rw [hstate, List.flatMap_cons, List.foldl_append]
      rfl

/-! ## What settles -/

/-- The declared files are different ones. -/
theorem pairwise_wanted (d : Declared) : d.wanted.Pairwise Apart := by
  unfold Declared.wanted
  rw [List.pairwise_flatMap]
  constructor
  · intro c hc
    have hpaths := List.pairwise_map.mp (d.paths c hc)
    rw [List.pairwise_map]
    exact hpaths.imp fun hne h => hne h.2.symm
  · have hlabels := List.pairwise_map.mp d.labels
    refine hlabels.imp fun hne p hp p' hp' h => ?_
    obtain ⟨g, -, rfl⟩ := List.mem_map.mp hp
    obtain ⟨g', -, rfl⟩ := List.mem_map.mp hp'
    exact hne h.1.symm

/-- What a run leaves of the declared files, and of the others. -/
theorem exists_run (lib : Library) (product : Text) (channels : List Text) (files : Files) (d : Declared) :
    ∃ after, ensureConfigChannels lib product ⟨channels, [], files, []⟩ d.channels = .ok after ∧
      (∀ p ∈ d.wanted, after.state.1 p.1 p.2.path =
        if Shows lib files p then files p.1 p.2.path else some (pushed lib files p)) ∧
      (∀ label path, (∀ p ∈ d.wanted, ¬ (label = p.1 ∧ path = p.2.path)) →
        after.state.1 label path = files label path) ∧
      ((∀ p ∈ d.wanted, Shows lib files p) → after.state.2 = []) := by
  obtain ⟨after, hrun, hstate⟩ := ensureConfigChannels_eq lib product
    ⟨channels, [], files, []⟩ d.labelled d.complete
  refine ⟨after, hrun, fun p hp => ?_, fun label path hne => ?_, fun h => ?_⟩
  · rw [hstate]
    exact foldl_files (pairwise_wanted d) hp
  · rw [hstate]
    exact foldl_files_of_ne hne
  · rw [hstate]
    exact congrArg Prod.snd (foldl_of_shows (s := (files, [])) h)

/-- A file that shows the declared digest is left as it is. -/
theorem meets_of_settles {product : Text} {channels : List Text} {files : Files}
    (h : Settles lib product channels files d) (hp : p ∈ d.wanted) {f : ConfigFile}
    (hf : files p.1 p.2.path = some f)
    (hshows : lib.sha256 p.2.content <:+: lib.details p.1 p.2.path f) : Meets p.2 f := by
  obtain ⟨after, hrun, hfiles, -⟩ := exists_run lib product channels files d
  obtain ⟨after', hrun', hmeets, -⟩ := h
  obtain rfl : after = after' := Except.ok.inj (hrun.symm.trans hrun')
  obtain ⟨f', hf', hm⟩ := hmeets p hp
  rw [hfiles p hp, if_pos ⟨f, hf, hshows⟩, hf, Option.some.injEq] at hf'
  rw [hf']
  exact hm

/-- **Exactly when the files settle.** -/
theorem settles_iff (lib : Library) (product : Text) (channels : List Text) (files : Files) (d : Declared) :
    Settles lib product channels files d ↔
      ∀ p ∈ d.wanted, ∀ f, files p.1 p.2.path = some f →
        lib.sha256 p.2.content <:+: lib.details p.1 p.2.path f → Meets p.2 f := by
  constructor
  · exact fun h p hp f hf hshows => meets_of_settles h hp hf hshows
  · intro h
    obtain ⟨after, hrun, hfiles, hothers, -⟩ := exists_run lib product channels files d
    obtain ⟨again, hagain, -, -, hpushes⟩ := exists_run lib product after.channels after.state.1 d
    refine ⟨after, hrun, fun p hp => ?_, hothers, again, hagain, hpushes fun p hp => ?_⟩
    · by_cases hs : Shows lib files p
      · obtain ⟨f, hf, hdigest⟩ := hs
        exact ⟨f, (hfiles p hp).trans ((if_pos ⟨f, hf, hdigest⟩).trans hf), h p hp f hf hdigest⟩
      · exact ⟨_, (hfiles p hp).trans (if_neg hs), meets_pushed files p⟩
    · by_cases hs : Shows lib files p
      · rw [shows_congr ((hfiles p hp).trans (if_pos hs))]
        exact hs
      · exact ⟨_, (hfiles p hp).trans (if_neg hs), lib.reports _ _ (pushed lib files p)⟩

/-! ## A mode that is changed -/

/-- A server that prints the mode and the digest of a file; the digest of the content below is its own. -/
def printed : Library where
  sha256 content :=
    if content = "k".toList then "8254c329a92850f6d539dd376f4816ee2764517da5e0235514af433164480d7a".toList else content
  details _ _ f := "Mode: ".toList ++ f.mode ++ "\nSHA256: ".toList ++
    if f.content = "k".toList then "8254c329a92850f6d539dd376f4816ee2764517da5e0235514af433164480d7a".toList else f.content
  unsaid _ _ old := old.getD ⟨[], "root".toList, "root".toList, "0644".toList, false⟩
  reports _ _ _ := (List.suffix_append _ _).isInfix

/-- A file whose declared mode is 0600. -/
def stricter : Declared where
  channels := [⟨some "base".toList, none, none, none, none,
    [⟨some "/etc/key".toList, some "k".toList, none, none, some "0600".toList, none⟩]⟩]
  labelled := by decide
  complete := by decide
  labels := by decide
  paths := by decide

/-- A file of the declared content keeps its old mode. -/
theorem mode_not_changed : ¬ Settles printed "mlm".toList ["base".toList]
    (fun label path => if label = "base".toList ∧ path = "/etc/key".toList then
      some ⟨"k".toList, "root".toList, "root".toList, "0644".toList, false⟩ else none) stricter := by
  intro h
  have hmeets := meets_of_settles h
    (p := ("base".toList, ⟨"/etc/key".toList, "k".toList, none, none, some "0600".toList, none⟩))
    (by decide) rfl (by decide)
  exact absurd (hmeets.mode _ rfl) (by decide)

end LabInABox.Spacecmd.ConfigFiles
